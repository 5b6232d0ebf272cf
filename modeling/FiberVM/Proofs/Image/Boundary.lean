import FiberVM.Image.Soundness
import FiberVM.Proofs.Engine.Execution

/-!
# Boundaries of instructions

The words of an image are decoded one instruction after the other. In an image without a defect each
instruction is followed by the next one or by the end of the words, and has its operands
(`Image.stands`). If moreover all addresses that the image names are those of instructions
(`Image.Aligned`), then what is executed at an instruction leads to an instruction again, or to the
end (`Image.Aligned.leads`).
-/

namespace FiberVM

/-- An instruction stands among words, where the addresses of all instructions are given. -/
structure Instruction.Stands (words : List Word) (starts : List Nat) (ins : Instruction) :
    Prop where
  word : ∃ w, words[ins.address]? = some w ∧ w.opcode? = some ins.op ∧ w.inline = ins.inline
  operand : ins.op.operands ≠ 0 → ∃ w, words[ins.address + 1]? = some w ∧ ins.operand = some w
  /-- It is followed by another instruction or by the end. -/
  next : ins.address + ins.op.width = words.length ∨ ins.address + ins.op.width ∈ starts

private lemma Instruction.Stands.cons {words starts} {ins : Instruction}
    (stands : ins.Stands words starts) (start : Nat) : ins.Stands words (start :: starts) :=
  ⟨stands.word, stands.operand, stands.next.imp_right (List.mem_cons_of_mem start)⟩

lemma Opcode.operands_eq_one {op : Opcode} (takes : op.operands ≠ 0) : op.operands = 1 := by
  cases op <;> first | rfl | exact absurd rfl takes

namespace Image

variable {i : Image} {words rest : List Word} {instructions : List Instruction} {pc : Nat}
  {ins : Instruction}

/-! ## Decoding -/

/-- Words from an address on are instructions that follow each other. -/
inductive Decodes : Nat → List Word → List Instruction → Prop
  | nil {pc : Nat} : Decodes pc [] []
  | bare {pc : Nat} {w : Word} {op : Opcode} {rest : List Word} {instructions : List Instruction}
      (word : w.opcode? = some op) (bare : op.operands = 0)
      (later : Decodes (pc + 1) rest instructions) :
    Decodes pc (w :: rest) (⟨pc, op, w.inline, none⟩ :: instructions)
  | wide {pc : Nat} {w v : Word} {op : Opcode} {rest : List Word} {instructions : List Instruction}
      (word : w.opcode? = some op) (takes : op.operands ≠ 0)
      (later : Decodes (pc + 2) rest instructions) :
    Decodes pc (w :: v :: rest) (⟨pc, op, w.inline, some v⟩ :: instructions)

/-- Words that decode completely are instructions. -/
lemma decodes_of_complete (complete : (decode pc rest).2 = none) :
    Decodes pc rest (decode pc rest).1 := by
  fun_induction decode pc rest with
  | case1 => exact .nil
  | case2 => cases complete
  | case3 pc w rest op word bare instructions stop decoded ih =>
    rw [decoded] at ih
    exact .bare word bare (ih complete)
  | case4 => cases complete
  | case5 pc w op word takes v rest instructions stop decoded ih =>
    rw [decoded] at ih
    exact .wide word takes (ih complete)

lemma Decodes.mem_starts (decodes : Decodes pc rest instructions) :
    rest = [] ∨ pc ∈ instructions.map (·.address) := by
  cases decodes with
  | nil => exact .inl rfl
  | bare => exact .inr List.mem_cons_self
  | wide => exact .inr List.mem_cons_self

/-- What follows an instruction is the end or another instruction. -/
private lemma Decodes.next {here : Nat} (decodes : Decodes here rest instructions)
    (left : words.drop here = rest) (within : here ≤ words.length) (first : Instruction) :
    here = words.length ∨ here ∈ (first :: instructions).map (·.address) := by
  rcases decodes.mem_starts with rfl | start
  · have ended := List.drop_eq_nil_iff.1 left
    exact .inl (Nat.le_antisymm within ended)
  · exact .inr (List.mem_cons_of_mem _ start)

/-- Each instruction that is decoded stands among the words. -/
lemma Decodes.stands (decodes : Decodes pc rest instructions) (here : words.drop pc = rest)
    (listed : ins ∈ instructions) : ins.Stands words (instructions.map (·.address)) := by
  have word : ∀ {pc rest}, words.drop pc = rest → ∀ k, words[pc + k]? = rest[k]? := by
    rintro pc _ rfl k
    rw [List.getElem?_drop]
  induction decodes with
  | nil => cases listed
  | @bare pc w op rest instructions code bare later ih =>
    have left : words.drop (pc + 1) = rest := by
      rw [← List.drop_drop, here]
      rfl
    rcases List.mem_cons.1 listed with rfl | listed
    · have width : op.width = 1 := by rw [Opcode.width, bare]
      have within := congrArg List.length here
      rw [List.length_drop, List.length_cons] at within
      refine ⟨⟨w, word here 0, code, rfl⟩, fun takes => absurd bare takes, ?_⟩
      rw [width]
      exact later.next left (by omega) _
    · exact (ih left listed).cons pc
  | @wide pc w v op rest instructions code takes later ih =>
    have left : words.drop (pc + 2) = rest := by
      rw [← List.drop_drop, here]
      rfl
    rcases List.mem_cons.1 listed with rfl | listed
    · have width : op.width = 2 := by rw [Opcode.width, Opcode.operands_eq_one takes]
      have within := congrArg List.length here
      rw [List.length_drop, List.length_cons, List.length_cons] at within
      refine ⟨⟨w, word here 0, code, rfl⟩, fun _ => ⟨v, word here 1, rfl⟩, ?_⟩
      rw [width]
      exact later.next left (by omega) _
    · exact (ih left listed).cons pc

/-! ## Images without a defect -/

/-- The addresses of the instructions. -/
def starts (i : Image) : List Nat := i.instructions.map (·.address)

/-- An address where an instruction starts, or the one after all words. -/
def Boundary (i : Image) (address : Nat) : Prop := address ∈ i.starts ∨ address = i.words.size

instance (i : Image) (address : Nat) :
    Decidable (i.Boundary address) := inferInstanceAs (Decidable (_ ∨ _))

/-- An image without a defect, where all addresses that it names are those of instructions. -/
structure Aligned (i : Image) : Prop where
  sound : i.defect? = none
  operands : ∀ ins ∈ i.instructions, ins.op.takesAddress → (ins.operand.getD 0).toNat ∈ i.starts
  states : ∀ s ∈ i.states, s.address ∈ i.starts

instance (i : Image) : Decidable i.Aligned :=
  decidable_of_iff (i.defect? = none ∧
      (∀ ins ∈ i.instructions, ins.op.takesAddress → (ins.operand.getD 0).toNat ∈ i.starts) ∧
      ∀ s ∈ i.states, s.address ∈ i.starts)
    ⟨fun ⟨sound, operands, states⟩ => ⟨sound, operands, states⟩, fun a =>
      ⟨a.sound, a.operands, a.states⟩⟩

lemma defects_of_sound (sound : i.defect? = none) :
    (decode 0 i.words.toList).2 = none ∧ ∀ ins ∈ i.instructions,
      i.instructionDefect? ins = none := by
  unfold defect? at sound
  obtain ⟨operands, rest⟩ := (Option.orElse_eq_none _ _).1 sound
  exact ⟨((Option.orElse_eq_none _ _).1 rest).1, List.findSome?_eq_none_iff.1 operands⟩

/-- In an image without a defect each instruction stands among the words. -/
lemma stands (sound : i.defect? = none) (listed : ins ∈ i.instructions) :
    ins.Stands i.words.toList i.starts :=
  (decodes_of_complete (defects_of_sound sound).1).stands rfl listed

/-- The operands of an instruction are in order. -/
lemma operands_of_sound (sound : i.defect? = none) (listed : ins ∈ i.instructions) :
    (ins.op.takesString → ins.inline < Word.indexCount ∧ (i.string? ins.inline).isSome) ∧
      (ins.op.isConditional → (i.words[ins.address + 1]?).bind Word.opcode? = some .goto) := by
  have fine := (defects_of_sound sound).2 ins listed
  unfold instructionDefect? at fine
  dsimp only at fine
  split at fine
  · cases fine
  split at fine
  · cases fine
  split at fine
  · cases fine
  split at fine
  · cases fine
  case isFalse small readable _ jump =>
    refine ⟨fun takes => ⟨?_, ?_⟩, fun conditional => ?_⟩
    · exact Nat.lt_of_not_le fun large => small ⟨takes, large⟩
    · cases unreadable : i.string? ins.inline with
      | some string => rfl
      | none => exact absurd ⟨takes, unreadable ▸ rfl⟩ readable
    · exact not_not.1 fun other => jump ⟨conditional, other⟩

/-- An instruction ends at a boundary. -/
lemma boundary_next (sound : i.defect? = none) (listed : ins ∈ i.instructions) :
    i.Boundary (ins.address + ins.op.width) := by
  rcases (stands sound listed).next with ended | start
  · exact .inr (ended.trans Array.length_toList)
  · exact .inl start

/-! ## Where instructions lead -/

/-- A test stands before a jump, and the jump ends at a boundary. -/
lemma boundary_skip (sound : i.defect? = none) (listed : ins ∈ i.instructions)
    (conditional : ins.op.isConditional) :
    i.Boundary (ins.address + 3) := by
  have width : ins.op.width = 1 := by
    cases op : ins.op <;> first | rfl | (rw [op] at conditional; cases conditional)
  have jump := (operands_of_sound sound listed).2 conditional
  obtain ⟨w, found, code⟩ := Option.bind_eq_some_iff.1 jump
  have onward := boundary_next sound listed
  rw [width] at onward
  rcases onward with start | ended
  · -- The jump is an instruction, with an operand word of its own.
    obtain ⟨next, listed', address⟩ := List.mem_map.1 start
    have goto : next.op = .goto := by
      obtain ⟨w', found', code', -⟩ := (stands sound listed').word
      rw [address, Array.getElem?_toList, found] at found'
      cases found'
      rw [code] at code'
      exact (Option.some.inj code').symm
    have past := boundary_next sound listed'
    rw [address, goto] at past
    exact past
  · rw [ended, Array.getElem?_eq_none (Nat.le_refl _)] at found
    cases found

/-- What is executed at an instruction of an aligned image leads to a boundary. -/
lemma Aligned.leads (aligned : i.Aligned) {a : Activation} {address} (image : a.image = i)
    (listed : ins ∈ i.instructions) (here : ins.address = a.pc)
    (loops : ∀ l ∈ a.loops, i.Boundary l.body ∧ i.Boundary l.exit)
    (leads : a.Leads ins.op address) :
    i.Boundary address := by
  subst image
  cases leads with
  | next =>
    rw [← here]
    exact boundary_next aligned.sound listed
  | @operand w takes found =>
    have wide : ins.op.operands ≠ 0 := by
      cases op : ins.op <;> first | exact Nat.one_ne_zero | (rw [op] at takes; cases takes)
    obtain ⟨w', found', operand⟩ := (stands aligned.sound listed).operand wide
    rw [here, Array.getElem?_toList, found] at found'
    cases found'
    have start := aligned.operands ins listed takes
    rw [operand] at start
    exact .inl start
  | skip conditional =>
    rw [← here]
    exact boundary_skip aligned.sound listed conditional
  | @state index address found =>
    obtain ⟨s, known, rfl⟩ := Option.map_eq_some_iff.1 found
    exact .inl (aligned.states s (List.mem_of_getElem? known))
  | @body l inside => exact (loops l inside).1
  | @exit l inside => exact (loops l inside).2

/-! ## Fetching -/

/-- What is fetched at a boundary is an instruction, as long as the budget lasts; only at the end
there is none. -/
lemma fetch_of_boundary {a : Activation} (sound : i.defect? = none) (image : a.image = i)
    (boundary : i.Boundary a.next) :
    (∃ ins ∈ i.instructions, ins.address = a.next ∧
        (a.fetch = .error .noBudget ∨ ∃ budget, a.fetch = .ok (ins.op, ins.inline, budget))) ∨
      a.next = i.words.size ∧ a.fetch = .error .invalidInstructionAddress := by
  subst image
  unfold Activation.fetch
  rcases boundary with start | ended
  · obtain ⟨ins, listed, address⟩ := List.mem_map.1 start
    obtain ⟨w, found, code, inline⟩ := (stands sound listed).word
    rw [address, Array.getElem?_toList] at found
    refine .inl ⟨ins, listed, address, ?_⟩
    simp only [found, code, inline]
    split
    · exact .inr ⟨none, rfl⟩
    · exact .inl rfl
    · exact .inr ⟨_, rfl⟩
  · rw [ended, Array.getElem?_eq_none (Nat.le_refl _)]
    exact .inr ⟨rfl, rfl⟩

end Image

end FiberVM
