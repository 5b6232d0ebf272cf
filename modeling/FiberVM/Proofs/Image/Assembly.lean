import FiberVM.Proofs.Image.Layout
import FiberVM.Proofs.Image.WellFormed

/-!
# Correctness of assembly

A program whose statements give each operation its operands (`Stmt.Regular`) is assembled into an
image from which its instructions are decoded again, each at the address of its statement. The image
has a defect only for what no statement can avoid alone: an address that is not below the end, a
state that has the name of another, or a type that is unknown (`assemble_correct`).
-/

namespace FiberVM

namespace Stmt

/-- A statement gives its operation the operands that it takes, and is no bare word. -/
def Regular : Stmt → Prop
  | .op o inline => ¬ o.takesString ∧ ¬ o.isConditional ∧ o.operands = 0 ∧
      (inline = 0 ∨ o = .getFrame ∧ inline < Word.indexCount)
  | .string o _ => o.takesString
  | .jump o _ => o.takesAddress
  | .word _ => False
  | _ => True

instance : DecidablePred Regular
  | .op o inline =>
    inferInstanceAs (Decidable (¬ o.takesString ∧ ¬ o.isConditional ∧ o.operands = 0 ∧
      (inline = 0 ∨ o = .getFrame ∧ inline < Word.indexCount)))
  | .string o _ => inferInstanceAs (Decidable (o.takesString = true))
  | .jump o _ => inferInstanceAs (Decidable (o.takesAddress = true))
  | .word _ => isFalse id
  | .state _ | .declareLocal .. | .declareShared .. | .intern _ | .address | .label _ | .int _
  | .real _ | .branch .. =>
    isTrue trivial

/-- The instructions of a statement at an address. -/
def instructions (index target : String → Nat) (here : Nat) : Stmt → List Instruction
  | .op o inline => [⟨here, o, inline, none⟩]
  | .int n => [⟨here, .pushInt, 0, some n.toUInt64⟩]
  | .real x => [⟨here, .pushReal, 0, some x.bits⟩]
  | .string o s => [⟨here, o, index s, none⟩]
  | .jump o l => [⟨here, o, 0, some (UInt64.ofNat (target l))⟩]
  | .branch test l => [⟨here, test, 0, none⟩, ⟨here + 1, .goto, 0, some (UInt64.ofNat (target l))⟩]
  | .word _ | .state _ | .declareLocal .. | .declareShared .. | .intern _ | .address | .label _ =>
    []

/-- The instructions of a program, where the statements before it are given. -/
def listing (index target : String → Nat) (before program : List Stmt) : List Instruction :=
  (inContext before program).flatMap fun x => x.2.instructions index target (codeSize x.1)

/-- The type of the variable that a statement declares. -/
def type? : Stmt → Option String
  | .declareLocal _ type | .declareShared _ type => some type
  | _ => none

end Stmt

open Image

variable {name : String} {program before rest : List Stmt} {i : Image} {notes : List Nat}
  {index target : String → Nat} {s : Stmt} {here : Nat} {t : Strings} {ins : Instruction}
  {after instructions : List Instruction}

/-! ## Decoding -/

private lemma decodes_bare {w : Word} {op n} (code : w.opcode? = some op ∧ w.inline = n)
    (bare : op.operands = 0) :
    Decodes here [w] [⟨here, op, n, none⟩] := by
  obtain ⟨code, rfl⟩ := code
  exact .bare code bare .nil

private lemma decodes_wide {w : Word} {v op n} (code : w.opcode? = some op ∧ w.inline = n)
    (takes : op.operands ≠ 0) :
    Decodes here [w, v] [⟨here, op, n, some v⟩] := by
  obtain ⟨code, rfl⟩ := code
  exact .wide code takes .nil

/-- The words of a statement are its instructions. -/
lemma Stmt.Regular.decodes (regular : s.Regular) (fits : s.Fits t) :
    Decodes here (s.words t.index target) (s.instructions t.index target here) := by
  cases s with
  | op o n =>
    obtain ⟨-, -, bare, -⟩ := regular
    have encoded : Word.encode? o n = some _ := if_pos (fits.inline o n rfl)
    rw [Stmt.words, encoded]
    exact decodes_bare (Word.encode?_eq_some encoded) bare
  | string o text =>
    have bare : o.operands = 0 := operands_eq_zero (.inl regular)
    have length : ((Stmt.string o text).words t.index target).length = 1 := fits.length
    rw [Stmt.words] at length ⊢
    cases encoded : Word.encode? o (t.index text) with
    | none =>
      rw [encoded] at length
      cases length
    | some w => exact decodes_bare (Word.encode?_eq_some encoded) bare
  | int n => exact decodes_wide (Word.plain_opcode .pushInt) Nat.one_ne_zero
  | real x => exact decodes_wide (Word.plain_opcode .pushReal) Nat.one_ne_zero
  | jump o l => exact decodes_wide (Word.plain_opcode o) (operands_of_takesAddress regular)
  | branch test l =>
    have bare : test.operands = 0 := operands_eq_zero (.inr (fits.test test l rfl))
    exact (decodes_bare (Word.plain_opcode test) bare).append
      (decodes_wide (Word.plain_opcode .goto) Nat.one_ne_zero)
  | word w => cases regular
  | _ => exact .nil

/-- The words of a program are its instructions. -/
lemma decodes_listing (regular : ∀ s ∈ program, s.Regular) (fits : ∀ s ∈ program, s.Fits t) :
    Decodes (Stmt.codeSize before) (program.flatMap (Stmt.words t.index target))
      (Stmt.listing t.index target before program) := by
  induction program generalizing before with
  | nil => exact .nil
  | cons s program ih =>
    obtain ⟨regular, regular'⟩ := List.forall_mem_cons.1 regular
    obtain ⟨fits, fits'⟩ := List.forall_mem_cons.1 fits
    have next : Stmt.codeSize before + (s.words t.index target).length =
        Stmt.codeSize (before ++ [s]) := by
      rw [fits.length, Stmt.codeSize_append, Stmt.codeSize_cons, Stmt.codeSize_nil, Nat.add_zero]
    rw [List.flatMap_cons, Stmt.listing, Stmt.inContext, List.flatMap_cons]
    apply (regular.decodes fits).append
    rw [next]
    exact ih regular' fits'

/-! ## Operands -/

/-- The operands of all instructions make sense, where each is followed by the next. -/
def OperandsInOrder (i : Image) (instructions : List Instruction) : Prop :=
  ∀ before ins after, instructions = before ++ ins :: after → ins.InOrder i after

lemma operandsInOrder_nil : OperandsInOrder i [] := by
  intro before ins after split
  exact absurd split.symm (List.append_ne_nil_of_right_ne_nil _ (List.cons_ne_nil _ _))

/-- Operands are in order one instruction after the other. -/
lemma operandsInOrder_cons :
    OperandsInOrder i (ins :: instructions) ↔ ins.InOrder i instructions ∧
      OperandsInOrder i instructions := by
  constructor
  · intro order
    refine ⟨order [] ins instructions rfl, fun before ins' after split => ?_⟩
    apply order (ins :: before)
    rw [split, List.cons_append]
  · rintro ⟨head, tail⟩ before ins' after split
    cases before with
    | nil =>
      cases split
      exact head
    | cons first before =>
      cases split
      exact tail before ins' after rfl

/-- An operation that takes neither a string nor an address and is no test has no operands to look
at. -/
lemma inOrder_of_free (string : ¬ ins.op.takesString) (address : ¬ ins.op.takesAddress)
    (test : ¬ ins.op.isConditional) : ins.InOrder i after :=
  ⟨fun takes => absurd (takesString_iff.2 takes) string, fun takes =>
    absurd (takesAddress_iff.2 takes) address,
    fun tests => absurd (isConditional_iff.2 tests) test⟩

/-- An instruction with an address is in order if the address is below the end. -/
lemma inOrder_jump {op : Opcode} {a} (jumps : op.takesAddress) (small : a < UInt64.size) :
    Instruction.InOrder i ⟨here, op, 0, some (UInt64.ofNat a)⟩ after ↔ a < i.words.size := by
  have value : (UInt64.ofNat a).toNat = a := UInt64.toNat_ofNat_of_lt small
  constructor
  · intro order
    obtain ⟨w, operand, within⟩ := order.address (takesAddress_iff.1 jumps)
    cases operand
    rwa [value] at within
  · intro within
    have bare := takes_only.1 jumps
    refine ⟨fun takes => absurd (takesString_iff.2 takes) bare, fun _ =>
      ⟨_, rfl, value.symm ▸ within⟩, fun tests => ?_⟩
    exact absurd jumps (takes_only.2 (isConditional_iff.2 tests)).2

/-- The instructions of a statement are in order if the label that it jumps to is below the end. -/
lemma Stmt.Regular.inOrder (regular : s.Regular) (fits : s.Fits i.strings)
    (small : ∀ label ∈ s.target?, target label < UInt64.size) :
    OperandsInOrder i (s.instructions i.strings.index target here ++ instructions) ↔
      (∀ label ∈ s.target?, target label < i.words.size) ∧ OperandsInOrder i instructions := by
  have still : (∀ label ∈ (none : Option String), target label < i.words.size) :=
    fun _ missing => absurd missing (Option.not_mem_none _)
  cases s with
  | op o n =>
    obtain ⟨string, test, bare, -⟩ := regular
    have address : ¬ o.takesAddress := fun takes => operands_of_takesAddress takes bare
    rw [Stmt.instructions, List.singleton_append, operandsInOrder_cons]
    exact and_congr_left fun _ => iff_of_true (inOrder_of_free string address test) still
  | int n | real x =>
    rw [Stmt.instructions, List.singleton_append, operandsInOrder_cons]
    exact and_congr_left fun _ =>
      iff_of_true (inOrder_of_free Bool.false_ne_true Bool.false_ne_true Bool.false_ne_true) still
  | string o text =>
    have found := fits.reads (List.mem_singleton.2 rfl)
    have order : Instruction.InOrder i ⟨here, o, i.strings.index text, none⟩ instructions := by
      refine ⟨fun _ => ⟨found.1, text, found.2⟩, fun takes => ?_, fun tests => ?_⟩
      · exact absurd regular (takes_only.1 (takesAddress_iff.2 takes))
      · exact absurd regular (takes_only.2 (isConditional_iff.2 tests)).1
    rw [Stmt.instructions, List.singleton_append, operandsInOrder_cons]
    exact and_congr_left fun _ => iff_of_true order still
  | jump o l =>
    rw [Stmt.instructions, List.singleton_append, operandsInOrder_cons,
      inOrder_jump regular (small l rfl)]
    simp
  | branch test l =>
    have tests := fits.test test l rfl
    have order : Instruction.InOrder i ⟨here, test, 0, none⟩
        (⟨here + 1, .goto, 0, some (UInt64.ofNat (target l))⟩ :: instructions) := by
      refine ⟨fun takes => ?_, fun takes => ?_, fun _ => ⟨_, _, rfl, rfl⟩⟩
      · exact absurd (takesString_iff.2 takes) (takes_only.2 tests).1
      · exact absurd (takesAddress_iff.2 takes) (takes_only.2 tests).2
    rw [Stmt.instructions, List.cons_append, operandsInOrder_cons, List.singleton_append,
      operandsInOrder_cons, inOrder_jump rfl (small l rfl), and_iff_right order]
    simp
  | word w => cases regular
  | _ => exact (and_iff_right still).symm

/-- The instructions of a program are in order if all labels that it jumps to are below the end. -/
lemma operandsInOrder_listing (regular : ∀ s ∈ program, s.Regular)
    (fits : ∀ s ∈ program, s.Fits i.strings)
    (small : ∀ s ∈ program, ∀ label ∈ s.target?, target label < UInt64.size) :
    OperandsInOrder i (Stmt.listing i.strings.index target before program) ↔
      ∀ s ∈ program, ∀ label ∈ s.target?, target label < i.words.size := by
  induction program generalizing before with
  | nil => exact iff_of_true operandsInOrder_nil fun s listed => absurd listed List.not_mem_nil
  | cons s program ih =>
    obtain ⟨regular, regular'⟩ := List.forall_mem_cons.1 regular
    obtain ⟨fits, fits'⟩ := List.forall_mem_cons.1 fits
    obtain ⟨small, small'⟩ := List.forall_mem_cons.1 small
    rw [Stmt.listing, Stmt.inContext, List.flatMap_cons, regular.inOrder fits small,
      List.forall_mem_cons]
    exact and_congr_right fun _ => ih regular' fits' small'

/-! ## States and variables -/

/-- A list without repetition repeats nothing that comes before. -/
private lemma nodup_iff_split {α : Type} {xs : List α} :
    xs.Nodup ↔ ∀ before x after, xs = before ++ x :: after → x ∉ before := by
  constructor
  · rintro distinct before x after rfl there
    exact (List.nodup_append.1 distinct).2.2 x there x List.mem_cons_self rfl
  · intro fresh
    induction xs with
    | nil => exact List.nodup_nil
    | cons x xs ih =>
      apply List.nodup_cons.2
      constructor
      · intro again
        obtain ⟨before, after, rfl⟩ := List.append_of_mem again
        exact fresh (x :: before) x after rfl List.mem_cons_self
      · apply ih
        rintro before y after rfl there
        exact fresh (x :: before) y after rfl (List.mem_cons_of_mem x there)

/-- The states of an image are in order if their addresses are below the end and their names
differ. -/
lemma states_formed_iff {entries : List (String × Nat)}
    (reads : ∀ e ∈ entries, i.strings.Reads (index e.1) e.1)
    (table : i.states = entries.map fun e => ⟨index e.1, e.2⟩) :
    (∀ earlier s later, i.states = earlier ++ s :: later → ∃ name, i.strings.Reads s.name name ∧
        s.address < i.words.size ∧ ∀ s' ∈ earlier, ¬ i.strings.Reads s'.name name) ↔
      (∀ e ∈ entries, e.2 < i.words.size) ∧ (entries.map (·.1)).Nodup := by
  rw [nodup_iff_split]
  constructor
  · intro formed
    -- what is known of the state that stands at a given entry
    have formed' : ∀ {first e last}, entries = first ++ e :: last → e.2 < i.words.size ∧
        e.1 ∉ first.map (·.1) := by
      intro first e last split
      have own := reads e (split ▸ List.mem_append_right _ List.mem_cons_self)
      rw [split, List.map_append, List.map_cons] at table
      obtain ⟨name, reads', within, fresh⟩ := formed _ _ _ table
      obtain rfl := own.unique reads'
      refine ⟨within, fun there => ?_⟩
      obtain ⟨e', earlier, same⟩ := List.mem_map.1 there
      apply fresh _ (List.mem_map_of_mem earlier)
      exact same ▸ reads e' (split ▸ List.mem_append_left _ earlier)
    refine ⟨fun e listed => ?_, fun before name after split => ?_⟩
    · obtain ⟨first, last, split⟩ := List.append_of_mem listed
      exact (formed' split).1
    · obtain ⟨first, tail, whole, rfl, rest⟩ := List.map_eq_append_iff.1 split
      obtain ⟨e, last, rfl, rfl, -⟩ := List.map_eq_cons_iff.1 rest
      exact (formed' whole).2
  · rintro ⟨within, fresh⟩ earlier s later split
    rw [table] at split
    obtain ⟨first, tail, rfl, rfl, rest⟩ := List.map_eq_append_iff.1 split
    obtain ⟨e, last, rfl, rfl, -⟩ := List.map_eq_cons_iff.1 rest
    have listed : e ∈ first ++ e :: last := List.mem_append_right _ List.mem_cons_self
    refine ⟨e.1, reads e listed, within e listed, fun s' there same => ?_⟩
    obtain ⟨e', earlier, rfl⟩ := List.mem_map.1 there
    have name := (reads e' (List.mem_append_left _ earlier)).unique same
    apply fresh (first.map (·.1)) e.1 (last.map (·.1))
    · rw [List.map_append, List.map_cons]
    · exact name ▸ List.mem_map_of_mem earlier

/-- The variables of an image are in order if their types are known. -/
lemma variables_formed_iff {declared declarations}
    (reads : ∀ v ∈ declared, i.strings.Reads (index v.1) v.1 ∧ i.strings.Reads (index v.2) v.2)
    (table : declarations = Stmt.variableTable index declared) :
    (∀ v ∈ declarations, ∃ name type, i.strings.Reads v.name name ∧ i.strings.Reads v.type type ∧
        type ∈ ["int", "real", "string", "array", "fiber", "any"]) ↔
      ∀ v ∈ declared, v.2 ∈ ["int", "real", "string", "array", "fiber", "any"] := by
  rw [table, Stmt.variableTable, List.forall_mem_map]
  apply forall₂_congr
  intro v listed
  obtain ⟨name, type⟩ := reads v listed
  constructor
  · rintro ⟨name', type', -, reads', known⟩
    exact type.unique reads' ▸ known
  · intro known
    exact ⟨v.1, v.2, name, type, known⟩

/-- The entry of a state has the address of its statement. -/
lemma mem_stateEntries {e} : e ∈ Stmt.stateEntries program ↔
    ∃ before after, program = before ++ .state e.1 :: after ∧ e.2 = Stmt.codeSize before := by
  rw [Stmt.stateEntries, List.mem_filterMap]
  constructor
  · rintro ⟨⟨before, s⟩, stands, found⟩
    obtain ⟨_, after, split, rfl⟩ := Stmt.mem_inContext.1 stands
    obtain ⟨name, starts, rfl⟩ := Option.map_eq_some_iff.1 found
    cases s with
    | state =>
      cases starts
      exact ⟨_, after, split, rfl⟩
    | _ => cases starts
  · rintro ⟨before, after, rfl, address⟩
    refine ⟨(before, .state e.1), Stmt.mem_inContext.2 ⟨before, after, rfl, rfl⟩, ?_⟩
    exact congrArg some (Prod.ext rfl address.symm)

/-- The types of the variables are those that the statements declare. -/
lemma forall_types_iff {p : String → Prop} : (∀ s ∈ program, ∀ type ∈ s.type?, p type) ↔
    (∀ v ∈ program.filterMap Stmt.local?, p v.2) ∧ ∀ v ∈ program.filterMap Stmt.shared?, p v.2 := by
  have each : ∀ s : Stmt, (∀ type, s.type? = some type → p type) ↔
      (∀ v, s.local? = some v → p v.2) ∧ ∀ v, s.shared? = some v → p v.2 := by
    intro s
    cases s <;> simp [Stmt.type?]
  simp only [Option.mem_def, each, List.forall_mem_filterMap]
  exact forall₂_and

/-! ## The whole program -/

namespace Layout

variable (layout : Layout program i target)

include layout

/-- The labels that are jumped to are within the program. -/
lemma target_le (listed : s ∈ program) {label} (jumps : label ∈ s.target?) :
    target label ≤ Stmt.codeSize program := by
  obtain ⟨before, after, rfl⟩ := List.append_of_mem (layout.bound s listed label jumps)
  rw [layout.target before label after rfl, Stmt.codeSize_append]
  exact Nat.le_add_right _ _

lemma decodes (regular : ∀ s ∈ program, s.Regular) :
    Decodes 0 i.words.toList (Stmt.listing i.strings.index target [] program) := by
  have whole : Decodes (Stmt.codeSize []) _ (Stmt.listing _ target [] program) :=
    decodes_listing regular layout.fits
  rwa [layout.words]

/-- Code is in order exactly if labels are inside of it. -/
lemma code_iff (regular : ∀ s ∈ program, s.Regular) (addressable : i.words.size < UInt64.size) :
    (∃ instructions, Decodes 0 i.words.toList instructions ∧ OperandsInOrder i instructions) ↔
      ∀ s ∈ program, ∀ label ∈ s.target?, target label < Stmt.codeSize program := by
  have decodes := layout.decodes regular
  rw [layout.size] at addressable
  rw [← layout.size, ← operandsInOrder_listing regular layout.fits fun s listed label jumps =>
    Nat.lt_of_le_of_lt (layout.target_le listed jumps) addressable]
  constructor
  · rintro ⟨instructions, decodes', order⟩
    have same := decodes'.decode_eq.symm.trans decodes.decode_eq
    exact (Prod.mk.inj same).1 ▸ order
  · intro order
    exact ⟨_, decodes, order⟩

/-- States are in order exactly if they have code and names of their own. -/
lemma states_iff :
    (∀ earlier s later, i.states = earlier ++ s :: later → ∃ name, i.strings.Reads s.name name ∧
        s.address < i.words.size ∧ ∀ s' ∈ earlier, ¬ i.strings.Reads s'.name name) ↔
      (∀ before name after, program = before ++ .state name :: after →
          Stmt.codeSize before < Stmt.codeSize program) ∧
        (program.filterMap Stmt.stateName?).Nodup := by
  have reads : ∀ e ∈ Stmt.stateEntries program, i.strings.Reads (i.strings.index e.1) e.1 := by
    intro e listed
    obtain ⟨before, after, rfl, -⟩ := mem_stateEntries.1 listed
    exact (layout.reads (List.mem_append_right _ List.mem_cons_self) (List.mem_singleton.2 rfl)).2
  rw [states_formed_iff reads layout.states, Stmt.map_fst_stateEntries, layout.size]
  apply and_congr_left
  intro _
  constructor
  · intro within before name after split
    exact within (name, _) (mem_stateEntries.2 ⟨before, after, split, rfl⟩)
  · intro within e listed
    obtain ⟨before, after, split, address⟩ := mem_stateEntries.1 listed
    exact address ▸ within before e.1 after split

/-- Variables are in order exactly if their types are known. -/
lemma declared_iff :
    (∀ v ∈ i.locals ++ i.shared, ∃ name type, i.strings.Reads v.name name ∧
      i.strings.Reads v.type type ∧
        type ∈ ["int", "real", "string", "array", "fiber", "any"]) ↔
      ∀ s ∈ program, ∀ type ∈ s.type?,
        type ∈ ["int", "real", "string", "array", "fiber", "any"] := by
  have reads : ∀ s ∈ program, ∀ v : String × String, s.texts = [v.1, v.2] →
      i.strings.Reads (i.strings.index v.1) v.1 ∧ i.strings.Reads (i.strings.index v.2) v.2 := by
    intro s listed v texts
    refine ⟨(layout.reads listed ?_).2, (layout.reads listed ?_).2⟩
    · rw [texts]
      exact List.mem_cons_self
    · rw [texts]
      exact List.mem_cons_of_mem _ List.mem_cons_self
  rw [List.forall_mem_append, forall_types_iff]
  apply and_congr
  · apply variables_formed_iff _ layout.locals
    intro v listed
    obtain ⟨s, listed, declares⟩ := List.mem_filterMap.1 listed
    apply reads s listed v
    cases s with
    | declareLocal =>
      cases declares
      rfl
    | _ => cases declares
  · apply variables_formed_iff _ layout.shared
    intro v listed
    obtain ⟨s, listed, declares⟩ := List.mem_filterMap.1 listed
    apply reads s listed v
    cases s with
    | declareShared =>
      cases declares
      rfl
    | _ => cases declares

end Layout

/-- A program that is assembled can be decoded again. -/
theorem assemble_correct (assembled : assemble name program = .ok (i, notes))
    (regular : ∀ s ∈ program, s.Regular) (addressable : i.words.size < UInt64.size) :
    ∃ index target : String → Nat,
      decode 0 i.words.toList = (Stmt.listing index target [] program, none) ∧
        notes = Stmt.answers index program ∧
        (∀ s ∈ program, ∀ label ∈ s.target?, .label label ∈ program) ∧
        (∀ before label after, program = before ++ .label label :: after →
          target label = Stmt.codeSize before) ∧
        (∀ s ∈ program, ∀ text ∈ s.texts, i.string? (index text) = some text) ∧
        (i.defect? = none ↔
          (∀ s ∈ program, ∀ label ∈ s.target?, target label < Stmt.codeSize program) ∧
            (∀ before name after, program = before ++ .state name :: after →
              Stmt.codeSize before < Stmt.codeSize program) ∧
            (program.filterMap Stmt.stateName?).Nodup ∧
            ∀ s ∈ program, ∀ type ∈ s.type?,
              type ∈ ["int", "real", "string", "array", "fiber", "any"]) := by
  obtain ⟨answers, target, layout⟩ := exists_layout assembled
  refine ⟨i.strings.index, target, (layout.decodes regular).decode_eq, answers, layout.bound,
    layout.target, fun s listed text used => ?_, ?_⟩
  · exact Strings.get?_eq_some_iff.2 (layout.reads listed used).2
  · rw [wellFormed_iff, ← layout.code_iff regular addressable, ← layout.declared_iff]
    have states := layout.states_iff
    constructor
    · intro formed
      obtain ⟨within, distinct⟩ := states.1 formed.states
      exact ⟨formed.code, within, distinct, formed.declared⟩
    · rintro ⟨code, within, distinct, declared⟩
      exact ⟨code, states.2 ⟨within, distinct⟩, declared⟩

/-- Prints until a variable is positive. -/
private def countdown : List Stmt :=
  [.declareLocal "n" "int", .state "count", .address, .label "again"] ++ Stmt.named .getSelf "n" ++
    [.branch .ifPositive "done"] ++ Stmt.callWith "print" (.int 7 :: Stmt.params [.text "n"]) ++
    [.op .getFrame 2, .jump .goto "again", .label "done", .address, .plain .endState]

private def counter : Image where
  name := "counter"
  words := #[4, 7, 23, 33, 16, 14, 2, 7, 14, 4, 15, 15, 196624, 131085, 33, 0, 37]
  states := [⟨2, 0⟩]
  locals := [⟨0, 1⟩]
  shared := []
  strings := ⟨#[110, 0, 105, 110, 116, 0, 99, 111, 117, 110, 116, 0, 112, 114, 105, 110, 116, 0],
    #[0, 2, 6, 12]⟩

/-- A program that counts down. -/
theorem assemble_countdown :
    assemble "counter" countdown = .ok (counter, [0, 0, 0, 16]) ∧ (∀ s ∈ countdown, s.Regular) ∧
      counter.words.size < UInt64.size ∧
      ∃ index target : String →
        Nat, decode 0 counter.words.toList = (Stmt.listing index target [] countdown, none) ∧
        target "again" = 0 ∧ target "done" = 16 ∧
          counter.string? (index "print") = some "print" := by
  have assembled : assemble "counter" countdown = .ok (counter, [0, 0, 0, 16]) := by decide +kernel
  have regular : ∀ s ∈ countdown, s.Regular := by decide
  have small : counter.words.size < UInt64.size := by decide
  obtain ⟨index, target, decoded, -, -, places, texts, -⟩ :=
    assemble_correct assembled regular small
  refine ⟨assembled, regular, small, index, target, decoded, ?_, ?_, ?_⟩
  · exact places (countdown.take 3) "again" _ rfl
  · exact places (countdown.take 16) "done" _ rfl
  · exact texts (.string .call "print") (by decide) "print" (by decide)

end FiberVM
