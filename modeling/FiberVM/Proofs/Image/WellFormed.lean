import FiberVM.Proofs.Image.Boundary
import FiberVM.Proofs.Image.Strings

/-!
# Well-formed images

An image is well formed if its words are complete instructions one after the other whose operands
make sense, and if its states and variables have names, addresses and types (`Image.WellFormed`).
Checking an image decides this (`Image.defect?_decides`). If it finds a defect, then it is that of
the first instruction that has one, else of the first state, else of the first variable
(`Image.FirstDefect`).
-/

namespace FiberVM

/-- The operands of an instruction make sense in an image, where the instructions that come after it
are given. -/
structure Instruction.InOrder (i : Image) (ins : Instruction) (after : List Instruction) :
    Prop where
  /-- A string index has 32 bits, and a string can be read there. -/
  string : ins.op ∈ [.pushString, .call, .callDynamic] →
    ins.inline < Word.indexCount ∧ ∃ s, i.strings.Reads ins.inline s
  address : ins.op ∈ [.goto, .forEach, .on] → ∃ w, ins.operand = some w ∧ w.toNat < i.words.size
  /-- A test stands right before a jump. -/
  test : ins.op ∈ [.ifEqual, .ifZero, .ifNonzero, .ifNegative, .ifPositive, .ifAtMostZero,
    .ifAtLeastZero] → ∃ next rest, after = next :: rest ∧ next.op = .goto

namespace Image

variable {i : Image} {d : Defect} {pc : Nat} {ins : Instruction}
  {instructions before after : List Instruction} {words rest : List Word} {s : StateEntry}
  {earlier : List StateEntry} {v : Variable}

/-- An image that can be run. -/
structure WellFormed (i : Image) : Prop where
  code : ∃ instructions, Decodes 0 i.words.toList instructions ∧
    ∀ before ins after, instructions = before ++ ins :: after → ins.InOrder i after
  states : ∀ earlier s later, i.states = earlier ++ s :: later →
    ∃ name, i.strings.Reads s.name name ∧
    s.address < i.words.size ∧ ∀ s' ∈ earlier, ¬ i.strings.Reads s'.name name
  declared : ∀ v ∈ i.locals ++ i.shared, ∃ name type, i.strings.Reads v.name name ∧
    i.strings.Reads v.type type ∧ type ∈ ["int", "real", "string", "array", "fiber", "any"]

/-! ## Defects -/

/-- What is wrong at an address where an instruction is expected. -/
inductive CodeDefect (i : Image) (pc : Nat) : Defect → Prop
  | unknown {w} (word : i.words[pc]? = some w) (code : w.opcode? = none) :
    CodeDefect i pc (.invalidOpcode pc w.code)
  | incomplete {w op} (word : i.words[pc]? = some w) (code : w.opcode? = some op)
      (takes : op.operands ≠ 0) (missing : i.words[pc + 1]? = none) :
    CodeDefect i pc (.truncatedInstruction pc op)
  /-- An index that has more than 32 bits is reported as the largest one that has not. -/
  | largeIndex {w op} (word : i.words[pc]? = some w) (code : w.opcode? = some op)
      (takes : op ∈ [.pushString, .call, .callDynamic]) (large : Word.indexCount ≤ w.inline) :
    CodeDefect i pc (.invalidString (Word.indexCount - 1))
  | unreadable {w op} (word : i.words[pc]? = some w) (code : w.opcode? = some op)
      (takes : op ∈ [.pushString, .call, .callDynamic]) (small : w.inline < Word.indexCount)
      (unreadable : ∀ s, ¬ i.strings.Reads w.inline s) :
    CodeDefect i pc (.invalidString w.inline)
  | address {w target op} (word : i.words[pc]? = some w) (code : w.opcode? = some op)
      (takes : op ∈ [.goto, .forEach, .on]) (operand : i.words[pc + 1]? = some target)
      (past : i.words.size ≤ target.toNat) :
    CodeDefect i pc (.addressOutOfRange pc target.toNat)
  /-- A test that does not stand before a jump is reported as incomplete. -/
  | lone {w op} (word : i.words[pc]? = some w) (code : w.opcode? = some op)
      (test : op ∈ [.ifEqual, .ifZero, .ifNonzero, .ifNegative, .ifPositive, .ifAtMostZero,
        .ifAtLeastZero])
      (other : (i.words[pc + 1]?).bind Word.opcode? ≠ some .goto) :
    CodeDefect i pc (.truncatedInstruction pc op)

/-- What is wrong with a state, where the states before it are given. -/
inductive StateDefect (i : Image) (earlier : List StateEntry) (s : StateEntry) : Defect → Prop
  | unreadable (unreadable : ∀ name, ¬ i.strings.Reads s.name name) :
      StateDefect i earlier s (.invalidString s.name)
  | address {name} (reads : i.strings.Reads s.name name) (past : i.words.size ≤ s.address) :
    StateDefect i earlier s (.stateOutOfRange name s.address)
  | duplicate {name} (reads : i.strings.Reads s.name name) (within : s.address < i.words.size) {s'}
      (there : s' ∈ earlier) (same : i.strings.Reads s'.name name) :
    StateDefect i earlier s (.duplicateState name)

/-- What is wrong with a variable. -/
inductive VariableDefect (i : Image) (v : Variable) : Defect → Prop
  | name (unreadable : ∀ name, ¬ i.strings.Reads v.name name) :
      VariableDefect i v (.invalidString v.name)
  | type {name} (reads : i.strings.Reads v.name name)
      (unreadable : ∀ type, ¬ i.strings.Reads v.type type) :
    VariableDefect i v (.invalidString v.type)
  | unknown {name type} (reads : i.strings.Reads v.name name) (reads' : i.strings.Reads v.type type)
      (unknown : type ∉ ["int", "real", "string", "array", "fiber", "any"]) :
    VariableDefect i v (.unknownType name type)

/-- None of the given instructions has a defect. -/
def InstructionsSound (i : Image) (instructions : List Instruction) : Prop :=
  ∀ ins ∈ instructions, ∀ d, ¬ i.CodeDefect ins.address d

/-- All words are instructions without a defect. -/
def CodeSound (i : Image) : Prop :=
  ∃ instructions, Decodes 0 i.words.toList instructions ∧ i.InstructionsSound instructions

/-- Words from an address on are instructions without a defect up to an address where one is
expected and the given thing is wrong. -/
def Breaks (i : Image) (pc : Nat) (words : List Word) (d : Defect) : Prop :=
  ∃ good bad before, words = good ++ bad ∧ Decodes pc good before ∧ i.InstructionsSound before ∧
    i.CodeDefect (pc + good.length) d

/-- None of the given states has a defect. -/
def StatesSound (i : Image) (states : List StateEntry) : Prop :=
  ∀ earlier s later, states = earlier ++ s :: later → ∀ d, ¬ i.StateDefect earlier s d

/-- The defect of the first instruction that has one, else of the first state, else of the first
variable, where those of the instances come first. -/
inductive FirstDefect (i : Image) (d : Defect) : Prop
  | instruction (breaks : i.Breaks 0 i.words.toList d)
  | state {earlier later : List StateEntry} {s : StateEntry} (code : i.CodeSound)
      (split : i.states = earlier ++ s :: later) (sound : i.StatesSound earlier)
        (defect : i.StateDefect earlier s d)
  | variable {earlier later : List Variable} {v : Variable} (code : i.CodeSound)
      (states : i.StatesSound i.states) (split : i.locals ++ i.shared = earlier ++ v :: later)
      (sound : ∀ v' ∈ earlier, ∀ d', ¬ i.VariableDefect v' d') (defect : i.VariableDefect v d)

/-! ## Operands -/

lemma takesString_iff {op : Opcode} :
    op.takesString = true ↔ op ∈ [.pushString, .call, .callDynamic] := by
  cases op <;> decide

lemma takesAddress_iff {op : Opcode} : op.takesAddress = true ↔ op ∈ [.goto, .forEach, .on] := by
  cases op <;> decide

lemma isConditional_iff {op : Opcode} : op.isConditional = true ↔
    op ∈ [.ifEqual, .ifZero, .ifNonzero, .ifNegative, .ifPositive, .ifAtMostZero,
      .ifAtLeastZero] := by
  cases op <;> decide

lemma operands_eq_zero {op : Opcode} (other : op.takesString ∨ op.isConditional) :
    op.operands = 0 := by
  cases op <;> first | rfl | simp [Opcode.takesString, Opcode.isConditional] at other

lemma operands_of_takesAddress {op : Opcode} (takes : op.takesAddress) : op.operands ≠ 0 := by
  cases op <;> first | exact Nat.one_ne_zero | cases takes

/-- An operation has at most one kind of operand that is looked at. -/
lemma takes_only {op : Opcode} :
    (op.takesAddress → ¬ op.takesString) ∧
      (op.isConditional → ¬ op.takesString ∧ ¬ op.takesAddress) := by
  cases op <;> decide

/-- An instruction stands in an image, with its operand word. -/
structure Placed (i : Image) (ins : Instruction) : Prop where
  word : ∃ w, i.words[ins.address]? = some w ∧ w.opcode? = some ins.op ∧ w.inline = ins.inline
  operand : ins.op.operands ≠ 0 → ∃ w, i.words[ins.address + 1]? = some w ∧ ins.operand = some w

lemma Placed.operand_eq (placed : i.Placed ins) {target} (takes : ins.op.takesAddress)
    (there : i.words[ins.address + 1]? = some target) : ins.operand = some target := by
  obtain ⟨w, found, own⟩ := placed.operand (operands_of_takesAddress takes)
  rw [own, ← found, there]

/-- What is reported about an instruction is wrong with it. -/
lemma codeDefect_of_instructionDefect? (placed : i.Placed ins)
    (found : i.instructionDefect? ins = some d) :
    i.CodeDefect ins.address d := by
  obtain ⟨w, word, code, inline⟩ := placed.word
  rw [instructionDefect?] at found
  split at found
  case isTrue large =>
    cases found
    exact .largeIndex word code (takesString_iff.1 large.1) (inline ▸ large.2)
  split at found
  case isTrue small unreadable =>
    cases found
    have takes := unreadable.1
    have none := Strings.get?_eq_none_iff.1 (Option.isNone_iff_eq_none.1 unreadable.2)
    rw [← inline] at none small ⊢
    apply CodeDefect.unreadable word code (takesString_iff.1 takes) _ none
    exact Nat.lt_of_not_le fun large => small ⟨takes, large⟩
  split at found
  case isTrue past =>
    cases found
    obtain ⟨target, operand, own⟩ := placed.operand (operands_of_takesAddress past.1)
    rw [own] at past ⊢
    exact .address word code (takesAddress_iff.1 past.1) operand past.2
  split at found
  case isTrue lone =>
    cases found
    exact .lone word code (isConditional_iff.1 lone.1) lone.2
  case isFalse => cases found

/-- What is wrong with a complete instruction is reported. -/
lemma instructionDefect?_of_codeDefect (placed : i.Placed ins)
    (defect : i.CodeDefect ins.address d) :
    i.instructionDefect? ins = some d := by
  obtain ⟨w, word, code, inline⟩ := placed.word
  -- The word at the address is the one that the defect is about.
  have only : ∀ {w' op'}, i.words[ins.address]? = some w' → w'.opcode? = some op' →
      w'.inline = ins.inline ∧ op' = ins.op := by
    intro w' op' word' code'
    obtain rfl := Option.some.inj (word'.symm.trans word)
    exact ⟨inline, Option.some.inj (code'.symm.trans code)⟩
  rw [instructionDefect?]
  cases defect with
  | unknown word' code' =>
    obtain rfl := Option.some.inj (word'.symm.trans word)
    rw [code] at code'
    cases code'
  | incomplete word' code' takes missing =>
    obtain ⟨-, rfl⟩ := only word' code'
    obtain ⟨v, there, -⟩ := placed.operand takes
    rw [missing] at there
    cases there
  | largeIndex word' code' takes large =>
    obtain ⟨same, rfl⟩ := only word' code'
    rw [if_pos ⟨takesString_iff.2 takes, same ▸ large⟩]
  | unreadable word' code' takes small unreadable =>
    obtain ⟨same, rfl⟩ := only word' code'
    have none : i.string? ins.inline = none := Strings.get?_eq_none_iff.2 (same ▸ unreadable)
    rw [if_neg fun large => absurd (same ▸ small) (Nat.not_lt.2 large.2),
      if_pos ⟨takesString_iff.2 takes, Option.isNone_iff_eq_none.2 none⟩, same]
  | address word' code' takes operand past =>
    obtain ⟨-, rfl⟩ := only word' code'
    have jumps := takesAddress_iff.2 takes
    have bare := takes_only.1 jumps
    rw [placed.operand_eq jumps operand, if_neg fun h => bare h.1, if_neg fun h => bare h.1]
    exact if_pos ⟨jumps, past⟩
  | lone word' code' test other =>
    obtain ⟨-, rfl⟩ := only word' code'
    have tests := isConditional_iff.2 test
    have bare := takes_only.2 tests
    rw [if_neg fun h => bare.1 h.1, if_neg fun h => bare.1 h.1, if_neg fun h => bare.2 h.1,
      if_pos ⟨tests, other⟩]

lemma instructionDefect?_eq_none_iff (placed : i.Placed ins) :
    i.instructionDefect? ins = none ↔ ∀ d, ¬ i.CodeDefect ins.address d := by
  rw [Option.eq_none_iff_forall_ne_some]
  constructor
  · intro fine d defect
    exact fine d (instructionDefect?_of_codeDefect placed defect)
  · intro sound d found
    exact sound d (codeDefect_of_instructionDefect? placed found)

/-! ## The walk over the words -/

/-- The first defect of the instructions from an address on. -/
def walk (i : Image) (pc : Nat) (rest : List Word) : Option Defect :=
  (decode pc rest).1.findSome? i.instructionDefect? <|> (decode pc rest).2

/-- The words from an address on are the given ones. -/
def Left (i : Image) (pc : Nat) (rest : List Word) : Prop := i.words.toList.drop pc = rest

lemma Left.getElem? (left : i.Left pc rest) (k : Nat) : i.words[pc + k]? = rest[k]? := by
  rw [← Array.getElem?_toList, ← left, List.getElem?_drop]

lemma Left.tail {w} (left : i.Left pc (w :: rest)) : i.Left (pc + 1) rest := by
  rw [Left, ← List.drop_drop, left]
  exact List.drop_one

lemma Left.placed_bare {w op} (left : i.Left pc (w :: rest)) (code : w.opcode? = some op)
    (bare : op.operands = 0) : i.Placed ⟨pc, op, w.inline, none⟩ :=
  ⟨⟨w, left.getElem? 0, code, rfl⟩, fun takes => absurd bare takes⟩

lemma Left.placed_wide {w v op} (left : i.Left pc (w :: v :: rest)) (code : w.opcode? = some op) :
    i.Placed ⟨pc, op, w.inline, some v⟩ :=
  ⟨⟨w, left.getElem? 0, code, rfl⟩, fun _ => ⟨v, left.getElem? 1, rfl⟩⟩

lemma walk_bare {w : Word} {op} (code : w.opcode? = some op) (bare : op.operands = 0) :
    i.walk pc (w :: rest) = (i.instructionDefect? ⟨pc, op, w.inline, none⟩).or
      (i.walk (pc + 1) rest) := by
  simp only [walk, decode, code, if_pos bare, List.findSome?_cons]
  cases i.instructionDefect? ⟨pc, op, w.inline, none⟩ <;> rfl

lemma walk_wide {w : Word} {v op} (code : w.opcode? = some op) (takes : op.operands ≠ 0) :
    i.walk pc (w :: v :: rest) = (i.instructionDefect? ⟨pc, op, w.inline, some v⟩).or
      (i.walk (pc + 2) rest) := by
  simp only [walk, decode, code, if_neg takes, List.findSome?_cons]
  cases i.instructionDefect? ⟨pc, op, w.inline, some v⟩ <;> rfl

/-- The walk goes past instructions that have no defect. -/
lemma walk_append (decodes : Decodes pc words before) (left : i.Left pc (words ++ rest))
    (sound : i.InstructionsSound before) :
    i.walk pc (words ++ rest) = i.walk (pc + words.length) rest := by
  induction decodes with
  | nil => rfl
  | @bare pc w op words before code bare later ih =>
    have fine := (instructionDefect?_eq_none_iff (left.placed_bare code bare)).2
      (sound _ List.mem_cons_self)
    have onward := ih left.tail fun ins listed => sound ins (List.mem_cons_of_mem _ listed)
    rw [List.cons_append, walk_bare code bare, fine, Option.none_or, onward, List.length_cons,
      Nat.add_assoc, Nat.add_comm 1]
  | @wide pc w v op words before code takes later ih =>
    have fine := (instructionDefect?_eq_none_iff (left.placed_wide code)).2
      (sound _ List.mem_cons_self)
    have onward := ih left.tail.tail fun ins listed => sound ins (List.mem_cons_of_mem _ listed)
    rw [List.cons_append, List.cons_append, walk_wide code takes, fine, Option.none_or, onward,
      List.length_cons, List.length_cons, Nat.add_assoc, Nat.add_comm 2]

/-- All that can be wrong with a word that is no instruction. -/
lemma CodeDefect.eq_invalidOpcode {w} (word : i.words[pc]? = some w) (unknown : w.opcode? = none)
    (defect : i.CodeDefect pc d) : d = .invalidOpcode pc w.code := by
  cases defect with
  | unknown word' => rw [Option.some.inj (word'.symm.trans word)]
  | incomplete word' code | largeIndex word' code | unreadable word' code | address word' code
  | lone word' code =>
    rw [Option.some.inj (word'.symm.trans word), unknown] at code
    cases code

/-- All that can be wrong with an instruction that lacks its operand word. -/
lemma CodeDefect.eq_truncatedInstruction {w op} (word : i.words[pc]? = some w)
    (known : w.opcode? = some op) (takes : op.operands ≠ 0) (missing : i.words[pc + 1]? = none)
    (defect : i.CodeDefect pc d) : d = .truncatedInstruction pc op := by
  cases defect with
  | unknown word' code =>
    rw [Option.some.inj (word'.symm.trans word), known] at code
    cases code
  | incomplete word' code | lone word' code =>
    rw [Option.some.inj (word'.symm.trans word), known] at code
    rw [Option.some.inj code]
  | largeIndex word' code string | unreadable word' code string =>
    rw [Option.some.inj (word'.symm.trans word), known] at code
    rw [Option.some.inj code] at takes
    exact absurd (operands_eq_zero (.inl (takesString_iff.2 string))) takes
  | address word' code jumps operand =>
    rw [missing] at operand
    cases operand

/-- The walk stops at a defect. -/
lemma walk_of_codeDefect (left : i.Left pc rest) (defect : i.CodeDefect pc d) :
    i.walk pc rest = some d := by
  have here := left.getElem? 0
  cases rest with
  | nil => cases defect <;> simp_all
  | cons w rest =>
    cases code : w.opcode? with
    | none =>
      rw [defect.eq_invalidOpcode here code]
      simp only [walk, decode, code]
      rfl
    | some op =>
      by_cases bare : op.operands = 0
      · rw [walk_bare code bare,
          instructionDefect?_of_codeDefect (left.placed_bare code bare) defect]
        rfl
      · cases rest with
        | nil =>
          rw [defect.eq_truncatedInstruction here code bare (left.getElem? 1)]
          simp only [walk, decode, code, if_neg bare]
          rfl
        | cons v rest =>
          rw [walk_wide code bare, instructionDefect?_of_codeDefect (left.placed_wide code) defect]
          rfl

lemma InstructionsSound.cons (head : ∀ d, ¬ i.CodeDefect ins.address d)
    (tail : i.InstructionsSound instructions) :
    i.InstructionsSound (ins :: instructions) := by
  intro first listed
  rcases List.mem_cons.1 listed with rfl | listed
  · exact head
  · exact tail first listed

lemma Breaks.here (defect : i.CodeDefect pc d) : i.Breaks pc words d :=
  ⟨[], words, [], rfl, .nil, fun _ listed => absurd listed List.not_mem_nil, defect⟩

lemma Breaks.bare {w : Word} {op} (code : w.opcode? = some op) (bare : op.operands = 0)
    (sound : ∀ d, ¬ i.CodeDefect pc d) (later : i.Breaks (pc + 1) rest d) :
    i.Breaks pc (w :: rest) d := by
  obtain ⟨good, bad, before, rfl, decodes, fine, defect⟩ := later
  refine ⟨w :: good, bad, _, rfl, .bare code bare decodes, fine.cons sound, ?_⟩
  rwa [List.length_cons, Nat.add_comm good.length, ← Nat.add_assoc]

lemma Breaks.wide {w : Word} {v op} (code : w.opcode? = some op) (takes : op.operands ≠ 0)
    (sound : ∀ d, ¬ i.CodeDefect pc d) (later : i.Breaks (pc + 2) rest d) :
    i.Breaks pc (w :: v :: rest) d := by
  obtain ⟨good, bad, before, rfl, decodes, fine, defect⟩ := later
  refine ⟨w :: v :: good, bad, _, rfl, .wide code takes decodes, fine.cons sound, ?_⟩
  rwa [List.length_cons, List.length_cons, Nat.add_assoc, Nat.add_comm good.length, ← Nat.add_assoc]

/-- Either all words are instructions without a defect, or there is a first defect. -/
lemma breaks_or_sound (left : i.Left pc rest) :
    (∃ d, i.Breaks pc rest d) ∨ ∃ instructions, Decodes pc rest instructions ∧
      i.InstructionsSound instructions := by
  fun_induction decode pc rest with
  | case1 => exact .inr ⟨[], .nil, fun _ listed => absurd listed List.not_mem_nil⟩
  | case2 pc w rest unknown => exact .inl ⟨_, .here (.unknown (left.getElem? 0) unknown)⟩
  | case3 pc w rest op code bare instructions stop decoded ih =>
    by_cases sound : ∀ d, ¬ i.CodeDefect pc d
    · rcases ih left.tail with ⟨d, breaks⟩ | ⟨instructions, decodes, fine⟩
      · exact .inl ⟨d, breaks.bare code bare sound⟩
      · exact .inr ⟨_, .bare code bare decodes, fine.cons sound⟩
    · exact .inl ((not_forall_not.1 sound).imp fun d defect => .here defect)
  | case4 pc w op code takes =>
    exact .inl ⟨_, .here (.incomplete (left.getElem? 0) code takes (left.getElem? 1))⟩
  | case5 pc w op code takes v rest instructions stop decoded ih =>
    by_cases sound : ∀ d, ¬ i.CodeDefect pc d
    · rcases ih left.tail.tail with ⟨d, breaks⟩ | ⟨instructions, decodes, fine⟩
      · exact .inl ⟨d, breaks.wide code takes sound⟩
      · exact .inr ⟨_, .wide code takes decodes, fine.cons sound⟩
    · exact .inl ((not_forall_not.1 sound).imp fun d defect => .here defect)

lemma walk_of_breaks (breaks : i.Breaks 0 i.words.toList d) : i.walk 0 i.words.toList = some d := by
  obtain ⟨good, bad, before, split, decodes, sound, defect⟩ := breaks
  have left : i.Left 0 (good ++ bad) := split
  have after : i.Left (0 + good.length) bad := by rw [Left, split, Nat.zero_add, List.drop_left]
  rw [split, walk_append decodes left sound, walk_of_codeDefect after defect]

lemma walk_of_codeSound (sound : i.CodeSound) : i.walk 0 i.words.toList = none := by
  obtain ⟨instructions, decodes, sound⟩ := sound
  have whole : i.walk 0 (i.words.toList ++ []) = _ :=
    walk_append decodes (List.append_nil _).symm sound
  rw [List.append_nil] at whole
  exact whole

lemma walk_eq_some_iff : i.walk 0 i.words.toList = some d ↔ i.Breaks 0 i.words.toList d := by
  refine ⟨fun found => ?_, walk_of_breaks⟩
  rcases breaks_or_sound (i := i) rfl with ⟨d', breaks⟩ | sound
  · rw [walk_of_breaks breaks] at found
    exact Option.some.inj found ▸ breaks
  · rw [walk_of_codeSound sound] at found
    cases found

lemma walk_eq_none_iff : i.walk 0 i.words.toList = none ↔ i.CodeSound := by
  refine ⟨fun none => ?_, walk_of_codeSound⟩
  rcases breaks_or_sound (i := i) rfl with ⟨d, breaks⟩ | sound
  · rw [walk_of_breaks breaks] at none
    cases none
  · exact sound

/-! ## States and variables -/

section Position

variable {α β : Type} {f : α → Nat → Option β} {b : β} {xs : List α}

private lemma zipIdx_split {l l' y} (split : xs.zipIdx = l ++ y :: l') :
    ∃ before after, xs = before ++ y.1 :: after ∧ y.2 = before.length ∧ l = before.zipIdx := by
  obtain ⟨before, rest, rfl, positions, tail⟩ := List.zipIdx_eq_append_iff.1 split
  obtain ⟨x, after, rfl, rfl, -⟩ := List.zipIdx_eq_cons_iff.1 tail.symm
  exact ⟨before, after, rfl, Nat.zero_add _, positions⟩

/-- Each element with the number of those before it. -/
private lemma forall_mem_zipIdx {p : α → Nat → Prop} :
    (∀ x ∈ xs.zipIdx, p x.1 x.2) ↔ ∀ before x after, xs = before ++ x :: after →
      p x before.length := by
  constructor
  · intro all before x after split
    apply all (x, before.length)
    rw [List.mem_zipIdx_iff_getElem?, split]
    simp
  · intro all x listed
    obtain ⟨l, l', split⟩ := List.append_of_mem listed
    obtain ⟨before, after, split, position, -⟩ := zipIdx_split split
    exact position ▸ all before x.1 after split

/-- The first element for which something is found, where its position is known too. -/
private lemma findSome?_zipIdx_eq_some_iff :
    xs.zipIdx.findSome? (fun x => f x.1 x.2) = some b ↔
      ∃ before x after, xs = before ++ x :: after ∧
        (∀ before' x' after', before = before' ++ x' :: after' → f x' before'.length = none) ∧
        f x before.length = some b := by
  rw [List.findSome?_eq_some_iff]
  constructor
  · rintro ⟨l, y, l', whole, found, fine⟩
    obtain ⟨before, after, split, position, rfl⟩ := zipIdx_split whole
    refine ⟨before, y.1, after, split, ?_, position ▸ found⟩
    exact (forall_mem_zipIdx (p := fun x k => f x k = none)).1 fine
  · rintro ⟨before, x, after, rfl, fine, found⟩
    refine ⟨before.zipIdx, (x, before.length), after.zipIdx (before.length + 1), ?_, found, ?_⟩
    · rw [List.zipIdx_append, Nat.zero_add]
      rfl
    · exact (forall_mem_zipIdx (p := fun x k => f x k = none)).2 fine

end Position

/-- The state at a position is the first one with its name, unless an earlier one has that name. -/
lemma stateIndex?_ne_iff {later name} (split : i.states = earlier ++ s :: later)
    (reads : i.strings.Reads s.name name) :
    i.stateIndex? name ≠ some earlier.length ↔ ∃ s' ∈ earlier, i.strings.Reads s'.name name := by
  have own : i.string? s.name = some name := Strings.get?_eq_some_iff.2 reads
  rw [stateIndex?, split, List.findIdx?_append, List.findIdx?_cons, if_pos (decide_eq_true own)]
  cases found : earlier.findIdx? fun s => i.string? s.name = some name with
  | none =>
    have fresh := List.findIdx?_eq_none_iff.1 found
    refine ⟨fun other => absurd ?_ other, ?_⟩
    · simp
    · rintro ⟨s', there, same⟩
      exact absurd (Strings.get?_eq_some_iff.2 same) (of_decide_eq_false (fresh s' there))
  | some k =>
    obtain ⟨within, same, -⟩ := List.findIdx?_eq_some_iff_getElem.1 found
    refine ⟨fun _ => ⟨earlier[k], List.getElem_mem within, ?_⟩, fun _ first => ?_⟩
    · exact Strings.get?_eq_some_iff.1 (of_decide_eq_true same)
    · exact absurd (Option.some.inj first) (Nat.ne_of_lt within)

/-- The defect of a state is found. -/
lemma stateDefect?_eq_some_iff {later} (split : i.states = earlier ++ s :: later) :
    i.stateDefect? s earlier.length = some d ↔ i.StateDefect earlier s d := by
  rw [stateDefect?]
  cases read : i.string? s.name with
  | none =>
    have unreadable := Strings.get?_eq_none_iff.1 read
    constructor
    · rintro ⟨⟩
      exact .unreadable unreadable
    · intro defect
      cases defect with
      | unreadable => rfl
      | address reads | duplicate reads => exact absurd reads (unreadable _)
  | some name =>
    have reads := Strings.get?_eq_some_iff.1 read
    dsimp only
    constructor
    · intro found
      split at found
      case isTrue past =>
        cases found
        exact .address reads past
      split at found
      case isTrue within other =>
        cases found
        obtain ⟨s', there, same⟩ := (stateIndex?_ne_iff split reads).1 other
        exact .duplicate reads (Nat.lt_of_not_le within) there same
      case isFalse => cases found
    · intro defect
      cases defect with
      | unreadable unreadable => exact absurd reads (unreadable name)
      | address reads' past =>
        obtain rfl := reads.unique reads'
        rw [if_pos past]
      | duplicate reads' within there same =>
        obtain rfl := reads.unique reads'
        rw [if_neg (Nat.not_le.2 within),
          if_pos ((stateIndex?_ne_iff split reads).2 ⟨_, there, same⟩)]

lemma ofName?_eq_none_iff {type} :
    VariableType.ofName? type = none ↔
      type ∉ ["int", "real", "string", "array", "fiber", "any"] := by
  rw [VariableType.ofName?, List.find?_eq_none,
    show ["int", "real", "string", "array", "fiber", "any"] =
    VariableType.all.map VariableType.name from rfl, List.mem_map]
  simp

/-- The defect of a variable is found. -/
lemma describe_eq_error_iff : i.describe v = .error d ↔ i.VariableDefect v d := by
  rw [describe]
  constructor
  · intro found
    split at found
    next none =>
      cases found
      exact .name (Strings.get?_eq_none_iff.1 none)
    next name reads none =>
      cases found
      exact .type (Strings.get?_eq_some_iff.1 reads) (Strings.get?_eq_none_iff.1 none)
    next name type reads reads' =>
      split at found
      next unknown =>
        cases found
        exact .unknown (Strings.get?_eq_some_iff.1 reads) (Strings.get?_eq_some_iff.1 reads')
          (ofName?_eq_none_iff.1 unknown)
      next => cases found
  · intro defect
    cases defect with
    | name unreadable =>
      rw [string?, Strings.get?_eq_none_iff.2 unreadable]
    | type reads unreadable =>
      rw [string?, string?, Strings.get?_eq_some_iff.2 reads, Strings.get?_eq_none_iff.2 unreadable]
    | unknown reads reads' unknown =>
      rw [string?, string?, Strings.get?_eq_some_iff.2 reads, Strings.get?_eq_some_iff.2 reads']
      dsimp only
      rw [ofName?_eq_none_iff.2 unknown]

lemma variableDefect?_eq_some_iff : i.variableDefect? v = some d ↔ i.VariableDefect v d := by
  rw [← describe_eq_error_iff, variableDefect?]
  cases i.describe v <;> simp

/-! ## The whole check -/

/-- States are sound one after the other. -/
lemma statesSound_iff {states rest} (split : i.states = states ++ rest) :
    i.StatesSound states ↔
      ∀ earlier s later, states = earlier ++ s :: later →
        i.stateDefect? s earlier.length = none := by
  have same : ∀ {earlier s later}, states = earlier ++ s :: later →
      (i.stateDefect? s earlier.length = none ↔ ∀ d, ¬ i.StateDefect earlier s d) := by
    intro earlier s later part
    have whole : i.states = earlier ++ s :: (later ++ rest) := by
      rw [split, part, List.append_assoc, List.cons_append]
    simp only [Option.eq_none_iff_forall_ne_some, ne_eq, stateDefect?_eq_some_iff whole]
  constructor
  · intro sound earlier s later part
    exact (same part).2 (sound earlier s later part)
  · intro fine earlier s later part
    exact (same part).1 (fine earlier s later part)

/-- The states are looked at in their order. -/
lemma states_eq_some_iff : i.states.zipIdx.findSome? (fun x => i.stateDefect? x.1 x.2) = some d ↔
    ∃ earlier s later, i.states = earlier ++ s :: later ∧ i.StatesSound earlier ∧
      i.StateDefect earlier s d := by
  rw [findSome?_zipIdx_eq_some_iff]
  constructor
  · rintro ⟨earlier, s, later, split, fine, found⟩
    exact ⟨earlier, s, later, split, (statesSound_iff split).2 fine,
      (stateDefect?_eq_some_iff split).1 found⟩
  · rintro ⟨earlier, s, later, split, sound, defect⟩
    exact ⟨earlier, s, later, split, (statesSound_iff split).1 sound,
      (stateDefect?_eq_some_iff split).2 defect⟩

lemma states_eq_none_iff : i.states.zipIdx.findSome? (fun x => i.stateDefect? x.1 x.2) = none ↔
    i.StatesSound i.states := by
  rw [List.findSome?_eq_none_iff, forall_mem_zipIdx (p := fun s k => i.stateDefect? s k = none)]
  exact (statesSound_iff (List.append_nil _).symm).symm

lemma variableDefect?_eq_none_iff : i.variableDefect? v = none ↔ ∀ d, ¬ i.VariableDefect v d := by
  simp only [Option.eq_none_iff_forall_ne_some, ne_eq, variableDefect?_eq_some_iff]

/-- The words are looked at before the states, and the states before the variables. -/
lemma defect?_eq : i.defect? = ((i.walk 0 i.words.toList).or
    ((i.states.zipIdx.findSome? fun x => i.stateDefect? x.1 x.2).or
      ((i.locals ++ i.shared).findSome? i.variableDefect?))) := by
  rw [defect?, walk]
  cases decode 0 i.words.toList with
  | mk instructions stop =>
    simp only [Option.orElse_eq_orElse, Option.orElse_eq_or, Option.or_assoc]

/-- The first defect is found. -/
lemma defect?_eq_some_iff : i.defect? = some d ↔ i.FirstDefect d := by
  rw [defect?_eq, Option.or_eq_some_iff, Option.or_eq_some_iff, walk_eq_some_iff, walk_eq_none_iff,
    states_eq_some_iff, states_eq_none_iff, List.findSome?_eq_some_iff]
  simp only [variableDefect?_eq_some_iff, variableDefect?_eq_none_iff]
  constructor
  · rintro (breaks | ⟨code, ⟨earlier, s, later, split, sound, defect⟩ |
      ⟨states, earlier, v, later, split, defect, sound⟩⟩)
    · exact .instruction breaks
    · exact .state code split sound defect
    · exact .variable code states split sound defect
  · rintro (breaks | ⟨code, split, sound, defect⟩ | ⟨code, states, split, sound, defect⟩)
    · exact .inl breaks
    · exact .inr ⟨code, .inl ⟨_, _, _, split, sound, defect⟩⟩
    · exact .inr ⟨code, .inr ⟨states, _, _, _, split, defect, sound⟩⟩

lemma defect?_eq_none_iff : i.defect? = none ↔
    i.CodeSound ∧ i.StatesSound i.states ∧ ∀ v ∈ i.locals ++ i.shared, ∀ d,
      ¬ i.VariableDefect v d := by
  rw [defect?_eq, Option.or_eq_none_iff, Option.or_eq_none_iff, walk_eq_none_iff,
    states_eq_none_iff, List.findSome?_eq_none_iff]
  simp only [variableDefect?_eq_none_iff]

/-! ## Well-formed images have no defect -/

/-- Words that are instructions, and more that are. -/
lemma Decodes.split (decodes : Decodes pc words (before ++ after)) :
    ∃ first last, words = first ++ last ∧ Decodes pc first before ∧ Decodes
      (pc + first.length) last after := by
  induction before generalizing pc words with
  | nil => exact ⟨[], words, rfl, .nil, decodes⟩
  | cons ins before ih =>
    cases decodes with
    | @bare _ w op _ _ code bare later =>
      obtain ⟨first, last, rfl, decodes, decodes'⟩ := ih later
      refine ⟨w :: first, last, rfl, .bare code bare decodes, ?_⟩
      rwa [List.length_cons, Nat.add_comm first.length, ← Nat.add_assoc]
    | @wide _ w v op _ _ code takes later =>
      obtain ⟨first, last, rfl, decodes, decodes'⟩ := ih later
      refine ⟨w :: v :: first, last, rfl, .wide code takes decodes, ?_⟩
      rwa [List.length_cons, List.length_cons, Nat.add_assoc, Nat.add_comm first.length,
        ← Nat.add_assoc]

/-- Instructions are decoded one after the other. -/
lemma Decodes.append {more} (decodes : Decodes pc words before)
    (later : Decodes (pc + words.length) more after) :
    Decodes pc (words ++ more) (before ++ after) := by
  induction decodes with
  | nil => exact later
  | bare code bare _ ih =>
    apply Decodes.bare code bare
    apply ih
    rwa [List.length_cons, Nat.add_comm _ 1, ← Nat.add_assoc] at later
  | wide code takes _ ih =>
    apply Decodes.wide code takes
    apply ih
    rwa [List.length_cons, List.length_cons, Nat.add_assoc, Nat.add_comm _ 2,
      ← Nat.add_assoc] at later

/-- Decoding finds the instructions that the words are. -/
lemma Decodes.decode_eq (decodes : Decodes pc words instructions) :
    decode pc words = (instructions, none) := by
  induction decodes with
  | nil => rfl
  | bare code bare _ ih => simp only [decode, code, if_pos bare, ih]
  | wide code takes _ ih => simp only [decode, code, if_neg takes, ih]

/-- The operation of the first word is that of the first instruction. -/
lemma Decodes.opcode_head (decodes : Decodes pc rest after) :
    rest[0]?.bind Word.opcode? = after.head?.map (·.op) := by
  cases decodes with
  | nil => rfl
  | bare code | wide code => exact code

/-- An instruction stands where it was decoded, and the next word starts the next one unless it is
an operand. -/
lemma Decodes.placed (decodes : Decodes 0 i.words.toList (before ++ ins :: after)) :
    i.Placed ins ∧
      (ins.op.operands = 0 → (i.words[ins.address + 1]?).bind Word.opcode? =
        after.head?.map (·.op)) := by
  obtain ⟨first, last, split, -, later⟩ := decodes.split
  have left : i.Left (0 + first.length) last := by rw [Left, split, Nat.zero_add, List.drop_left]
  cases later with
  | bare code bare later =>
    refine ⟨left.placed_bare code bare, fun _ => ?_⟩
    rw [left.getElem? 1]
    exact later.opcode_head
  | wide code takes later => exact ⟨left.placed_wide code, fun bare => absurd bare takes⟩

/-- The operands of a complete instruction make sense if nothing is wrong with it. -/
lemma inOrder_iff (placed : i.Placed ins)
    (next : ins.op.operands = 0 → (i.words[ins.address + 1]?).bind Word.opcode? =
      after.head?.map (·.op)) :
    ins.InOrder i after ↔ ∀ d, ¬ i.CodeDefect ins.address d := by
  rw [← instructionDefect?_eq_none_iff placed, instructionDefect?]
  constructor
  · intro order
    rw [if_neg, if_neg, if_neg, if_neg]
    · rintro ⟨test, other⟩
      obtain ⟨jump, rest, rfl, goto⟩ := order.test (isConditional_iff.1 test)
      rw [next (operands_eq_zero (.inr test))] at other
      exact other (congrArg some goto)
    · rintro ⟨jumps, past⟩
      obtain ⟨target, operand, within⟩ := order.address (takesAddress_iff.1 jumps)
      rw [operand] at past
      exact absurd within (Nat.not_lt.2 past)
    · rintro ⟨takes, unreadable⟩
      obtain ⟨-, s, reads⟩ := order.string (takesString_iff.1 takes)
      rw [string?, Strings.get?_eq_some_iff.2 reads] at unreadable
      cases unreadable
    · rintro ⟨takes, large⟩
      exact absurd (order.string (takesString_iff.1 takes)).1 (Nat.not_lt.2 large)
  · intro fine
    split at fine
    · cases fine
    split at fine
    · cases fine
    split at fine
    · cases fine
    split at fine
    · cases fine
    case isFalse small readable within test =>
      refine ⟨fun takes => ⟨?_, ?_⟩, fun jumps => ?_, fun tests => ?_⟩
      · exact Nat.lt_of_not_le fun large => small ⟨takesString_iff.2 takes, large⟩
      · apply not_forall_not.1
        intro unreadable
        apply readable
        exact ⟨takesString_iff.2 takes,
          Option.isNone_iff_eq_none.2 (Strings.get?_eq_none_iff.2 unreadable)⟩
      · have jumps := takesAddress_iff.2 jumps
        obtain ⟨target, -, own⟩ := placed.operand (operands_of_takesAddress jumps)
        rw [own] at within
        exact ⟨target, own, Nat.lt_of_not_le fun past => within ⟨jumps, past⟩⟩
      · have tests := isConditional_iff.2 tests
        have goto := not_not.1 fun other => test ⟨tests, other⟩
        rw [next (operands_eq_zero (.inr tests))] at goto
        cases after with
        | nil => cases goto
        | cons jump rest => exact ⟨jump, rest, rfl, Option.some.inj goto⟩

/-- The instructions make sense if nothing is wrong with any of them. -/
lemma codeSound_iff : i.CodeSound ↔ ∃ instructions, Decodes 0 i.words.toList instructions ∧
    ∀ before ins after, instructions = before ++ ins :: after → ins.InOrder i after := by
  apply exists_congr
  intro instructions
  apply and_congr_right
  intro decodes
  constructor
  · rintro sound before ins after rfl
    obtain ⟨placed, next⟩ := decodes.placed
    exact (inOrder_iff placed next).2 (sound ins (List.mem_append_right _ List.mem_cons_self))
  · intro order ins listed
    obtain ⟨before, after, rfl⟩ := List.append_of_mem listed
    obtain ⟨placed, next⟩ := decodes.placed
    exact (inOrder_iff placed next).1 (order before ins after rfl)

/-- When a state has no defect. -/
lemma stateSound_iff : (∀ d, ¬ i.StateDefect earlier s d) ↔ ∃ name, i.strings.Reads s.name name ∧
    s.address < i.words.size ∧ ∀ s' ∈ earlier, ¬ i.strings.Reads s'.name name := by
  constructor
  · intro sound
    obtain ⟨name, reads⟩ := not_forall_not.1 fun unreadable => sound _ (.unreadable unreadable)
    have within := Nat.lt_of_not_le fun past => sound _ (.address reads past)
    exact ⟨name, reads, within, fun s' there same => sound _ (.duplicate reads within there same)⟩
  · rintro ⟨name, reads, within, fresh⟩ d defect
    cases defect with
    | unreadable unreadable => exact unreadable name reads
    | address _ past => exact absurd within (Nat.not_lt.2 past)
    | duplicate reads' _ there same =>
      rw [← reads.unique reads'] at same
      exact fresh _ there same

/-- When a variable has no defect. -/
lemma variableSound_iff : (∀ d, ¬ i.VariableDefect v d) ↔ ∃ name type, i.strings.Reads v.name name ∧
    i.strings.Reads v.type type ∧ type ∈ ["int", "real", "string", "array", "fiber", "any"] := by
  constructor
  · intro sound
    obtain ⟨name, reads⟩ := not_forall_not.1 fun unreadable => sound _ (.name unreadable)
    obtain ⟨type, reads'⟩ := not_forall_not.1 fun unreadable => sound _ (.type reads unreadable)
    exact ⟨name, type, reads, reads', not_not.1 fun unknown =>
      sound _ (.unknown reads reads' unknown)⟩
  · rintro ⟨name, type, reads, reads', known⟩ d defect
    cases defect with
    | name unreadable => exact unreadable name reads
    | type _ unreadable => exact unreadable type reads'
    | unknown _ same unknown =>
      rw [← reads'.unique same] at unknown
      exact unknown known

lemma wellFormed_iff : i.defect? = none ↔ i.WellFormed := by
  rw [defect?_eq_none_iff, codeSound_iff]
  simp only [StatesSound, stateSound_iff, variableSound_iff]
  constructor
  · rintro ⟨code, states, declared⟩
    exact ⟨code, states, declared⟩
  · intro formed
    exact ⟨formed.code, formed.states, formed.declared⟩

/-- Checking an image decides whether it is well formed, and it reports the first defect. -/
theorem defect?_decides (i : Image) :
    (i.defect? = none ↔ i.WellFormed) ∧ ∀ d, i.defect? = some d ↔ i.FirstDefect d :=
  ⟨wellFormed_iff, fun _ => defect?_eq_some_iff⟩

end Image

end FiberVM
