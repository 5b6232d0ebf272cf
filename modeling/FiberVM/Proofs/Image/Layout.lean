import FiberVM.Image.Assembly
import FiberVM.Proofs.Image.Strings
import Mathlib.Algebra.GroupWithZero.Nat

/-!
# Layout of assembled programs

The size of a statement is known from the statement alone, so the address of each statement is the
size of those before it. An assembled program is made of the words of its statements, one after the
other, where each string stands for its index and each label for its address (`Layout`). One
statement adds its words, strings, states and variables to a draft (`Draft.Adds`); what is added for
an address that is not known yet is zero, and the addresses are put in at the end.
-/

namespace FiberVM

lemma Word.plain_opcode (op : Opcode) : (plain op).opcode? = some op ∧ (plain op).inline = 0 := by
  apply encode?_eq_some
  rw [encode?, if_pos (Nat.zero_le _), Nat.zero_mul, Nat.zero_add, plain]

/-- The first index of a string, if it has one. -/
def Strings.index (t : Strings) (s : String) : Nat := (t.find? s).getD 0

namespace Stmt

variable {t : Strings} {s : Stmt} {program before after : List Stmt}

/-! ## Parts of a statement -/

/-- How many words a statement is. -/
@[simp] def size : Stmt → Nat
  | .op .. | .word _ | .string .. => 1
  | .int _ | .real _ | .jump .. => 2
  | .branch .. => 3
  | .state _ | .declareLocal .. | .declareShared .. | .intern _ | .address | .label _ => 0

/-- The label that a statement jumps to. -/
@[simp] def target? : Stmt → Option String
  | .jump _ l | .branch _ l => some l
  | _ => none

/-- The strings of a statement. -/
@[simp] def texts : Stmt → List String
  | .state name => [name]
  | .declareLocal name type | .declareShared name type => [name, type]
  | .intern s | .string _ s => [s]
  | _ => []

/-- The name of the state that a statement starts. -/
@[simp] def stateName? : Stmt → Option String
  | .state name => some name
  | _ => none

/-- The name and the type of the instance variable that a statement declares. -/
@[simp] def local? : Stmt → Option (String × String)
  | .declareLocal name type => some (name, type)
  | _ => none

/-- The name and the type of the shared variable that a statement declares. -/
@[simp] def shared? : Stmt → Option (String × String)
  | .declareShared name type => some (name, type)
  | _ => none

/-- The words of a statement, where the indices of strings and the addresses of labels are given. -/
@[simp] def words (index target : String → Nat) : Stmt → List Word
  | .op o inline => (Word.encode? o inline).toList
  | .word w => [w]
  | .int n => [Word.plain .pushInt, n.toUInt64]
  | .real x => [Word.plain .pushReal, x.bits]
  | .string o s => (Word.encode? o (index s)).toList
  | .jump o l => [Word.plain o, UInt64.ofNat (target l)]
  | .branch test l => [Word.plain test, Word.plain .goto, UInt64.ofNat (target l)]
  | .state _ | .declareLocal .. | .declareShared .. | .intern _ | .address | .label _ => []

/-- What a statement is answered with, where the address and the numbers of states, instance
variables and shared variables before it are given. -/
@[simp] def answer? (index : String → Nat) (here states locals shared : Nat) : Stmt → Option Nat
  | .state _ => some states
  | .declareLocal .. => some locals
  | .declareShared .. => some shared
  | .intern s => some (index s)
  | .address => some here
  | _ => none

/-- Where the address of a label goes if a statement stands at an address. -/
@[simp] def fixup? (here : Nat) : Stmt → Option (Nat × String)
  | .jump _ l => some (here + 1, l)
  | .branch _ l => some (here + 2, l)
  | _ => none

/-- A statement can be written: its strings have indices, its inline operand fits, and it branches
on a test. -/
structure Fits (t : Strings) (s : Stmt) : Prop where
  texts : ∀ text ∈ s.texts, (t.find? text).isSome
  inline : ∀ op inline, s = .op op inline → inline ≤ Word.maxInline
  test : ∀ test label, s = .branch test label → test.isConditional

/-! ## Parts of a program -/

/-- How many words statements are. -/
def codeSize (program : List Stmt) : Nat := (program.map size).sum

@[simp] lemma codeSize_nil : codeSize [] = 0 := rfl

@[simp] lemma codeSize_cons : codeSize (s :: program) = s.size + codeSize program := by
  rw [codeSize, List.map_cons, List.sum_cons, codeSize]

@[simp] lemma codeSize_append : codeSize (before ++ after) = codeSize before + codeSize after := by
  rw [codeSize, List.map_append, List.sum_append, codeSize, codeSize]

/-- Statements, each with all that come before it. -/
def inContext (before : List Stmt) : List Stmt → List (List Stmt × Stmt)
  | [] => []
  | s :: rest => (before, s) :: inContext (before ++ [s]) rest

@[simp] lemma inContext_append : inContext before (program ++ after) =
    inContext before program ++ inContext (before ++ program) after := by
  induction program generalizing before with
  | nil => rw [List.nil_append, List.append_nil, inContext, List.nil_append]
  | cons s program ih =>
    rw [List.cons_append, inContext, ih, inContext, List.append_assoc, List.cons_append]; rfl

/-- Each statement comes after those before it. -/
lemma mem_inContext : (after, s) ∈ inContext before program ↔
    ∃ middle rest, program = middle ++ s :: rest ∧ after = before ++ middle := by
  induction program generalizing before with
  | nil => simp [inContext]
  | cons s' program ih =>
    rw [inContext, List.mem_cons, ih]
    constructor
    · rintro (same | ⟨middle, rest, rfl, rfl⟩)
      · cases same
        exact ⟨[], program, rfl, (List.append_nil _).symm⟩
      · exact ⟨s' :: middle, rest, rfl, List.append_assoc before [s'] middle⟩
    · rintro ⟨middle, rest, split, rfl⟩
      cases middle with
      | nil =>
        cases split
        exact .inl (congrArg (·, s) (List.append_nil _))
      | cons first middle =>
        cases split
        exact .inr ⟨middle, rest, rfl, (List.append_assoc before [s'] middle).symm⟩

lemma map_snd_inContext : (inContext before program).map (·.2) = program := by
  induction program generalizing before with
  | nil => rfl
  | cons s program ih => rw [inContext, List.map_cons, ih]

/-- The states of a program, each with its address. -/
def stateEntries (program : List Stmt) : List (String × Nat) :=
  (inContext [] program).filterMap fun x => x.2.stateName?.map (·, codeSize x.1)

/-- The states of a program, by the indices of their names. -/
def stateTable (index : String → Nat) (program : List Stmt) : List StateEntry :=
  (stateEntries program).map fun e => ⟨index e.1, e.2⟩

lemma map_fst_stateEntries : (stateEntries program).map (·.1) = program.filterMap stateName? := by
  have names : (stateEntries program).map (·.1) =
      (inContext [] program).filterMap (stateName? ∘ Prod.snd) := by
    rw [stateEntries, List.map_filterMap]
    simp only [Option.map_map, Function.comp_def, Option.map_id']
  rw [names, ← List.filterMap_map, map_snd_inContext]

/-- The given variables, by the indices of their names and types. -/
def variableTable (index : String → Nat) (declared : List (String × String)) : List Variable :=
  declared.map fun v => ⟨index v.1, index v.2⟩

/-- The answers to the statements of a program that have one. -/
def answers (index : String → Nat) (program : List Stmt) : List Nat :=
  (inContext [] program).filterMap fun x =>
    x.2.answer? index (codeSize x.1) (x.1.filterMap stateName?).length
    (x.1.filterMap local?).length (x.1.filterMap shared?).length

/-- Where the addresses of labels go, where the statements before the program are given. -/
def fixups (before program : List Stmt) : List (Nat × String) :=
  (inContext before program).filterMap fun x => x.2.fixup? (codeSize x.1)

lemma fixups_cons :
    fixups before (s :: program) = (s.fixup? (codeSize before)).toList ++ fixups
      (before ++ [s]) program := by
  rw [fixups, inContext, List.filterMap_cons]
  cases s.fixup? (codeSize before) <;> rfl

/-- A statement has as many words as its size. -/
lemma Fits.length {target : String → Nat} (fits : s.Fits t) :
    (s.words t.index target).length = s.size := by
  cases s with
  | op o n => simp [Word.encode?, fits.inline o n rfl]
  | string o text =>
    obtain ⟨n, found⟩ := Option.isSome_iff_exists.1 (fits.texts text List.mem_cons_self)
    have small : n ≤ Word.maxInline := by
      have few := (Strings.find?_eq_some_iff.1 found).1
      rw [Word.indexCount] at few
      rw [Word.maxInline]
      omega
    simp [Word.encode?, Strings.index, found, small]
  | _ => rfl

lemma length_flatMap_words {target : String → Nat} (fits : ∀ s ∈ program, s.Fits t) :
    (program.flatMap (words t.index target)).length = codeSize program := by
  rw [List.length_flatMap, codeSize]
  congr 1
  apply List.map_congr_left
  intro s listed
  exact (fits s listed).length

end Stmt

namespace Draft

variable {t : Strings} {d d' : Draft} {s : Stmt} {program done rest : List Stmt} {n : Nat}

/-! ## One statement -/

/-- What a statement adds to a draft, where the table of all strings is given. -/
structure Adds (t : Strings) (s : Stmt) (d d' : Draft) : Prop where
  fits : s.Fits t
  words : d'.words.toList = d.words.toList ++ s.words t.index fun _ => 0
  states : d'.states =
    d.states ++ (s.stateName?.map fun name => ⟨t.index name, d.words.size⟩).toList
  locals : d'.locals = d.locals ++ Stmt.variableTable t.index s.local?.toList
  shared : d'.shared = d.shared ++ Stmt.variableTable t.index s.shared?.toList
  labels : ∀ label a, d'.labels.find? label = some a ↔
    d.labels.find? label = some a ∨ s = .label label ∧ a = d.words.size
  fixups : d'.fixups = (s.fixup? d.words.size).toList ++ d.fixups
  notes : d'.notes =
    (s.answer? t.index d.words.size d.states.length d.locals.length d.shared.length).toList ++
      d.notes

private lemma bind_eq_ok {ε α β : Type} {x} {f : α → Except ε β} {b} (run : x >>= f = .ok b) :
    ∃ a, x = .ok a ∧ f a = .ok b := by
  cases x with
  | error e => cases run
  | ok a => exact ⟨a, rfl, run⟩

/-- Interning changes only the strings. -/
lemma intern_eq_ok {text} (filled : d.strings.Filled) (interned : d.intern text = .ok (n, d')) :
    (∃ strings, d' = { d with strings }) ∧ d'.strings.Filled ∧ d.strings.Extends d'.strings ∧
      d'.strings.find? text = some n := by
  rw [intern] at interned
  split at interned
  · cases interned
  case h_2 index strings found =>
    cases interned
    exact ⟨⟨strings, rfl⟩, filled.intern? found⟩

/-- So does a declaration. -/
lemma declaration_eq_ok {name type v} (filled : d.strings.Filled)
    (declared : d.declaration name type = .ok (v, d')) :
    (∃ strings, d' = { d with strings }) ∧ d'.strings.Filled ∧ d.strings.Extends d'.strings ∧
      d'.strings.find? name = some v.name ∧ d'.strings.find? type = some v.type := by
  obtain ⟨⟨first, e⟩, interned, rest⟩ := bind_eq_ok declared
  obtain ⟨⟨second, e'⟩, interned', rest⟩ := bind_eq_ok rest
  cases rest
  obtain ⟨⟨strings, rfl⟩, filled, grows, found⟩ := intern_eq_ok filled interned
  obtain ⟨⟨strings', rfl⟩, filled', grows', found'⟩ := intern_eq_ok filled interned'
  exact ⟨⟨strings', rfl⟩, filled', grows.trans grows', filled.find?_extend grows' found, found'⟩

/-- An instruction that is emitted fits into a word. -/
lemma emitOp_eq_ok {op} (emitted : d.emitOp op n = .ok d') :
    n ≤ Word.maxInline ∧ ∃ w, Word.encode? op n = some w ∧ d' = d.emit w := by
  rw [emitOp] at emitted
  split at emitted
  · cases emitted
  case h_2 w encoded =>
    cases emitted
    refine ⟨?_, w, encoded, rfl⟩
    rw [Word.encode?] at encoded
    split at encoded
    · assumption
    · cases encoded

/-- A string that is found stays at its index. -/
private lemma index_of_extends {t' text} (filled : t.Filled) (grows : t.Extends t')
    (found : t.find? text = some n) :
    t'.find? text = some n ∧ t'.index text = n := by
  have found' := filled.find?_extend grows found
  rw [Strings.index, found']
  exact ⟨rfl, rfl⟩

/-- A statement adds what it is made of. -/
lemma stmt_adds (filled : d.strings.Filled) (assembled : d.stmt s = .ok d') :
    d'.strings.Filled ∧ d.strings.Extends d'.strings ∧ ∀ t, d'.strings.Extends t →
      Adds t s d d' := by
  cases s with
  | state name | intern name =>
    obtain ⟨⟨n, e⟩, interned, rest⟩ := bind_eq_ok assembled
    cases rest
    obtain ⟨⟨strings, rfl⟩, filled, grows, found⟩ := intern_eq_ok filled interned
    refine ⟨filled, grows, fun t final => ?_⟩
    obtain ⟨found, same⟩ := index_of_extends filled final found
    constructor
    case fits => constructor <;> simp [found]
    all_goals simp [Stmt.variableTable, note, address, same]
  | declareLocal name type | declareShared name type =>
    obtain ⟨⟨v, e⟩, declared, rest⟩ := bind_eq_ok assembled
    cases rest
    obtain ⟨⟨strings, rfl⟩, filled, grows, found, found'⟩ := declaration_eq_ok filled declared
    refine ⟨filled, grows, fun t final => ?_⟩
    obtain ⟨found, same⟩ := index_of_extends filled final found
    obtain ⟨found', same'⟩ := index_of_extends filled final found'
    constructor
    case fits => constructor <;> simp [found, found']
    all_goals simp [Stmt.variableTable, note, same, same']
  | string op text =>
    obtain ⟨⟨n, e⟩, interned, rest⟩ := bind_eq_ok assembled
    obtain ⟨⟨strings, rfl⟩, filled, grows, found⟩ := intern_eq_ok filled interned
    obtain ⟨-, w, encoded, rfl⟩ := emitOp_eq_ok rest
    refine ⟨filled, grows, fun t final => ?_⟩
    obtain ⟨found, same⟩ := index_of_extends filled final found
    constructor
    case fits => constructor <;> simp [found]
    all_goals simp [Stmt.variableTable, emit, encoded, same]
  | op op n =>
    obtain ⟨small, w, encoded, rfl⟩ := emitOp_eq_ok assembled
    refine ⟨filled, .refl _, fun t final => ?_⟩
    constructor
    case fits => constructor <;> simp [small]
    all_goals simp [Stmt.variableTable, emit, encoded]
  | label l =>
    rw [stmt] at assembled
    split at assembled
    case isTrue => cases assembled
    case isFalse fresh =>
      cases assembled
      refine ⟨filled, .refl _, fun t final => ?_⟩
      constructor
      case fits => constructor <;> simp
      case labels =>
        intro label a
        have missing : d.labels.find? l = none := by simpa [Table.contains] using fresh
        rw [Table.find?_insert]
        split
        case isTrue same => simp [same, missing, address, eq_comm]
        case isFalse other => simp [Ne.symm other]
      all_goals simp [Stmt.variableTable]
  | branch test l =>
    rw [stmt] at assembled
    split at assembled
    case isFalse => cases assembled
    case isTrue conditional =>
      cases assembled
      refine ⟨filled, .refl _, fun t final => ?_⟩
      constructor
      case fits => constructor <;> simp [conditional]
      all_goals simp [Stmt.variableTable, emit, emitJump, address]
  | address | word w | int n | real x | jump op l =>
    cases assembled
    refine ⟨filled, .refl _, fun t final => ?_⟩
    constructor
    case fits => constructor <;> simp
    all_goals simp [Stmt.variableTable, emit, emitJump, note, address]

/-! ## Many statements -/

/-- A draft is made of the statements of a program; the addresses of labels are still to be put
in. -/
structure Holds (t : Strings) (program : List Stmt) (d : Draft) : Prop where
  fits : ∀ s ∈ program, s.Fits t
  words : d.words.toList = program.flatMap (Stmt.words t.index fun _ => 0)
  states : d.states = Stmt.stateTable t.index program
  locals : d.locals = Stmt.variableTable t.index (program.filterMap Stmt.local?)
  shared : d.shared = Stmt.variableTable t.index (program.filterMap Stmt.shared?)
  labels : ∀ label a, d.labels.find? label = some a ↔
    ∃ before, (before, Stmt.label label) ∈ Stmt.inContext [] program ∧ a = Stmt.codeSize before
  fixups : d.fixups.reverse = Stmt.fixups [] program
  notes : d.notes.reverse = Stmt.answers t.index program

lemma Holds.size (holds : d.Holds t program) : d.words.size = Stmt.codeSize program := by
  rw [← Array.length_toList, holds.words, Stmt.length_flatMap_words holds.fits]

private lemma filterMap_singleton {α β : Type} (f : α → Option β) (x : α) :
    [x].filterMap f = (f x).toList := by
  cases found : f x with
  | none => rw [List.filterMap_cons_none found, List.filterMap_nil, Option.toList_none]
  | some y => rw [List.filterMap_cons_some found, List.filterMap_nil, Option.toList_some]

private lemma reverse_toList {α : Type} (x : Option α) : x.toList.reverse = x.toList := by
  cases x <;> rfl

/-- A statement is added to a draft that is made of others. -/
lemma Holds.add (holds : d.Holds t program) (adds : d.Adds t s d') :
    d'.Holds t (program ++ [s]) := by
  have context : Stmt.inContext [] (program ++ [s]) =
      Stmt.inContext [] program ++ [(program, s)] := by
    rw [Stmt.inContext_append, List.nil_append]
    rfl
  constructor
  case fits =>
    intro s' listed
    rcases List.mem_append.1 listed with old | new
    · exact holds.fits s' old
    · exact List.mem_singleton.1 new ▸ adds.fits
  case words => rw [adds.words, holds.words, List.flatMap_append, List.flatMap_singleton]
  case states =>
    rw [adds.states, holds.states, holds.size, Stmt.stateTable, Stmt.stateTable, Stmt.stateEntries,
      Stmt.stateEntries, context, List.filterMap_append, filterMap_singleton, List.map_append]
    cases s.stateName? <;> rfl
  case locals =>
    rw [adds.locals, holds.locals, List.filterMap_append, filterMap_singleton]
    exact List.map_append.symm
  case shared =>
    rw [adds.shared, holds.shared, List.filterMap_append, filterMap_singleton]
    exact List.map_append.symm
  case labels =>
    intro label a
    rw [adds.labels, holds.labels, holds.size, context]
    simp only [List.mem_append, List.mem_singleton, Prod.mk.injEq]
    constructor
    · rintro (⟨before, stands, rfl⟩ | ⟨rfl, rfl⟩)
      · exact ⟨before, .inl stands, rfl⟩
      · exact ⟨program, .inr ⟨rfl, rfl⟩, rfl⟩
    · rintro ⟨before, stands | ⟨rfl, rfl⟩, rfl⟩
      · exact .inl ⟨before, stands, rfl⟩
      · exact .inr ⟨rfl, rfl⟩
  case fixups =>
    rw [adds.fixups, List.reverse_append, reverse_toList, holds.fixups, holds.size, Stmt.fixups,
      Stmt.fixups, context, List.filterMap_append, filterMap_singleton]
  case notes =>
    rw [adds.notes, List.reverse_append, reverse_toList, holds.notes, holds.size, Stmt.answers,
      Stmt.answers, context,
      List.filterMap_append, filterMap_singleton, holds.states, holds.locals, holds.shared,
        Stmt.stateTable,
      Stmt.variableTable, Stmt.variableTable, List.length_map, List.length_map, List.length_map,
      ← Stmt.map_fst_stateEntries, List.length_map]

/-- Statements add what they are made of, one after the other. -/
lemma stmts_holds (filled : d.strings.Filled) (assembled : d.stmts rest = .ok d') :
    d'.strings.Filled ∧ d.strings.Extends d'.strings ∧
      ∀ t done, d'.strings.Extends t → d.Holds t done → d'.Holds t (done ++ rest) := by
  induction rest generalizing d with
  | nil =>
    cases assembled
    refine ⟨filled, .refl _, fun t done _ holds => ?_⟩
    rwa [List.append_nil]
  | cons s rest ih =>
    obtain ⟨e, first, later⟩ := bind_eq_ok assembled
    obtain ⟨filled, grows, adds⟩ := stmt_adds filled first
    obtain ⟨filled', grows', run⟩ := ih filled later
    refine ⟨filled', grows.trans grows', fun t done final holds => ?_⟩
    have added := holds.add (adds t (grows'.trans final))
    have whole := run t (done ++ [s]) final added
    rwa [List.append_assoc] at whole

/-- A draft is made of the statements that it was started with. -/
lemma holds_of_stmts (drafted : Draft.stmts {} program = .ok d) : d.Holds d.strings program := by
  obtain ⟨-, -, run⟩ := stmts_holds Strings.filled_empty drafted
  apply run d.strings [] (.refl _)
  constructor <;> simp [Stmt.stateTable, Stmt.stateEntries, Stmt.variableTable, Stmt.fixups,
    Stmt.answers, Stmt.inContext]

/-! ## Addresses of labels -/

/-- The address of a label, if the statement jumps to one, is its last word. -/
lemma fixup?_cases (s : Stmt) (here : Nat) :
    (s.fixup? here = none ∧ s.target? = none ∧
        ∀ index target target', s.words index target = s.words index target') ∨
      ∃ front label, s.fixup? here = some (here + front.length, label) ∧ s.target? = some label ∧
        ∀ index target, s.words index target = front ++ [UInt64.ofNat (target label)] := by
  cases s with
  | jump op label => exact .inr ⟨[Word.plain op], label, rfl, rfl, fun _ _ => rfl⟩
  | branch test label =>
    exact .inr ⟨[Word.plain test, Word.plain .goto], label, rfl, rfl, fun _ _ => rfl⟩
  | _ => exact .inl ⟨rfl, rfl, fun _ _ _ => rfl⟩

/-- The address of a label, if it has one. -/
def addressOf (labels : Table String Nat) (label : String) : Nat := (labels.find? label).getD 0

variable {labels : Table String Nat} {words words' : Array Word} {before : List Stmt}
  {pre post : List Word}

/-- The address of the label of the first statement is put into it. -/
lemma resolve_cons
    (resolved : resolve labels (Stmt.fixups before (s :: program)) words = .ok words')
    (held : words.toList = pre ++ s.words t.index (fun _ => 0) ++ post)
    (place : pre.length = Stmt.codeSize before) :
    (∀ label ∈ s.target?, (labels.find? label).isSome) ∧ ∃ next : Array Word,
      next.toList = pre ++ s.words t.index (addressOf labels) ++ post ∧
        resolve labels (Stmt.fixups (before ++ [s]) program) next = .ok words' := by
  rw [Stmt.fixups_cons] at resolved
  rcases fixup?_cases s (Stmt.codeSize before) with ⟨nothing, still, same⟩ |
    ⟨front, label, fixup, jumps, split⟩
  · rw [nothing] at resolved
    rw [still, same _ (addressOf labels) fun _ => 0]
    exact ⟨fun _ missing => absurd missing (Option.not_mem_none _), words, held, resolved⟩
  · rw [fixup, Option.toList_some, List.singleton_append, resolve] at resolved
    split at resolved
    · cases resolved
    case h_2 a found =>
      refine ⟨?_, _, ?_, resolved⟩
      · rintro _ jumps'
        rw [jumps] at jumps'
        cases jumps'
        rw [found, Option.isSome_some]
      · rw [Array.toList_setIfInBounds, held, split, split, addressOf, found, Option.getD_some,
          ← place]
        simp

/-- The addresses of labels are put where the statements have them. -/
lemma resolve_words (fits : ∀ s ∈ program, s.Fits t)
    (resolved : resolve labels (Stmt.fixups before program) words = .ok words')
    (held : words.toList = pre ++ program.flatMap (Stmt.words t.index fun _ => 0))
    (place : pre.length = Stmt.codeSize before) :
    words'.toList = pre ++ program.flatMap (Stmt.words t.index (addressOf labels)) ∧
      ∀ s ∈ program, ∀ label ∈ s.target?, (labels.find? label).isSome := by
  -- what stands before the program is resolved already, and grows by one statement
  induction program generalizing before pre words with
  | nil =>
    cases resolved
    exact ⟨held, fun s listed => absurd listed List.not_mem_nil⟩
  | cons s program ih =>
    rw [List.flatMap_cons, ← List.append_assoc] at held ⊢
    obtain ⟨bound, next, held', resolved'⟩ := resolve_cons resolved held place
    have place' : (pre ++ s.words t.index (addressOf labels)).length =
        Stmt.codeSize (before ++ [s]) := by
      rw [List.length_append, place, (fits s List.mem_cons_self).length, Stmt.codeSize_append,
        Stmt.codeSize_cons, Stmt.codeSize_nil, Nat.add_zero]
    obtain ⟨whole, bound'⟩ :=
      ih (fun s' listed => fits s' (List.mem_cons_of_mem s listed)) resolved' held' place'
    exact ⟨whole, List.forall_mem_cons.2 ⟨bound, bound'⟩⟩

end Draft

/-! ## The whole program -/

/-- An image is made of the statements of a program, where the indices of strings and the addresses
of labels are given. -/
structure Layout (program : List Stmt) (image : Image) (target : String → Nat) : Prop where
  fits : ∀ s ∈ program, s.Fits image.strings
  words : image.words.toList = program.flatMap (Stmt.words image.strings.index target)
  states : image.states = Stmt.stateTable image.strings.index program
  locals : image.locals = Stmt.variableTable image.strings.index (program.filterMap Stmt.local?)
  shared : image.shared = Stmt.variableTable image.strings.index (program.filterMap Stmt.shared?)
  /-- A label that is jumped to has a place. -/
  bound : ∀ s ∈ program, ∀ label ∈ s.target?, .label label ∈ program
  /-- The address of a label is that of its place. -/
  target : ∀ before label after, program = before ++ .label label :: after →
    target label = Stmt.codeSize before

section

variable {name : String} {program before after : List Stmt} {image : Image} {notes : List Nat}
  {target : String → Nat} {text : String} {s : Stmt}

/-- An assembled program is made of its statements. -/
lemma exists_layout (assembled : assemble name program = .ok (image, notes)) :
    notes = Stmt.answers image.strings.index program ∧ ∃ target, Layout program image target := by
  obtain ⟨d, drafted, rest⟩ := Draft.bind_eq_ok assembled
  obtain ⟨image', finished, rest⟩ := Draft.bind_eq_ok rest
  obtain ⟨words, resolved, rest'⟩ := Draft.bind_eq_ok finished
  cases rest'
  cases rest
  have holds := Draft.holds_of_stmts drafted
  have held : d.words.toList = [] ++ program.flatMap (Stmt.words d.strings.index fun _ => 0) :=
    holds.words
  rw [holds.fixups] at resolved
  obtain ⟨whole, bound⟩ := Draft.resolve_words holds.fits resolved held rfl
  refine ⟨holds.notes, Draft.addressOf d.labels, holds.fits, whole, holds.states, holds.locals,
    holds.shared, ?_, ?_⟩
  · intro s listed label jumps
    obtain ⟨a, found⟩ := Option.isSome_iff_exists.1 (bound s listed label jumps)
    obtain ⟨before, stands, -⟩ := (holds.labels label a).1 found
    obtain ⟨middle, after, rfl, -⟩ := Stmt.mem_inContext.1 stands
    exact List.mem_append_right _ List.mem_cons_self
  · rintro before label after rfl
    have found := (holds.labels label _).2 ⟨before, Stmt.mem_inContext.2 ⟨before, after, rfl, rfl⟩,
      rfl⟩
    rw [Draft.addressOf, found, Option.getD_some]

/-- The strings of a statement are read where they are. -/
lemma Stmt.Fits.reads {t} (fits : s.Fits t) (used : text ∈ s.texts) :
    t.index text < Word.indexCount ∧ t.Reads (t.index text) text := by
  obtain ⟨n, found⟩ := Option.isSome_iff_exists.1 (fits.texts text used)
  obtain ⟨few, reads, -⟩ := Strings.find?_eq_some_iff.1 found
  rw [Strings.index, found]
  exact ⟨Nat.lt_of_lt_of_le few (Nat.min_le_right _ _), reads⟩

lemma Layout.reads (layout : Layout program image target) (listed : s ∈ program)
    (used : text ∈ s.texts) :
    image.strings.index text < Word.indexCount ∧ image.strings.Reads
      (image.strings.index text) text :=
  (layout.fits s listed).reads used

lemma Layout.size (layout : Layout program image target) :
    image.words.size = Stmt.codeSize program := by
  rw [← Array.length_toList, layout.words, Stmt.length_flatMap_words layout.fits]

/-- The words of a statement stand at its address. -/
lemma Layout.word (layout : Layout program image target) (split : program = before ++ s :: after)
    {k} (within : k < s.size) :
    image.words[Stmt.codeSize before + k]? = (s.words image.strings.index target)[k]? := by
  have fits : ∀ s' ∈ before, s'.Fits image.strings := by
    intro s' listed
    exact layout.fits s' (split ▸ List.mem_append_left _ listed)
  have own : (s.words image.strings.index target).length = s.size :=
    (layout.fits s (split ▸ List.mem_append_right _ List.mem_cons_self)).length
  have place : (before.flatMap (Stmt.words image.strings.index target)).length =
      Stmt.codeSize before :=
    Stmt.length_flatMap_words fits
  rw [← Array.getElem?_toList, layout.words, split, List.flatMap_append, List.flatMap_cons, ← place,
    List.getElem?_append_right (Nat.le_add_right _ _), Nat.add_sub_cancel_left,
    List.getElem?_append_left (own ▸ within)]

end

/-! ## Programs that can be assembled -/

/-- The label that a statement puts in its place. -/
def Stmt.label? : Stmt → Option String
  | .label l => some l
  | _ => none

/-- How many bytes the strings of a statement need at most. -/
def Stmt.bytes (s : Stmt) : Nat := (s.texts.map fun text => (Strings.encode text).size + 1).sum

/-- A program has room for its strings, which have no zero byte. Operands fit, branches are on
tests, and each label that is jumped to stands in one place. -/
structure Assemblable (program : List Stmt) : Prop where
  zero : ∀ s ∈ program, ∀ text ∈ s.texts, Char.ofNat 0 ∉ text.toList
  room : (program.map Stmt.bytes).sum < Word.indexCount
  inline : ∀ op n, .op op n ∈ program → n ≤ Word.maxInline
  test : ∀ test label, .branch test label ∈ program → test.isConditional
  distinct : (program.filterMap Stmt.label?).Nodup
  bound : ∀ s ∈ program, ∀ label ∈ s.target?, .label label ∈ program

/-- No string is empty with its zero byte, so there are at most as many strings as bytes. -/
def Strings.Packed (t : Strings) : Prop := t.size ≤ t.blob.size

/-- A string can be interned where there is room. -/
lemma Strings.Packed.intern? {t : Strings} {text : String} (packed : t.Packed)
    (zero : Char.ofNat 0 ∉ text.toList) (room : t.blob.size < Word.indexCount) :
    ∃ n t', t.intern? text = some (n, t') ∧ n < Word.indexCount ∧ t'.Packed ∧
      t'.blob.size ≤ t.blob.size + ((encode text).size + 1) := by
  cases found : t.find? text with
  | some n =>
    have few := (find?_eq_some_iff.1 found).1
    exact ⟨n, t, intern?_of_found found, Nat.lt_of_lt_of_le few (Nat.min_le_right _ _), packed,
      Nat.le_add_right _ _⟩
  | none =>
    rw [Packed] at packed
    have few := Nat.lt_of_le_of_lt packed room
    refine ⟨_, _, intern?_of_missing found zero (not_isFull_iff.2 ⟨room, few⟩), few, ?_, ?_⟩
    · simp only [Packed, size, add, Array.size_push, Array.size_append] at packed ⊢
      omega
    · simp only [add, Array.size_push, Array.size_append, Nat.add_assoc]
      exact Nat.le_refl _

namespace Draft

variable {d : Draft} {s : Stmt} {rest : List Stmt} {name : String}

lemma intern_ok {text : String} (packed : d.strings.Packed) (zero : Char.ofNat 0 ∉ text.toList)
    (room : d.strings.blob.size < Word.indexCount) :
    ∃ n t, d.intern text = .ok (n, { d with strings := t }) ∧
      n < Word.indexCount ∧ t.Packed ∧
        t.blob.size ≤ d.strings.blob.size + ((Strings.encode text).size + 1) := by
  obtain ⟨n, t, interned, few, packed, small⟩ := packed.intern? zero room
  refine ⟨n, t, ?_, few, packed, small⟩
  rw [intern, interned]

/-- A variable can be declared where there is room. -/
lemma declaration_ok {type} (packed : d.strings.Packed)
    (zero : ∀ text ∈ [name, type], Char.ofNat 0 ∉ text.toList)
    (room : d.strings.blob.size +
      (((Strings.encode name).size + 1) + ((Strings.encode type).size + 1)) < Word.indexCount) :
    ∃ v t, d.declaration name type = .ok (v, { d with strings := t }) ∧ t.Packed ∧ t.blob.size ≤
      d.strings.blob.size +
        (((Strings.encode name).size + 1) + ((Strings.encode type).size + 1)) := by
  obtain ⟨zero, zero'⟩ := List.forall_mem_cons.1 zero
  obtain ⟨n, t, interned, -, packed, small⟩ := intern_ok packed zero (by omega)
  obtain ⟨n', t', interned', -, packed', small'⟩ :=
    @intern_ok { d with strings := t } type packed (zero' type List.mem_cons_self)
      (by dsimp only; omega)
  refine ⟨⟨n, n'⟩, t', ?_, packed', ?_⟩
  · rw [declaration, interned]
    change (intern { d with strings := t } type >>= _) = _
    rw [interned']
    rfl
  · dsimp only at small'
    omega

lemma emitOp_ok {op n} (fits : n ≤ Word.maxInline) :
    d.emitOp op n = .ok (d.emit (UInt64.ofNat (n * Word.codeCount + op.code))) := by
  rw [emitOp, Word.encode?, if_pos fits]

/-- A statement is assembled if there is room for its strings and its label is new. -/
lemma stmt_ok (packed : d.strings.Packed) (zero : ∀ text ∈ s.texts, Char.ofNat 0 ∉ text.toList)
    (room : d.strings.blob.size + s.bytes < Word.indexCount)
    (inline : ∀ op n, s = .op op n → n ≤ Word.maxInline)
    (test : ∀ test label, s = .branch test label → test.isConditional)
    (fresh : ∀ l ∈ s.label?, d.labels.find? l = none) :
    ∃ d', d.stmt s = .ok d' ∧ d'.strings.Packed ∧ d'.strings.blob.size ≤
      d.strings.blob.size + s.bytes := by
  have same : d.strings.blob.size ≤ d.strings.blob.size + s.bytes := Nat.le_add_right _ _
  cases s with
  | state text | intern text =>
    obtain ⟨n, t, interned, -, packed, small⟩ :=
      intern_ok packed (zero text List.mem_cons_self) (by omega)
    exact ⟨_, congrArg (· >>= _) interned, packed, small⟩
  | declareLocal name type | declareShared name type =>
    obtain ⟨v, t, declared, packed, small⟩ := declaration_ok packed zero room
    exact ⟨_, congrArg (· >>= _) declared, packed, small⟩
  | string op text =>
    obtain ⟨n, t, interned, few, packed, small⟩ :=
      intern_ok packed (zero text List.mem_cons_self) (by omega)
    have fits : n ≤ Word.maxInline := by
      rw [Word.indexCount] at few
      rw [Word.maxInline]
      omega
    exact ⟨_, (congrArg (· >>= _) interned).trans (emitOp_ok fits), packed, small⟩
  | op op n => exact ⟨_, emitOp_ok (inline op n rfl), packed, same⟩
  | label l =>
    have free : ¬ d.labels.contains l := by
      rw [Table.contains, fresh l rfl]
      exact Bool.false_ne_true
    exact ⟨_, if_neg free, packed, same⟩
  | branch t l => exact ⟨_, if_pos (test t l rfl), packed, same⟩
  | address | word | int | real | jump => exact ⟨_, rfl, packed, same⟩

/-- Statements are assembled one after the other. -/
lemma stmts_ok (filled : d.strings.Filled) (packed : d.strings.Packed)
    (zero : ∀ s ∈ rest, ∀ text ∈ s.texts, Char.ofNat 0 ∉ text.toList)
    (room : d.strings.blob.size + (rest.map Stmt.bytes).sum < Word.indexCount)
    (inline : ∀ op n, .op op n ∈ rest → n ≤ Word.maxInline)
    (test : ∀ test label, .branch test label ∈ rest → test.isConditional)
    (distinct : (rest.filterMap Stmt.label?).Nodup)
    (fresh : ∀ l ∈ rest.filterMap Stmt.label?, d.labels.find? l = none) :
    ∃ d', d.stmts rest = .ok d' := by
  induction rest generalizing d with
  | nil => exact ⟨d, rfl⟩
  | cons s rest ih =>
    rw [List.map_cons, List.sum_cons] at room
    obtain ⟨zero, zero'⟩ := List.forall_mem_cons.1 zero
    have own : ∀ l ∈ s.label?, l ∈ (s :: rest).filterMap Stmt.label? :=
      fun l stands => List.mem_filterMap.2 ⟨s, List.mem_cons_self, stands⟩
    have part := (List.sublist_cons_self s rest).filterMap Stmt.label?
    obtain ⟨e, first, packed, small⟩ := stmt_ok packed zero (by omega)
      (fun op n same => inline op n (same ▸ List.mem_cons_self))
      (fun t l same => test t l (same ▸ List.mem_cons_self)) fun l stands => fresh l (own l stands)
    obtain ⟨filled, -, adds⟩ := stmt_adds filled first
    have fresh' : ∀ l ∈ rest.filterMap Stmt.label?, e.labels.find? l = none := by
      intro l listed
      apply Option.eq_none_iff_forall_ne_some.2
      intro a found
      rcases ((adds e.strings (.refl _)).labels l a).1 found with old | ⟨rfl, -⟩
      · rw [fresh l (part.subset listed)] at old
        cases old
      · exact (List.nodup_cons.1 distinct).1 listed
    obtain ⟨d', run⟩ := ih filled packed zero' (by omega) (fun op n listed =>
      inline op n (List.mem_cons_of_mem s listed))
      (fun t l listed => test t l (List.mem_cons_of_mem s listed)) (distinct.sublist part) fresh'
    exact ⟨d', (congrArg (· >>= _) first).trans run⟩

/-- Labels that have an address are put in. -/
lemma resolve_ok {labels : Table String Nat} {fixups words}
    (bound : ∀ x ∈ fixups, (labels.find? x.2).isSome) :
    ∃ words', resolve labels fixups words = .ok words' := by
  induction fixups generalizing words with
  | nil => exact ⟨words, rfl⟩
  | cons x fixups ih =>
    obtain ⟨first, later⟩ := List.forall_mem_cons.1 bound
    obtain ⟨a, found⟩ := Option.isSome_iff_exists.1 first
    rw [resolve, found]
    exact ih later

end Draft

/-- A program is assembled unless there is a reason why it cannot be. -/
lemma Assemblable.assemble {program} (able : Assemblable program) (name : String) :
    ∃ image notes, assemble name program = .ok (image, notes) := by
  obtain ⟨d, drafted⟩ := Draft.stmts_ok (d := {}) Strings.filled_empty (Nat.le_refl 0) able.zero
    ((Nat.zero_add _).symm ▸ able.room) able.inline able.test able.distinct fun _ _ => rfl
  have holds := Draft.holds_of_stmts drafted
  have bound : ∀ x ∈ d.fixups.reverse, (d.labels.find? x.2).isSome := by
    intro x listed
    rw [holds.fixups] at listed
    obtain ⟨⟨before, s⟩, stands, fixup⟩ := List.mem_filterMap.1 listed
    obtain ⟨middle, after, split, -⟩ := Stmt.mem_inContext.1 stands
    have jumps : s.target? = some x.2 := by
      cases s with
      | jump | branch =>
        cases fixup
        rfl
      | _ => cases fixup
    have target := able.bound s (split ▸ List.mem_append_right _ List.mem_cons_self) x.2 jumps
    obtain ⟨before', after', split'⟩ := List.append_of_mem target
    have place := (holds.labels x.2 _).2 ⟨before',
      Stmt.mem_inContext.2 ⟨before', after', split', rfl⟩, rfl⟩
    exact Option.isSome_iff_exists.2 ⟨_, place⟩
  obtain ⟨words, resolved⟩ := Draft.resolve_ok bound
  have finished : d.finish name = .ok _ := congrArg (· >>= _) resolved
  have whole : FiberVM.assemble name program =
      (d.finish name >>= fun image => .ok (image, d.notes.reverse)) :=
    congrArg (· >>= _) drafted
  exact ⟨_, _, whole.trans (congrArg (· >>= _) finished)⟩

end FiberVM
