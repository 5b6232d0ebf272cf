import Mathlib.Data.List.Forall2
import FiberVM.Native.Signature

/-!
# What signatures stand for

A signature is written with one letter for each code and perhaps a star at the end, and stands for
the lists of codes in which the code before the star is taken any number of times
(`Signature.Expands`). A list of values is admitted if its values match the codes of one of these
lists one for one (`Signature.Admits`).

Reading a text and checking a list of values decide exactly this. A list of values has a wrong
number of them if no list of that length is admitted, and otherwise a value of a wrong kind. Asking
for a count decides whether some list of that length is admitted, with one exception: with a star,
there is no answer for the largest word.
-/

namespace FiberVM

namespace TypeCode

variable {code : TypeCode} {c : Char} {k : Kind}

/-- The letter of a code. -/
def letter : TypeCode → Char
  | int => 'i'
  | real => 'r'
  | number => 'n'
  | string => 's'
  | array => 'a'
  | fiber => 'f'
  | condition => 'c'
  | any => '?'

/-- The kinds that a code stands for. -/
def kinds : TypeCode → List Kind
  | int => [.int]
  | real => [.real]
  | number => [.int, .real]
  | string => [.string]
  | array => [.array]
  | fiber => [.fiber]
  | condition => [.condition]
  | any => Kind.all

/-- A value of a kind that the code stands for. -/
def sample : TypeCode → Value
  | int | number => .int 0
  | real => .real .zero
  | string => .string ""
  | array => .array #[]
  | fiber => .fiber ⟨0⟩
  | condition => .condition (.after .zero)
  | any => .nil

lemma ofChar?_eq_some_iff : ofChar? c = some code ↔ c = code.letter := by
  constructor
  · intro read
    unfold ofChar? at read
    split at read <;> cases read <;> rfl
  · rintro rfl
    cases code <;> rfl

lemma ofChar?_letter (code : TypeCode) :
    ofChar? code.letter = some code := ofChar?_eq_some_iff.2 rfl

lemma letter_ne_star (code : TypeCode) : code.letter ≠ '*' := by cases code <;> decide

lemma accepts_iff : code.accepts k ↔ k ∈ code.kinds := by cases code <;> cases k <;> decide

lemma kind_sample (code : TypeCode) : code.sample.kind ∈ code.kinds := by cases code <;> decide

end TypeCode

namespace Signature

variable {s : Signature} {text : String} {codes more : List TypeCode} {rest : List Char}
  {values : List Value} {n : Nat}

/-- How a signature is written. -/
def letters (s : Signature) : List Char :=
  s.codes.map TypeCode.letter ++ if s.variadic then ['*'] else []

/-- A star has a code before it. -/
def Proper (s : Signature) : Prop := s.variadic → s.codes ≠ []

/-- The lists of codes that a signature stands for: with a star, the last code is taken any number
of times. -/
inductive Expands : Signature → List TypeCode → Prop
  | plain (codes : List TypeCode) : Expands ⟨codes, false⟩ codes
  | star (codes : List TypeCode) (last : TypeCode) (n : Nat) :
    Expands ⟨codes ++ [last], true⟩ (codes ++ List.replicate n last)

/-- Values match codes one for one. -/
abbrev Match (codes : List TypeCode) (values : List Value) : Prop :=
  List.Forall₂ (fun code v => v.kind ∈ code.kinds) codes values

/-- Values match one of the lists of codes that a signature stands for. -/
def Admits (s : Signature) (values : List Value) : Prop :=
  ∃ codes, s.Expands codes ∧ Match codes values

/-! ## Reading -/

/-- Letters and perhaps a star are read as their codes, after some codes that were read before. -/
lemma parseFrom_letters {variadic : Bool} (proper : variadic → codes ++ more ≠ []) :
    parseFrom text codes (more.map TypeCode.letter ++ if variadic then ['*'] else []) =
      .ok ⟨codes ++ more, variadic⟩ := by
  induction more generalizing codes with
  | nil =>
    rw [List.append_nil] at proper ⊢
    cases variadic with
    | false => rfl
    | true =>
      have last : ([] : List Char) = [] ∧ codes ≠ [] := ⟨rfl, proper rfl⟩
      exact if_pos last
  | cons code more ih =>
    have split : codes ++ code :: more = (codes ++ [code]) ++ more := by simp
    rw [split] at proper ⊢
    rw [List.map_cons, List.cons_append, parseFrom, if_neg code.letter_ne_star, code.ofChar?_letter]
    exact ih proper

/-- What is read is letters and perhaps a star. -/
lemma letters_of_parseFrom (read : parseFrom text codes rest = .ok s) :
    ∃ more, s.codes = codes ++ more ∧ rest = more.map TypeCode.letter ++
      (if s.variadic then ['*'] else []) ∧ s.Proper := by
  induction rest generalizing codes with
  | nil =>
    cases read
    exact ⟨[], (List.append_nil codes).symm, rfl, nofun⟩
  | cons c rest ih =>
    rw [parseFrom] at read
    split at read
    case isTrue star =>
      split at read
      case isTrue last =>
        cases read
        exact ⟨[], (List.append_nil codes).symm, by rw [star, last.1]; rfl, fun _ => last.2⟩
      case isFalse => cases read
    case isFalse =>
      split at read
      case h_1 => cases read
      case h_2 code known =>
        obtain ⟨more, same, written, proper⟩ := ih read
        refine ⟨code :: more, by simpa using same, ?_, proper⟩
        rw [TypeCode.ofChar?_eq_some_iff.1 known, written]
        rfl

/-- A text is read as the signature that is written so. -/
lemma parse_eq_ok_iff : parse text = .ok s ↔ text.toList = s.letters ∧ s.Proper := by
  constructor
  · intro read
    obtain ⟨more, same, written, proper⟩ := letters_of_parseFrom read
    cases same
    exact ⟨written, proper⟩
  · rintro ⟨written, proper⟩
    rw [parse, written]
    exact parseFrom_letters proper

/-! ## Numbers of values -/

/-- For each list of codes there are values that match. -/
lemma match_sample (codes : List TypeCode) : Match codes (codes.map TypeCode.sample) := by
  induction codes with
  | nil => exact .nil
  | cons code codes ih => exact .cons code.kind_sample ih

/-- A number fits if the signature stands for a list of so many codes. -/
lemma fits_iff (proper : s.Proper) : s.fits n ↔ ∃ codes, s.Expands codes ∧ codes.length = n := by
  obtain ⟨codes, variadic⟩ := s
  cases variadic with
  | false =>
    simp only [fits, Bool.false_eq_true, if_false, decide_eq_true_eq]
    constructor
    · rintro rfl
      exact ⟨codes, .plain codes, rfl⟩
    · rintro ⟨_, expands, rfl⟩
      cases expands
      rfl
  | true =>
    simp only [fits, if_true, decide_eq_true_eq]
    constructor
    · intro enough
      obtain rfl | ⟨init, last, rfl⟩ := List.eq_nil_or_concat' codes
      · exact absurd rfl (proper rfl)
      · rw [List.length_append, List.length_singleton] at enough
        refine ⟨init ++ List.replicate (n - init.length) last, .star .., ?_⟩
        rw [List.length_append, List.length_replicate]
        omega
    · rintro ⟨_, expands, rfl⟩
      cases expands
      simp only [List.length_append, List.length_singleton]
      omega

lemma Admits.fits (proper : s.Proper) (admits : s.Admits values) : s.fits values.length := by
  obtain ⟨codes, expands, matched⟩ := admits
  exact (fits_iff proper).2 ⟨codes, expands, matched.length_eq⟩

/-- A number fits if a list of so many values is admitted. -/
lemma fits_iff_admits (proper : s.Proper) :
    s.fits n ↔ ∃ values, values.length = n ∧ s.Admits values := by
  constructor
  · intro fits
    obtain ⟨codes, expands, rfl⟩ := (fits_iff proper).1 fits
    exact ⟨codes.map TypeCode.sample, List.length_map _, codes, expands, match_sample codes⟩
  · rintro ⟨values, rfl, admits⟩
    exact admits.fits proper

/-- With a star the largest word cannot be judged; any other word is accepted if a list of so many
values is admitted. -/
lemma acceptsCount_iff (proper : s.Proper) (n : UInt64) :
    (s.acceptsCount n = .error .noSuccessor ↔ s.variadic ∧ n + 1 = 0) ∧
      ∀ b, s.acceptsCount n = .ok b ↔ ¬ (s.variadic ∧ n + 1 = 0) ∧
        (b = true ↔ ∃ values : List Value, values.length = n.toNat ∧ s.Admits values) := by
  rw [acceptsCount, ← fits_iff_admits proper]
  by_cases last : s.variadic ∧ n + 1 = 0
  · rw [if_pos last]
    exact ⟨iff_of_true rfl last, fun b => iff_of_false (by nofun) fun other => other.1 last⟩
  · rw [if_neg last]
    refine ⟨iff_of_false (by nofun) last, fun b => ?_⟩
    rw [Except.ok.injEq, and_iff_right last, eq_comm, Bool.eq_iff_iff]

/-! ## Kinds of values -/

/-- The code for a place in a list of values is that of the list of codes with the same length. -/
lemma codeAt?_of_expands (expands : s.Expands codes) {i} (small : i < codes.length) :
    s.codeAt? i = codes[i]? := by
  cases expands with
  | plain =>
    rw [codeAt?]
    simp only [List.getElem?_eq_getElem small]
    rfl
  | star codes last n =>
    rw [codeAt?]
    simp only [List.getLast?_append, List.getLast?_singleton]
    rcases Nat.lt_trichotomy i codes.length with before | rfl | after
    · rw [List.getElem?_append_left before, List.getElem?_append_left before,
        List.getElem?_eq_getElem before]
      rfl
    · rw [List.length_append, List.length_replicate] at small
      rw [List.getElem?_concat_length, List.getElem?_append_right (Nat.le_refl _), Nat.sub_self,
        List.getElem?_replicate, if_pos (by omega)]
      rfl
    · rw [List.length_append, List.length_replicate] at small
      rw [List.getElem?_eq_none (by simp; omega), List.getElem?_append_right (Nat.le_of_lt after),
        List.getElem?_replicate, if_pos (by omega)]
      rfl

/-- Values match codes if each of them matches the code in its place. -/
lemma match_iff : Match codes values ↔ codes.length = values.length ∧
    ∀ (i : Nat) (code : TypeCode) (v : Value), codes[i]? = some code → values[i]? = some v →
      v.kind ∈ code.kinds := by
  rw [Match, List.forall₂_iff_get]
  refine and_congr_right fun length =>
    ⟨fun all i code v here there => ?_, fun all i within within' => ?_⟩
  · obtain ⟨within, rfl⟩ := List.getElem?_eq_some_iff.1 here
    obtain ⟨within', rfl⟩ := List.getElem?_eq_some_iff.1 there
    exact all i within within'
  · exact all i _ _ (List.getElem?_eq_getElem within) (List.getElem?_eq_getElem within')

/-- If the number of values fits, a value of a wrong kind is the only fault. -/
lemma fault?_of_expands (expands : s.Expands codes) (length : codes.length = values.length)
    (fits : s.fits values.length) :
    Match codes values ∧ s.fault? values = none ∨
      ¬ Match codes values ∧ s.fault? values = some .unexpectedArgument := by
  have place : ∀ {v i}, (v, i) ∈ values.zipIdx → ∃ code, s.codeAt? i = some code ∧
      codes[i]? = some code := by
    intro v i listed
    have found : values[i]? = some v := List.mem_zipIdx_iff_getElem?.1 listed
    have small : i < codes.length := length ▸ (List.getElem?_eq_some_iff.1 found).1
    rw [codeAt?_of_expands expands small, List.getElem?_eq_getElem small]
    exact ⟨_, rfl, rfl⟩
  rw [fault?, fits, Bool.not_true, if_neg Bool.false_ne_true]
  by_cases matched : Match codes values
  · refine .inl ⟨matched, List.findSome?_eq_none_iff.2 ?_⟩
    rintro ⟨v, i⟩ listed
    obtain ⟨code, here, same⟩ := place listed
    have kind := (match_iff.1 matched).2 i code v same (List.mem_zipIdx_iff_getElem?.1 listed)
    dsimp only
    rw [here]
    exact if_pos (TypeCode.accepts_iff.2 kind)
  · refine .inr ⟨matched, ?_⟩
    cases found : values.zipIdx.findSome? _ with
    | none =>
      -- Without a fault each value matches, and so do all of them.
      refine absurd (match_iff.2 ⟨length, fun i code v same there => ?_⟩) matched
      have listed : (v, i) ∈ values.zipIdx := List.mem_zipIdx_iff_getElem?.2 there
      have fine := List.findSome?_eq_none_iff.1 found (v, i) listed
      obtain ⟨code', here, same'⟩ := place listed
      cases same.symm.trans same'
      dsimp only at fine
      rw [here] at fine
      by_contra other
      cases (if_neg (mt TypeCode.accepts_iff.1 other)).symm.trans fine
    | some fault =>
      obtain ⟨⟨v, i⟩, listed, wrong⟩ := List.exists_of_findSome?_eq_some found
      obtain ⟨code, here, -⟩ := place listed
      dsimp only at wrong
      rw [here] at wrong
      by_cases kind : code.accepts v.kind
      · cases (if_pos kind).symm.trans wrong
      · exact wrong.symm.trans (if_neg kind)

lemma fault?_of_not_fits (misfits : ¬ s.fits values.length) :
    s.fault? values = some .incorrectNumberOfArguments := by
  rw [fault?, Bool.eq_false_iff.2 misfits]
  rfl

/-- A signature stands for one list of codes of each length at most. -/
lemma Expands.unique {codes' : List TypeCode} (expands : s.Expands codes)
    (expands' : s.Expands codes') (length : codes.length = codes'.length) : codes = codes' := by
  refine List.ext_getElem? fun i => ?_
  by_cases small : i < codes.length
  · rw [← codeAt?_of_expands expands small, ← codeAt?_of_expands expands' (length ▸ small)]
  · rw [List.getElem?_eq_none (Nat.le_of_not_lt small),
      List.getElem?_eq_none (length ▸ Nat.le_of_not_lt small)]

/-! ## Checking -/

/-- A list of values is admitted, or its number does not fit, or one of its values is of a wrong
kind. -/
lemma fault?_cases (proper : s.Proper) (values : List Value) :
    s.Admits values ∧ s.fault? values = none ∨
      ¬ s.fits values.length ∧ s.fault? values = some .incorrectNumberOfArguments ∨
      s.fits values.length ∧ ¬ s.Admits values ∧ s.fault? values = some .unexpectedArgument := by
  by_cases fits : s.fits values.length
  · obtain ⟨codes, expands, length⟩ := (fits_iff proper).1 fits
    rcases fault?_of_expands expands length fits with ⟨matched, fine⟩ | ⟨unmatched, wrong⟩
    · exact .inl ⟨⟨codes, expands, matched⟩, fine⟩
    · refine .inr (.inr ⟨fits, ?_, wrong⟩)
      rintro ⟨codes', expands', matched⟩
      obtain rfl := expands.unique expands' (length.trans matched.length_eq.symm)
      exact unmatched matched
  · exact .inr (.inl ⟨fits, fault?_of_not_fits fits⟩)

/-- The letters of codes make a signature, and so do they with a star, if there are any. -/
lemma exists_parse_iff {text} :
    (∃ s, parse text = .ok s) ↔ ∃ codes : List TypeCode,
      text.toList = codes.map TypeCode.letter ∨ codes ≠ [] ∧
        text.toList = codes.map TypeCode.letter ++ ['*'] := by
  simp only [parse_eq_ok_iff]
  constructor
  · rintro ⟨⟨codes, variadic⟩, written, proper⟩
    cases variadic with
    | false => exact ⟨codes, .inl (written.trans (List.append_nil _))⟩
    | true => exact ⟨codes, .inr ⟨proper rfl, written⟩⟩
  · rintro ⟨codes, written | ⟨some_code, written⟩⟩
    · exact ⟨⟨codes, false⟩, written.trans (List.append_nil _).symm, fun star =>
        absurd star Bool.false_ne_true⟩
    · exact ⟨⟨codes, true⟩, written, fun _ => some_code⟩

/-- The fault of some values says whether they are admitted, and if not, whether others in their
place would be. -/
lemma fault?_iff {s : Signature} (proper : s.Proper) (values : List Value) :
    (s.fault? values = none ↔ s.Admits values) ∧
      (s.fault? values = some .incorrectNumberOfArguments ↔
        ∀ others : List Value, others.length = values.length → ¬ s.Admits others) ∧
      (s.fault? values = some .unexpectedArgument ↔
        ¬ s.Admits values ∧ ∃ others : List Value, others.length = values.length ∧
          s.Admits others) := by
  have others : s.fits values.length ↔ ∃ others : List Value, others.length = values.length ∧
      s.Admits others :=
    fits_iff_admits proper
  have none_fits : ¬ s.fits values.length ↔
      ∀ others : List Value, others.length = values.length → ¬ s.Admits others := by
    rw [others]
    exact ⟨fun none_admitted list length admits => none_admitted ⟨list, length, admits⟩,
      fun none_admitted ⟨list, length, admits⟩ => none_admitted list length admits⟩
  rw [← others, ← none_fits]
  rcases fault?_cases proper values with ⟨admits, fine⟩ | ⟨misfits, wrong⟩ |
    ⟨fits, unmatched, wrong⟩
  · have fits := admits.fits proper
    rw [fine]
    simp [admits, fits]
  · have unmatched : ¬ s.Admits values := fun admits => misfits (admits.fits proper)
    rw [wrong]
    simp [misfits, unmatched]
  · rw [wrong]
    simp [fits, unmatched]

/-- A text is a signature if it consists of letters of codes, perhaps with a star after them. A list
of values has no fault if the signature admits it, a wrong number if no list of its length is
admitted, and a value of a wrong kind in all other cases. A count is accepted or refused according
to whether some list of that length is admitted, unless the signature has a star and the count is
the largest word: then there is no answer. -/
theorem signatures_denote (text : String) :
    ((∃ s, parse text = .ok s) ↔ ∃ codes : List TypeCode,
      text.toList = codes.map TypeCode.letter ∨
        codes ≠ [] ∧ text.toList = codes.map TypeCode.letter ++ ['*']) ∧
    ∀ s : Signature, parse text = .ok s →
      text.toList = s.letters ∧
      (∀ values : List Value, (s.fault? values = none ↔ s.Admits values) ∧
        (s.fault? values = some .incorrectNumberOfArguments ↔
          ∀ others : List Value, others.length = values.length → ¬ s.Admits others) ∧
        (s.fault? values = some .unexpectedArgument ↔
          ¬ s.Admits values ∧
            ∃ others : List Value, others.length = values.length ∧ s.Admits others)) ∧
      ∀ n : UInt64, (s.acceptsCount n = .error .noSuccessor ↔ s.variadic ∧ n + 1 = 0) ∧
        ∀ b, s.acceptsCount n = .ok b ↔ ¬ (s.variadic ∧ n + 1 = 0) ∧
          (b = true ↔ ∃ values : List Value, values.length = n.toNat ∧ s.Admits values) := by
  refine ⟨exists_parse_iff, fun s read => ?_⟩
  obtain ⟨written, proper⟩ := parse_eq_ok_iff.1 read
  exact ⟨written, fault?_iff proper, acceptsCount_iff proper⟩

/-- A string and then any number of numbers. -/
theorem signatures_denote_labelled :
    parse "sn*" = .ok ⟨[.string, .number], true⟩ ∧
      Admits ⟨[.string, .number], true⟩ [.string "sum", .int 1, .real .zero] ∧
      Admits ⟨[.string, .number], true⟩ [.string "none"] ∧
      (∀ others : List Value, others.length = 0 → ¬ Admits ⟨[.string, .number], true⟩ others) ∧
      acceptsCount ⟨[.string, .number], true⟩ 18446744073709551614 = .ok true ∧
      acceptsCount ⟨[.string, .number], true⟩ 18446744073709551615 = .error .noSuccessor := by
  have read : parse "sn*" = .ok ⟨[.string, .number], true⟩ := by decide
  obtain ⟨-, checked, counted⟩ := (signatures_denote "sn*").2 _ read
  have many : ∃ values : List Value, values.length = 18446744073709551614 ∧
      Admits ⟨[.string, .number], true⟩ values :=
    (fits_iff_admits fun _ => List.cons_ne_nil _ _).1 (by decide)
  exact ⟨read, (checked _).1.1 (by decide), (checked _).1.1 (by decide),
    (checked []).2.1.1 (by decide), ((counted _).2 true).2 ⟨by decide, iff_of_true rfl many⟩,
    (counted _).1.2 (by decide)⟩

/-- With a star any number of values is admitted, but there is no answer for the largest word. -/
theorem largest_count_overflows :
    ∃ s, parse "i*" = .ok s ∧ s.acceptsCount 18446744073709551615 = .error .noSuccessor ∧
      ∃ values : List Value, values.length = 18446744073709551615 ∧ s.Admits values := by
  refine ⟨⟨[.int], true⟩, by decide, by decide, ?_⟩
  exact (fits_iff_admits fun _ => List.cons_ne_nil _ _).1 (by decide)

end Signature

end FiberVM
