import Mathlib.Data.List.Basic
import FiberVM.Image.Strings

/-!
# Strings that are read back

A string can be read at an index if its bytes stand at the offset of the index, up to the first zero
byte (`Strings.Reads`). Strings that are added stand after all others, so what could be read before
is read as before. In a table to which strings were only added every index is that of a string
(`Strings.Filled`), and so the first index of a string stays its first index.
-/

namespace FiberVM.Strings

variable {t t' : Strings} {s : String} {index start : Nat} {blob bytes : Array UInt8}

/-! ## Bytes and characters -/

/-- Only what encodes a string is decoded. -/
@[simp] lemma decode?_eq_some_iff : decode? bytes = some s ↔ bytes = encode s := by
  unfold decode? String.fromUTF8? encode String.toUTF8
  constructor
  · intro decoded
    split at decoded
    case isTrue valid =>
      cases decoded
      rfl
    case isFalse => cases decoded
  · rintro rfl
    rw [dif_pos s.isValidUTF8]
    rfl

/-- Only the character zero has a byte that is zero. -/
private lemma eq_zero_of_mem_utf8EncodeChar {c} (zero : 0 ∈ String.utf8EncodeChar c) :
    c = Char.ofNat 0 := by
  -- all bytes of a longer encoding are at least 128
  have high : ∀ n, n % 256 ≠ 0 → (0 : UInt8) ≠ UInt8.ofNat n := by
    intro n nonzero same
    exact nonzero (by simpa using (congrArg UInt8.toNat same).symm)
  unfold String.utf8EncodeChar at zero
  dsimp only at zero
  have small := c.val.toNat_lt
  split at zero
  case isTrue short =>
    have same := List.mem_singleton.1 zero
    have value : c.val.toNat = 0 := by
      by_contra nonzero
      exact high c.val.toNat (by omega) same
    exact Char.ext (UInt32.toNat_inj.1 value)
  case isFalse =>
    exfalso
    split at zero
    · simp only [List.mem_cons, List.not_mem_nil, or_false] at zero
      rcases zero with same | same <;> exact high _ (by omega) same
    split at zero
    · simp only [List.mem_cons, List.not_mem_nil, or_false] at zero
      rcases zero with same | same | same <;> exact high _ (by omega) same
    · simp only [List.mem_cons, List.not_mem_nil, or_false] at zero
      rcases zero with same | same | same | same <;> exact high _ (by omega) same

lemma toList_encode (s : String) : (encode s).toList = s.toList.flatMap String.utf8EncodeChar := by
  have same := congrArg (fun bytes : ByteArray => bytes.data.toList)
      (String.utf8Encode_toList (b := s))
  simpa [List.utf8Encode, encode, String.toUTF8] using same.symm

lemma zero_not_mem_encode (without : Char.ofNat 0 ∉ s.toList) :
    (0 : UInt8) ∉ (encode s).toList := by
  intro zero
  rw [toList_encode] at zero
  obtain ⟨c, inside, zero⟩ := List.mem_flatMap.1 zero
  exact without (eq_zero_of_mem_utf8EncodeChar zero ▸ inside)

/-! ## Reading -/

/-- The bytes of a text stand at the offset of an index. There is no zero byte among them, and one
after them. -/
def Reads (t : Strings) (index : Nat) (s : String) : Prop :=
  ∃ start, t.offsets[index]? = some start ∧ 0 ∉ (encode s).toList ∧
    (encode s).toList ++ [0] <+: t.blob.toList.drop start

/-- The search for a zero finds the first one. -/
private lemma zeroWithin?_eq (rest : List UInt8) (here : blob.toList.drop start = rest) :
    zeroWithin? blob start rest.length = (rest.findIdx? (· = 0)).map (start + ·) := by
  induction rest generalizing start with
  | nil => rfl
  | cons b rest ih =>
    have first : blob[start]? = some b := by
      have found := congrArg (·[0]?) here
      rwa [List.getElem?_drop, Nat.add_zero, Array.getElem?_toList] at found
    have left : blob.toList.drop (start + 1) = rest := by
      rw [← List.drop_drop, here]
      rfl
    rw [List.length_cons, zeroWithin?, first]
    dsimp only
    by_cases zero : b = 0
    · simp [List.findIdx?_cons, zero]
    · rw [if_neg zero, ih left, List.findIdx?_cons, if_neg (by simpa using zero), Option.map_map]
      congr 1
      funext k
      exact Nat.add_right_comm start 1 k

/-- The first zero byte is looked for in what is left of the bytes. -/
private lemma zeroFrom?_eq (blob : Array UInt8) (start : Nat) :
    zeroFrom? blob start = ((blob.toList.drop start).findIdx? (· = 0)).map (start + ·) := by
  have found : zeroWithin? blob start _ = _ := zeroWithin?_eq _ rfl
  rwa [List.length_drop, Array.length_toList] at found

/-- Bytes up to the first zero byte. -/
private lemma findIdx?_zero_iff {bytes rest : List UInt8} :
    (rest.findIdx? (· = 0) = some bytes.length ∧ rest.take bytes.length = bytes) ↔
      0 ∉ bytes ∧ bytes ++ [0] <+: rest := by
  constructor
  · rintro ⟨found, taken⟩
    obtain ⟨within, zero, before⟩ := List.findIdx?_eq_some_iff_getElem.1 found
    refine ⟨fun inside => ?_, ?_⟩
    · obtain ⟨k, small, same⟩ := List.getElem_of_mem inside
      have nonzero := before k small
      have there : rest[k] = bytes[k] := by
        conv_rhs => rw [List.getElem_of_eq taken.symm small]
        rw [List.getElem_take]
      rw [there, same] at nonzero
      simp at nonzero
    · have last : rest[bytes.length] = 0 := by simpa using zero
      have split : rest.take (bytes.length + 1) = bytes ++ [0] := by
        rw [List.take_succ_eq_append_getElem within, taken, last]
      exact split ▸ List.take_prefix _ _
  · rintro ⟨without, tail, rfl⟩
    have passed : bytes.findIdx? (· = 0) = none := by
      rw [List.findIdx?_eq_none_iff]
      intro b inside
      have nonzero : b ≠ 0 := fun zero => without (zero ▸ inside)
      simpa using nonzero
    refine ⟨?_, ?_⟩
    · rw [List.append_assoc, List.findIdx?_append, passed]
      simp [List.findIdx?_cons]
    · rw [List.append_assoc, List.take_left]

/-- What is read at an index is the text that stands there. -/
lemma get?_eq_some_iff : t.get? index = some s ↔ t.Reads index s := by
  have parts : t.get? index = some s ↔ ∃ start, t.offsets[index]? = some start ∧
      ∃ n, (t.blob.toList.drop start).findIdx? (· = 0) = some n ∧
        (t.blob.toList.drop start).take n = (encode s).toList := by
    unfold get?
    simp only [Option.bind_eq_bind, Option.bind_eq_some_iff, zeroFrom?_eq, Option.map_eq_some_iff,
      decode?_eq_some_iff]
    refine exists_congr fun start => and_congr_right fun _ => ?_
    constructor
    · rintro ⟨_, ⟨n, found, rfl⟩, cut⟩
      refine ⟨n, found, ?_⟩
      rw [← cut, Array.toList_extract, List.extract_eq_take_drop, Nat.add_sub_cancel_left]
    · rintro ⟨n, found, cut⟩
      refine ⟨start + n, ⟨n, found, rfl⟩, ?_⟩
      apply Array.toList_inj.1
      rw [← cut, Array.toList_extract, List.extract_eq_take_drop, Nat.add_sub_cancel_left]
  rw [parts]
  refine exists_congr fun start => and_congr_right fun _ => ?_
  rw [← findIdx?_zero_iff]
  constructor
  · rintro ⟨n, found, cut⟩
    have within := (List.findIdx?_eq_some_iff_getElem.1 found).1
    have length : (encode s).toList.length = n := by
      rw [← cut, List.length_take, Nat.min_eq_left (Nat.le_of_lt within)]
    rw [length]
    exact ⟨found, cut⟩
  · rintro ⟨found, cut⟩
    exact ⟨_, found, cut⟩

lemma Reads.unique {s'} (reads : t.Reads index s) (reads' : t.Reads index s') :
    s = s' := by
  have same := (get?_eq_some_iff.2 reads).symm.trans (get?_eq_some_iff.2 reads')
  exact Option.some.inj same

lemma get?_eq_none_iff : t.get? index = none ↔ ∀ s, ¬ t.Reads index s := by
  simp only [← get?_eq_some_iff, Option.eq_none_iff_forall_ne_some, ne_eq]

/-! ## Adding strings -/

/-- Strings were added to a table. -/
structure Extends (t t' : Strings) : Prop where
  blob : t.blob.toList <+: t'.blob.toList
  offsets : t.offsets.toList <+: t'.offsets.toList

lemma Extends.refl (t : Strings) : t.Extends t := ⟨List.prefix_refl _, List.prefix_refl _⟩

lemma Extends.trans {t''} (first : t.Extends t') (next : t'.Extends t'') :
    t.Extends t'' :=
  ⟨first.blob.trans next.blob, first.offsets.trans next.offsets⟩

/-- What can be read stays where it is. -/
lemma Reads.extend (reads : t.Reads index s) (extends' : t.Extends t') : t'.Reads index s := by
  obtain ⟨start, offset, without, standing⟩ := reads
  refine ⟨start, ?_, without, ?_⟩
  · obtain ⟨more, whole⟩ := extends'.offsets
    rw [← Array.getElem?_toList] at offset ⊢
    rw [← whole, List.getElem?_append_left (List.getElem?_eq_some_iff.1 offset).1]
    exact offset
  · obtain ⟨more, whole⟩ := extends'.blob
    rw [← whole, List.drop_append]
    exact standing.trans (List.prefix_append _ _)

/-- Every index is that of a string. -/
def Filled (t : Strings) : Prop := ∀ index < t.size, ∃ s, t.Reads index s

lemma filled_empty : Filled {} := fun _ few => absurd few (Nat.not_lt_zero _)

/-- The least index of a string is found. -/
lemma find?_eq_some_iff : t.find? s = some index ↔
    index < min t.size Word.indexCount ∧ t.Reads index s ∧ ∀ k < index, ¬ t.Reads k s := by
  unfold find?
  rw [List.find?_range_eq_some]
  simp only [decide_eq_true_eq, List.mem_range, Bool.not_eq_eq_eq_not, Bool.not_true,
    decide_eq_false_iff_not, get?_eq_some_iff]
  constructor
  · rintro ⟨reads, few, before⟩
    exact ⟨few, reads, before⟩
  · rintro ⟨few, reads, before⟩
    exact ⟨reads, few, before⟩

lemma find?_eq_none_iff : t.find? s = none ↔ ∀ k < min t.size Word.indexCount, ¬ t.Reads k s := by
  unfold find?
  rw [List.find?_eq_none]
  simp only [List.mem_range, decide_eq_true_eq, get?_eq_some_iff]

/-- A string is found where it was found. -/
lemma Filled.find?_extend (filled : t.Filled) (extends' : t.Extends t')
    (found : t.find? s = some index) :
    t'.find? s = some index := by
  obtain ⟨few, reads, before⟩ := find?_eq_some_iff.1 found
  have more : t.size ≤ t'.size := by
    have longer := extends'.offsets.length_le
    rwa [Array.length_toList, Array.length_toList] at longer
  refine find?_eq_some_iff.2 ⟨by omega, reads.extend extends', fun k smaller reads' => ?_⟩
  obtain ⟨s', own⟩ := filled k (by omega)
  exact before k smaller ((own.extend extends').unique reads' ▸ own)

/-- The table with one string more. -/
def add (t : Strings) (s : String) : Strings :=
  ⟨(t.blob ++ encode s).push 0, t.offsets.push t.blob.size⟩

lemma size_add (t : Strings) (s : String) : (t.add s).size = t.size + 1 := Array.size_push _

lemma toList_blob_add (t : Strings) (s : String) :
    (t.add s).blob.toList = t.blob.toList ++ ((encode s).toList ++ [0]) := by
  simp [add]

lemma extends_add (t : Strings) (s : String) : t.Extends (t.add s) := by
  refine ⟨toList_blob_add t s ▸ List.prefix_append _ _, ?_⟩
  rw [add, Array.toList_push]
  exact List.prefix_append _ _

/-- The string that was added is read at the last index. -/
lemma reads_add (without : Char.ofNat 0 ∉ s.toList) : (t.add s).Reads t.size s := by
  refine ⟨t.blob.size, ?_, zero_not_mem_encode without, ?_⟩
  · simp [add, Strings.size]
  · have written : (t.add s).blob.toList.drop t.blob.size = (encode s).toList ++ [0] := by
      rw [toList_blob_add, ← Array.length_toList, List.drop_left]
    exact written.symm ▸ List.prefix_refl _

lemma not_isFull_iff : ¬ t.isFull ↔ t.blob.size < Word.indexCount ∧ t.size < Word.indexCount := by
  simp only [isFull, Bool.decide_or, Bool.or_eq_true, decide_eq_true_eq, not_or, Nat.not_le]

lemma intern?_of_found (found : t.find? s = some index) : t.intern? s = some (index, t) := by
  rw [Strings.intern?, found]

/-- A missing string is added. -/
lemma intern?_of_missing (missing : t.find? s = none) (without : Char.ofNat 0 ∉ s.toList)
    (room : ¬ t.isFull) :
    t.intern? s = some (t.size, t.add s) := by
  have allowed : ¬ (s.toList.contains (Char.ofNat 0) ∨ t.isFull) := by
    rintro (inside | full)
    · exact without (by simpa using inside)
    · exact room full
  rw [Strings.intern?, missing]
  exact if_neg allowed

/-- A string that is found is there already, and one that is not is added if there is room for
it. -/
lemma intern?_eq_some (interned : t.intern? s = some (index, t')) :
    t.find? s = some index ∧ t' = t ∨
      t.find? s = none ∧ Char.ofNat 0 ∉ s.toList ∧ ¬ t.isFull ∧ index = t.size ∧ t' = t.add s := by
  unfold Strings.intern? at interned
  split at interned
  case h_1 index found =>
    cases interned
    exact .inl ⟨found, rfl⟩
  case h_2 missing =>
    split at interned
    case isTrue => cases interned
    case isFalse allowed =>
      obtain ⟨without, room⟩ := not_or.1 allowed
      cases interned
      exact .inr ⟨missing, by simpa using without, room, rfl, rfl⟩

/-- A string is added, or was there already. -/
lemma Filled.intern? (filled : t.Filled) (interned : t.intern? s = some (index, t')) :
    t'.Filled ∧ t.Extends t' ∧ t'.find? s = some index := by
  obtain ⟨found, rfl⟩ | ⟨missing, without, room, rfl, rfl⟩ := intern?_eq_some interned
  · exact ⟨filled, .refl _, found⟩
  · have size := size_add t s
    have few := (not_isFull_iff.1 room).2
    have own : (t.add s).Reads t.size s := reads_add without
    refine ⟨fun k small => ?_, extends_add t s,
      find?_eq_some_iff.2 ⟨by omega, own, fun k smaller reads => ?_⟩⟩
    · rcases Nat.lt_or_eq_of_le (Nat.le_of_lt_succ (size ▸ small)) with old | rfl
      · obtain ⟨s', reads⟩ := filled k old
        exact ⟨s', reads.extend (extends_add t s)⟩
      · exact ⟨s, own⟩
    · -- an earlier string is another one, since the string was not found
      obtain ⟨s', reads'⟩ := filled k smaller
      obtain rfl := (reads'.extend (extends_add t s)).unique reads
      exact find?_eq_none_iff.1 missing k (by omega) reads'

end FiberVM.Strings
