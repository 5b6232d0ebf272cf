import Mathlib.Algebra.GroupWithZero.Nat
import FiberVM.Proofs.Image.Strings

/-!
# Interned strings

A string that is interned can be read at the index that it gets, and nothing that could be read
before is lost. This holds of any table, also one in which strings have no end or begin in the midst
of others: what is added may even complete a string that had no end, and so the first index of the
string need not be the one that it gets.

If every index is that of a string, the first index of a string is the one that it gets. In a table
to which strings are added one after the other, strings are numbered in the order of their first
occurrence (`Strings.Lists`).
-/

namespace FiberVM.Strings

variable {t t' : Strings} {s : String} {index : Nat} {names seen rest : List String}

/-- With a string that it does not have yet, a table has no more bytes and strings than can be
numbered. -/
def Fits (t : Strings) (s : String) : Prop :=
  t.find? s = none → t.blob.size + (encode s).size + 1 ≤ Word.indexCount ∧
    t.size + 1 ≤ Word.indexCount

/-! ## One string -/

/-- A string that fits is interned. -/
lemma exists_intern? (without : Char.ofNat 0 ∉ s.toList) (fits : t.Fits s) :
    ∃ index t', t.intern? s = some (index, t') := by
  cases found : t.find? s with
  | some index => exact ⟨index, t, intern?_of_found found⟩
  | none =>
    obtain ⟨bytes, few⟩ := fits found
    exact ⟨t.size, t.add s,
      intern?_of_missing found without (not_isFull_iff.2 ⟨by omega, by omega⟩)⟩

lemma extends_intern? (interned : t.intern? s = some (index, t')) : t.Extends t' := by
  obtain ⟨-, rfl⟩ | ⟨-, -, -, -, rfl⟩ := intern?_eq_some interned
  · exact .refl _
  · exact extends_add t s

lemma reads_intern? (interned : t.intern? s = some (index, t')) :
    t'.Reads index s ∧ index < min t'.size Word.indexCount := by
  obtain ⟨found, rfl⟩ | ⟨-, without, room, rfl, rfl⟩ := intern?_eq_some interned
  · obtain ⟨few, reads, -⟩ := find?_eq_some_iff.1 found
    exact ⟨reads, few⟩
  · have few := (not_isFull_iff.1 room).2
    have size := size_add t s
    exact ⟨reads_add without, by omega⟩

/-- A string that can be read has a first index. -/
lemma exists_find? (reads : t.Reads index s) (few : index < min t.size Word.indexCount) :
    ∃ first, t.find? s = some first := by
  cases found : t.find? s with
  | some first => exact ⟨first, rfl⟩
  | none => exact absurd reads (find?_eq_none_iff.1 found index few)

/-! ## Many strings -/

/-- Strings are interned one after the other. -/
def internAll? : Strings → List String → Option (List Nat × Strings)
  | t, [] => some ([], t)
  | t, s :: rest => do
    let (index, t) ← t.intern? s
    let (indices, t) ← internAll? t rest
    return (index :: indices, t)

/-- The number of bytes that strings take. -/
def room (names : List String) : Nat := (names.map fun s => (encode s).size + 1).sum

/-- A table holds some strings in order and nothing else. -/
structure Lists (t : Strings) (names : List String) : Prop where
  size : t.size = names.length
  reads : ∀ index, t.get? index = names[index]?
  bytes : t.blob.size = room names

lemma lists_empty : Lists empty [] := ⟨rfl, fun _ => rfl, rfl⟩

lemma room_append (names names' : List String) :
    room (names ++ names') = room names + room names' := by
  rw [room, List.map_append, List.sum_append]
  rfl

/-- Each string takes at least the byte that ends it. -/
lemma length_le_room (names : List String) : names.length ≤ room names := by
  induction names with
  | nil => exact Nat.le_refl 0
  | cons s names ih =>
    have first : room (s :: names) = (encode s).size + 1 + room names := List.sum_cons
    rw [List.length_cons, first]
    omega

namespace Lists

lemma filled (lists : t.Lists names) : t.Filled := by
  intro k few
  rw [lists.size] at few
  exact ⟨names[k], get?_eq_some_iff.1 (by rw [lists.reads, List.getElem?_eq_getElem few])⟩

/-- A string is found at its first place. -/
lemma find? (lists : t.Lists names) (inside : s ∈ names) (few : names.length ≤ Word.indexCount) :
    t.find? s = some (names.idxOf s) := by
  have small := List.idxOf_lt_length_of_mem inside
  have size := lists.size
  refine find?_eq_some_iff.2 ⟨by omega, get?_eq_some_iff.1 ?_, fun k before reads => ?_⟩
  · rw [lists.reads, List.getElem?_eq_getElem small, List.getElem_idxOf]
  · have found := get?_eq_some_iff.2 reads
    rw [lists.reads] at found
    obtain ⟨within, same⟩ := List.getElem?_eq_some_iff.1 found
    have other : (names[k] == s) = false := List.not_of_lt_findIdx before
    rw [same, beq_self_eq_true] at other
    cases other

lemma find?_eq_none (lists : t.Lists names) (outside : s ∉ names) : t.find? s = none := by
  refine find?_eq_none_iff.2 fun k _ reads => outside ?_
  have found := get?_eq_some_iff.2 reads
  rw [lists.reads] at found
  exact List.mem_of_getElem? found

/-- A string is added at the end. -/
lemma add (lists : t.Lists names) (without : Char.ofNat 0 ∉ s.toList) :
    (t.add s).Lists (names ++ [s]) := by
  refine ⟨?_, fun k => ?_, ?_⟩
  · rw [size_add, lists.size, List.length_append, List.length_singleton]
  · rcases Nat.lt_trichotomy k t.size with old | rfl | later
    · obtain ⟨u, reads⟩ := lists.filled k old
      have before := lists.reads k
      rw [get?_eq_some_iff.2 reads] at before
      rw [get?_eq_some_iff.2 (reads.extend (extends_add t s)),
        List.getElem?_append_left (lists.size ▸ old), before]
    · rw [get?_eq_some_iff.2 (reads_add without), lists.size, List.getElem?_concat_length]
    · have beyond : (t.add s).offsets[k]? = none := by
        rw [Array.getElem?_eq_none_iff]
        change (t.add s).size ≤ k
        rw [size_add]
        exact later
      rw [List.getElem?_eq_none
        (by rw [List.length_append, List.length_singleton, ← lists.size]; exact later),
        Strings.get?, beyond]
      rfl
  · have written := congrArg List.length (toList_blob_add t s)
    rw [Array.length_toList, List.length_append, List.length_append, Array.length_toList,
      Array.length_toList] at written
    rw [room_append, ← lists.bytes, written]
    rfl

/-- The next string gets its place in the order of first occurrence. -/
lemma intern? (lists : t.Lists seen.eraseDups) (without : Char.ofNat 0 ∉ s.toList)
    (fits : room (seen ++ [s]).eraseDups ≤ Word.indexCount) :
    ∃ t', t.intern? s = some ((seen ++ [s]).eraseDups.idxOf s, t') ∧ t'.Lists
      (seen ++ [s]).eraseDups := by
  have few := Nat.le_trans (length_le_room _) fits
  by_cases old : s ∈ seen
  · have same : (seen ++ [s]).eraseDups = seen.eraseDups := by
      rw [List.eraseDups_append]
      simp [List.removeAll, old]
    rw [same] at few ⊢
    exact ⟨t, intern?_of_found (lists.find? (List.mem_eraseDups.2 old) few), lists⟩
  · have more : (seen ++ [s]).eraseDups = seen.eraseDups ++ [s] := by
      rw [List.eraseDups_append]
      simp [List.removeAll, old, List.eraseDups_cons]
    have outside : s ∉ seen.eraseDups := fun inside => old (List.mem_eraseDups.1 inside)
    have first : (seen.eraseDups ++ [s]).idxOf s = t.size := by
      rw [List.idxOf_append_of_notMem outside, List.idxOf_cons_self, Nat.add_zero, lists.size]
    rw [more] at few fits ⊢
    rw [first]
    have room : ¬ t.isFull := by
      rw [room_append, ← lists.bytes] at fits
      rw [List.length_append, ← lists.size] at few
      have own : Strings.room [s] = (encode s).size + 1 := rfl
      have one : [s].length = 1 := rfl
      exact not_isFull_iff.2 ⟨by omega, by omega⟩
    exact ⟨t.add s, intern?_of_missing (lists.find?_eq_none outside) without room,
      lists.add without⟩

/-- Whatever strings were interned before, the next ones get their places. -/
lemma internAll? (rest : List String) (lists : t.Lists seen.eraseDups)
    (without : ∀ s ∈ rest, Char.ofNat 0 ∉ s.toList)
    (fits : room (seen ++ rest).eraseDups ≤ Word.indexCount) :
    ∃ t', t.internAll? rest = some (rest.map (seen ++ rest).eraseDups.idxOf, t') ∧
      t'.Lists (seen ++ rest).eraseDups := by
  induction rest generalizing t seen with
  | nil =>
    rw [List.append_nil]
    exact ⟨t, rfl, lists⟩
  | cons s rest ih =>
    have split : seen ++ s :: rest = (seen ++ [s]) ++ rest := by simp
    have longer : (seen ++ s :: rest).eraseDups =
        (seen ++ [s]).eraseDups ++ (rest.removeAll (seen ++ [s])).eraseDups := by
      rw [split, List.eraseDups_append]
    have inside : s ∈ (seen ++ [s]).eraseDups := List.mem_eraseDups.2 (by simp)
    have place : (seen ++ [s]).eraseDups.idxOf s = (seen ++ s :: rest).eraseDups.idxOf s := by
      rw [longer, List.idxOf_append_of_mem inside]
    obtain ⟨t₁, interned, lists₁⟩ := lists.intern? (without s List.mem_cons_self) (by
      rw [longer, room_append] at fits
      omega)
    obtain ⟨t₂, others, lists₂⟩ :=
      ih lists₁ (fun u later => without u (List.mem_cons_of_mem s later)) (split ▸ fits)
    rw [← split] at others lists₂
    refine ⟨t₂, ?_, lists₂⟩
    rw [Strings.internAll?, interned, place]
    simp only [Option.bind_eq_bind, Option.bind_some, others]
    rfl

end Lists

/-! ## Any tables -/

/-- A string without zero byte that fits into a table is interned, whatever the table holds: it can
be read at the index that it gets, what could be read before is read as before, and the first index
at which it can be read is found. If every index was that of a string, the one that is found is the
one that it gets, also if it is interned again, which changes nothing. Strings that are interned one
after the other into an empty table get the numbers of their first occurrences, and the table holds
each of them once. -/
theorem interned_read_back :
    (∀ (t : Strings) (s : String), Char.ofNat 0 ∉ s.toList → t.Fits s →
      ∃ index t', t.intern? s = some (index, t') ∧ t'.get? index = some s ∧
      (∀ k u, t.get? k = some u → t'.get? k = some u) ∧
      (∃ first, t'.find? s = some first ∧ t'.get? first = some s ∧ ∀ k < first, t'.get? k ≠
        some s) ∧
      ((∀ k < t.size, ∃ u, t.get? k = some u) → t'.find? s = some index ∧
        t'.intern? s = some (index, t'))) ∧
    ∀ names : List String, (∀ s ∈ names, Char.ofNat 0 ∉ s.toList) → room names.eraseDups ≤
      Word.indexCount → ∃ t, empty.internAll? names = some (names.map names.eraseDups.idxOf, t) ∧
        t.size = names.eraseDups.length ∧ ∀ k, t.get? k = names.eraseDups[k]? := by
  refine ⟨fun t s without fits => ?_, fun names without fits => ?_⟩
  · obtain ⟨index, t', interned⟩ := exists_intern? without fits
    obtain ⟨reads, few⟩ := reads_intern? interned
    obtain ⟨first, found⟩ := exists_find? reads few
    obtain ⟨-, reads', before⟩ := find?_eq_some_iff.1 found
    refine ⟨index, t', interned, get?_eq_some_iff.2 reads, fun k u read => ?_, ?_, fun all => ?_⟩
    · exact get?_eq_some_iff.2 ((get?_eq_some_iff.1 read).extend (extends_intern? interned))
    · exact ⟨first, found, get?_eq_some_iff.2 reads', fun k less read =>
        before k less (get?_eq_some_iff.1 read)⟩
    · have filled : t.Filled := fun k small => (all k small).imp fun u read =>
        get?_eq_some_iff.1 read
      have again := (filled.intern? interned).2.2
      exact ⟨again, intern?_of_found again⟩
  · have start : empty.Lists ([] : List String).eraseDups := lists_empty
    obtain ⟨t, interned, lists⟩ := start.internAll? names without fits
    exact ⟨t, interned, lists.size, lists.reads⟩

/-- The third string begins past the end, and the fourth one has no end. -/
def unterminatedStrings : Strings := ⟨#[97, 0, 195], #[0, 1, 9, 3]⟩

/-- What is added also completes the fourth string, which is therefore found instead. -/
theorem interned_read_back_unterminatedStrings :
    Char.ofNat 0 ∉ "x".toList ∧ unterminatedStrings.Fits "x" ∧
      unterminatedStrings.intern? "x" = some (4, unterminatedStrings.add "x") ∧
        (unterminatedStrings.add "x").get? 4 = some "x" ∧
      (unterminatedStrings.add "x").get? 0 = some "a" ∧
        (unterminatedStrings.add "x").find? "x" = some 3 ∧
      ∃ t, empty.internAll? ["b", "", "b", "é"] = some ([0, 1, 0, 2], t) ∧ t.size = 3 ∧
        t.get? 2 = some "é" := by
  have without : Char.ofNat 0 ∉ "x".toList := by decide
  have fits : unterminatedStrings.Fits "x" := fun _ => by decide +kernel
  have computed : unterminatedStrings.intern? "x" = some (4, unterminatedStrings.add "x") := by
    decide +kernel
  obtain ⟨one, many⟩ := interned_read_back
  obtain ⟨index, t, interned, own, kept, -, -⟩ := one unterminatedStrings "x" without fits
  cases interned.symm.trans computed
  obtain ⟨t, all, size, reads⟩ := many ["b", "", "b", "é"] (by decide) (by decide +kernel)
  have numbers : ["b", "", "b", "é"].map ["b", "", "b", "é"].eraseDups.idxOf = [0, 1, 0, 2] := by
    decide
  rw [numbers] at all
  refine ⟨without, fits, computed, own, kept 0 "a" (by decide +kernel), by decide +kernel, t, all,
    ?_, ?_⟩
  · rw [size]
    decide
  · rw [reads]
    decide

end FiberVM.Strings
