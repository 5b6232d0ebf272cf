import FiberVM.Agenda.Timeline
import Mathlib.Data.List.Induction
import Mathlib.Data.List.Perm.Basic
import Mathlib.Data.List.TakeWhile

/-!
# The order of a timeline

While expiries are numbers they grow along a timeline, so the elements that have expired come first.
Halving finds where they end, as does looking at one after the other (`Divides`). Hence a timeline
holds what has arrived and was not taken out since, in the order of the expiries and, among equal
ones, of arrival (`Timeline.Arranged`), whatever is asked of it.
-/

namespace FiberVM

/-! ## Partition points -/

section

variable {α : Type} {p : α → Bool} {l : List α} {n : Nat}

/-- A list is divided after so many elements: those before have a property, and those behind do
not. -/
structure Divides (p : α → Bool) (l : List α) (n : Nat) : Prop where
  le_length : n ≤ l.length
  before : ∀ x ∈ l.take n, p x
  behind : ∀ x ∈ l.drop n, p x = false

namespace Divides

lemma filter_eq (divides : Divides p l n) : l.filter p = l.take n := by
  conv_lhs => rw [← List.take_append_drop n l, List.filter_append]
  rw [List.filter_eq_self.2 divides.before, List.filter_eq_nil_iff.2 fun x later =>
    ?_, List.append_nil]
  rw [divides.behind x later]
  exact Bool.false_ne_true

lemma filter_not_eq (divides : Divides p l n) : l.filter (!p ·) = l.drop n := by
  conv_lhs => rw [← List.take_append_drop n l, List.filter_append]
  rw [List.filter_eq_nil_iff.2 fun x early => ?_, List.filter_eq_self.2 fun x later =>
    ?_, List.nil_append]
  · rw [divides.behind x later]
    rfl
  · rw [divides.before x early]
    exact Bool.false_ne_true

/-- Looking at one element after the other ends at the same place. -/
lemma takeWhile_eq (divides : Divides p l n) : l.takeWhile p = l.take n := by
  conv_lhs => rw [← List.take_append_drop n l, List.takeWhile_append_of_pos divides.before]
  cases rest : l.drop n with
  | nil => rw [List.takeWhile_nil, List.append_nil]
  | cons x later =>
    have missing : p x = false := divides.behind x (rest ▸ List.mem_cons_self)
    rw [List.takeWhile_cons_of_neg (Bool.eq_false_iff.1 missing), List.append_nil]

lemma length_takeWhile (divides : Divides p l n) : (l.takeWhile p).length = n := by
  rw [divides.takeWhile_eq, List.length_take, Nat.min_eq_left divides.le_length]

end Divides

/-- An element with the property has none without it before, and the other way around, so the
element in the middle tells in which half the list is divided. -/
private lemma divides_narrow (ordered : l.Pairwise fun x y => p y → p x) (rounds : Nat) {low high}
    (enough : high ≤ low + rounds) (bounds : low ≤ high) (bounded : high ≤ l.length)
    (before : ∀ x ∈ l.take low, p x) (behind : ∀ x ∈ l.drop high, p x = false) :
    Divides p l (narrow p l rounds low high) := by
  induction rounds generalizing low high with
  | zero =>
    obtain rfl : high = low := Nat.le_antisymm enough bounds
    exact ⟨bounded, before, behind⟩
  | succ rounds ih =>
    rw [narrow]
    split
    case isFalse done =>
      obtain rfl : low = high := Nat.le_antisymm bounds (Nat.le_of_not_lt done)
      exact ⟨bounded, before, behind⟩
    case isTrue more =>
      generalize half : (low + high) / 2 = middle
      have inside : middle < l.length := by omega
      have parts : l = l.take middle ++ l.get ⟨middle, inside⟩ :: l.drop (middle + 1) := by
        rw [List.get_eq_getElem, List.getElem_cons_drop, List.take_append_drop]
      rw [parts, List.pairwise_append, List.pairwise_cons] at ordered
      obtain ⟨-, ⟨ahead, -⟩, across⟩ := ordered
      have looked : l[middle]?.any p = p (l.get ⟨middle, inside⟩) := by
        rw [List.getElem?_eq_getElem inside]
        rfl
      simp only [looked]
      split
      case isTrue has =>
        refine ih (by omega) (by omega) bounded (fun x early => ?_) behind
        rw [List.take_succ_eq_append_getElem inside, List.mem_append, List.mem_singleton] at early
        rcases early with early | rfl
        · exact across x early _ List.mem_cons_self has
        · exact has
      case isFalse hasNot =>
        refine ih (by omega) (by omega) (by omega) before fun x later => ?_
        rw [← List.getElem_cons_drop inside] at later
        rcases List.mem_cons.1 later with rfl | later
        · exact Bool.eq_false_iff.2 hasNot
        · exact Bool.eq_false_iff.2 fun has => hasNot (ahead x later has)

lemma divides_partitionPoint (ordered : l.Pairwise fun x y => p y → p x) :
    Divides p l (partitionPoint p l) := by
  refine divides_narrow ordered l.length (Nat.le_add_left _ _) (Nat.zero_le _) (Nat.le_refl _) ?_ ?_
  · rw [List.take_zero]
    exact fun x none => absurd none List.not_mem_nil
  · rw [List.drop_length]
    exact fun x none => absurd none List.not_mem_nil

end

/-! ## Expiries -/

namespace Binary64

variable {x y : Binary64}

/-- Numbers are equal if each is at most the other. -/
lemma eq_iff_le : x.eq y ↔ x.le y ∧ y.le x := by
  simp only [eq, le, Bool.and_eq_true, Bool.not_eq_true', decide_eq_true_eq]
  constructor
  · rintro ⟨⟨number, number'⟩, same⟩
    exact ⟨⟨⟨number, number'⟩, same ▸ UInt64.le_refl _⟩, ⟨number', number⟩, same ▸ UInt64.le_refl _⟩
  · rintro ⟨⟨⟨number, number'⟩, below⟩, -, above⟩
    exact ⟨⟨number, number'⟩, UInt64.le_antisymm below above⟩

end Binary64

namespace Timeline

variable {t : Timeline} {expiry now : Binary64} {id : ContinuationId}
  {arrived queue : List (Binary64 × ContinuationId)}

/-- What waits is in the order of the expiries, and of arrival where they are equal. -/
structure Arranged (arrived queue : List (Binary64 × ContinuationId)) : Prop where
  sorted : queue.Pairwise fun x y => x.1.le y.1
  /-- What has arrived is there, and nothing else. -/
  perm : queue.Perm arrived
  /-- Equal expiries are in the order of arrival. -/
  stable : ∀ expiry, queue.filter (·.1.eq expiry) = arrived.filter (·.1.eq expiry)

/-- What has expired comes first. -/
lemma divides_reached (sorted : t.queue.Pairwise fun x y => x.1.le y.1) (time : Binary64) :
    Divides (·.1.le time) t.queue (t.reached time) :=
  divides_partitionPoint (sorted.imp fun {_ _} earlier reached => Binary64.le_trans earlier reached)

lemma perm_insert (t : Timeline) (expiry : Binary64) (id : ContinuationId) :
    (t.insert expiry id).queue.Perm ((expiry, id) :: t.queue) := by
  conv_rhs => rw [← List.take_append_drop (t.reached expiry) t.queue]
  exact List.perm_middle

/-- A continuation that is put behind those that expire no later keeps the expiries growing. -/
lemma sorted_insert (sorted : t.queue.Pairwise fun x y => x.1.le y.1)
    (numbers : ∀ x ∈ t.queue, x.1.isNaN = false) (number : expiry.isNaN = false)
    (id : ContinuationId) :
    (t.insert expiry id).queue.Pairwise fun x y => x.1.le y.1 := by
  have divides := divides_reached sorted expiry
  have behind : ∀ x ∈ t.queue.drop (t.reached expiry), expiry.le x.1 := by
    intro x later
    refine (Binary64.le_total number (numbers x (List.mem_of_mem_drop later))).resolve_right ?_
    exact Bool.eq_false_iff.1 (divides.behind x later)
  rw [← List.take_append_drop (t.reached expiry) t.queue, List.pairwise_append] at sorted
  obtain ⟨sorted₁, sorted₂, across⟩ := sorted
  refine List.pairwise_append.2 ⟨sorted₁, List.pairwise_cons.2 ⟨behind, sorted₂⟩,
    fun x early y later => ?_⟩
  rcases List.mem_cons.1 later with rfl | later
  · exact divides.before x early
  · exact across x early y later

/-- A continuation comes behind those with an equal expiry. -/
lemma filter_insert (sorted : t.queue.Pairwise fun x y => x.1.le y.1) (expiry : Binary64)
    (id : ContinuationId) (time : Binary64) :
    (t.insert expiry id).queue.filter (·.1.eq time) = (t.queue ++ [(expiry, id)]).filter
      (·.1.eq time) := by
  conv_rhs => rw [← List.take_append_drop (t.reached expiry) t.queue]
  rw [insert, List.append_assoc, List.filter_append, List.filter_append, List.filter_append]
  apply congrArg
  rw [List.filter_cons, List.filter_cons, List.filter_nil]
  by_cases same : expiry.eq time
  · -- nothing behind the new continuation has its expiry
    have others : (t.queue.drop (t.reached expiry)).filter (·.1.eq time) = [] := by
      refine List.filter_eq_nil_iff.2 fun x later equal => ?_
      have earlier := Binary64.le_trans (Binary64.eq_iff_le.1 equal).1 (Binary64.eq_iff_le.1 same).2
      rw [(divides_reached sorted expiry).behind x later] at earlier
      exact Bool.false_ne_true earlier
    rw [if_pos same, if_pos same, others, List.nil_append]
  · rw [if_neg same, if_neg same, List.append_nil]

namespace Arranged

lemma nil : Arranged [] [] := ⟨.nil, .refl _, fun _ => rfl⟩

/-- An insertion keeps the queue arranged. -/
lemma insert (arranged : Arranged arrived t.queue) (numbers : ∀ x ∈ arrived, x.1.isNaN = false)
    (number : expiry.isNaN = false) (id : ContinuationId) :
    Arranged (arrived ++ [(expiry, id)]) (t.insert expiry id).queue where
  sorted := sorted_insert arranged.sorted (fun x queued => numbers x (arranged.perm.subset queued))
    number id
  perm := ((t.perm_insert expiry id).trans (arranged.perm.cons _)).trans
    (List.perm_append_singleton _ _).symm
  stable time := by
    rw [filter_insert arranged.sorted, List.filter_append, List.filter_append, arranged.stable]

/-- What is left is in order still. -/
lemma filter (arranged : Arranged arrived queue) (keep : Binary64 × ContinuationId → Bool) :
    Arranged (arrived.filter keep) (queue.filter keep) where
  sorted := arranged.sorted.filter keep
  perm := arranged.perm.filter keep
  stable time := by
    rw [List.filter_comm, arranged.stable, List.filter_comm]

/-- The first expiry is the earliest one. -/
lemma next?_eq_some (arranged : Arranged arrived t.queue)
    (numbers : ∀ x ∈ arrived, x.1.isNaN = false) (first : t.next? = some expiry) :
    (∃ id, (expiry, id) ∈ arrived) ∧ ∀ x ∈ arrived, expiry.le x.1 := by
  obtain ⟨entry, head, rfl⟩ := Option.map_eq_some_iff.1 first
  obtain ⟨rest, whole⟩ := List.head?_eq_some_iff.1 head
  have sorted := arranged.sorted
  have listed : entry ∈ arrived := arranged.perm.subset (whole ▸ List.mem_cons_self)
  rw [whole, List.pairwise_cons] at sorted
  refine ⟨⟨entry.2, listed⟩, fun x there => ?_⟩
  have queued := arranged.perm.symm.subset there
  rw [whole] at queued
  rcases List.mem_cons.1 queued with rfl | later
  · exact Binary64.le_refl (numbers _ listed)
  · exact sorted.1 x later

lemma next?_eq_none (arranged : Arranged arrived t.queue) : t.next? = none ↔ arrived = [] := by
  rw [next?, Option.map_eq_none_iff, List.head?_eq_none_iff]
  constructor
  · intro empty
    exact (empty ▸ arranged.perm).nil_eq.symm
  · intro empty
    exact (empty ▸ arranged.perm).eq_nil

end Arranged

/-! ## Whatever is asked of a timeline -/

/-- What can be asked of a timeline. -/
inductive Call where
  | insert (expiry : Binary64) (id : ContinuationId)
  | remove (id : ContinuationId)
  | takeReady (now : Binary64)
  deriving DecidableEq

/-- The timeline after a call. -/
def Call.perform : Call → Timeline → Timeline
  | insert expiry id, t => t.insert expiry id
  | remove id, t => t.remove id
  | takeReady now, t => (t.takeReady now).2

/-- What has arrived and was neither removed nor taken out since, in the order of arrival, after a
call. -/
def Call.record : Call → List (Binary64 × ContinuationId) → List (Binary64 × ContinuationId)
  | insert expiry id, arrived => arrived ++ [(expiry, id)]
  | remove id, arrived => arrived.filter (·.2 ≠ id)
  | takeReady now, arrived => arrived.filter (!·.1.le now)

/-- The timeline after calls, where nothing waited before. -/
def after (calls : List Call) : Timeline := calls.foldl (fun t call => call.perform t) {}

/-- What waits after calls, in the order of arrival. -/
def arrivals (calls : List Call) : List (Binary64 × ContinuationId) :=
  calls.foldl (fun arrived call => call.record arrived) []

/-- Whether a call is not about an expiry that is no number. -/
def Call.isNumber : Call → Bool
  | insert expiry _ => !expiry.isNaN
  | _ => true

/-- What waits is in order after a call if it was so before. -/
lemma Arranged.perform {call : Call} (arranged : Arranged arrived t.queue)
    (numbers : ∀ x ∈ arrived, x.1.isNaN = false) (number : call.isNumber) :
    Arranged (call.record arrived) (call.perform t).queue ∧ ∀ x ∈ call.record arrived,
      x.1.isNaN = false := by
  cases call with
  | insert expiry id =>
    have number : expiry.isNaN = false := (Bool.not_eq_true' _).mp number
    refine ⟨arranged.insert numbers number id, fun x there => ?_⟩
    rcases List.mem_append.1 there with old | new
    · exact numbers x old
    · rw [List.mem_singleton.1 new]
      exact number
  | remove id => exact ⟨arranged.filter _, fun x there => numbers x (List.mem_of_mem_filter there)⟩
  | takeReady now =>
    refine ⟨?_, fun x there => numbers x (List.mem_of_mem_filter there)⟩
    have left := arranged.filter (!·.1.le now)
    rw [(divides_reached arranged.sorted now).filter_not_eq] at left
    exact left

lemma arranged_after {calls} (numbers : ∀ call ∈ calls, call.isNumber) :
    Arranged (arrivals calls) (after calls).queue ∧ ∀ x ∈ arrivals calls, x.1.isNaN = false := by
  induction calls using List.reverseRecOn with
  | nil => exact ⟨.nil, fun x none => absurd none List.not_mem_nil⟩
  | append_singleton calls call ih =>
    obtain ⟨arranged, numbers'⟩ := ih fun c earlier => numbers c (List.mem_append_left _ earlier)
    rw [after, arrivals, List.foldl_append, List.foldl_append]
    exact arranged.perform numbers' (numbers call (List.mem_append_right _ List.mem_cons_self))

/-- Whatever was asked of a timeline, if all expiries were numbers: it takes out exactly what has
arrived, is still there and has expired, in the order of the expiries and of arrival where they are
equal, and leaves the rest. It is always in that order itself, so that halving finds as much as
looking at one after the other, and the first expiry is the earliest. -/
theorem ready_in_order {calls : List Call} (numbers : ∀ call ∈ calls, call.isNumber)
    (now : Binary64) :
    (∃ due, ((after calls).takeReady now).1 = due.map (·.2) ∧
        Arranged ((arrivals calls).filter (·.1.le now)) due) ∧
      Arranged ((arrivals calls).filter (!·.1.le now)) ((after calls).takeReady now).2.queue ∧
      Arranged (arrivals calls) (after calls).queue ∧
      (∀ time, (after calls).reached time = ((after calls).queue.takeWhile (·.1.le time)).length) ∧
      (∀ expiry, (after calls).next? = some expiry →
        (∃ id, (expiry, id) ∈ arrivals calls) ∧ ∀ x ∈ arrivals calls, expiry.le x.1) ∧
      ((after calls).next? = none ↔ arrivals calls = []) := by
  obtain ⟨arranged, numbers'⟩ := arranged_after numbers
  have divides := divides_reached arranged.sorted now
  have due := arranged.filter (·.1.le now)
  have left := arranged.filter (!·.1.le now)
  rw [divides.filter_eq] at due
  rw [divides.filter_not_eq] at left
  refine ⟨⟨_, rfl, due⟩, left, arranged, fun time => ?_, fun expiry =>
    arranged.next?_eq_some numbers',
    arranged.next?_eq_none⟩
  exact (divides_reached arranged.sorted time).length_takeWhile.symm

/-- Two continuations for one second, of which the first is removed and put in again, between an
earlier one that is taken out and a later one. -/
def reinsertedExpiry : List Call :=
  [.insert ⟨0x4000000000000000⟩ ⟨0⟩, .insert ⟨0x3ff0000000000000⟩ ⟨1⟩,
    .insert ⟨0x3ff0000000000000⟩ ⟨2⟩,
    .insert .zero ⟨3⟩, .remove ⟨1⟩, .takeReady .zero, .insert ⟨0x3ff0000000000000⟩ ⟨1⟩]

/-- The one that was put in again comes last of the two, and the later one is left. -/
theorem ready_in_order_reinsertedExpiry :
    (∃ due, [⟨2⟩, ⟨1⟩] = due.map (·.2) ∧
        Arranged [(⟨0x3ff0000000000000⟩, ⟨2⟩), (⟨0x3ff0000000000000⟩, ⟨1⟩)] due) ∧
      Arranged [(⟨0x4000000000000000⟩, ⟨0⟩)]
        ((after reinsertedExpiry).takeReady ⟨0x3ff0000000000000⟩).2.queue := by
  have numbers : ∀ call ∈ reinsertedExpiry, call.isNumber := by decide
  obtain ⟨⟨due, ready, arranged⟩, left, -⟩ := ready_in_order numbers ⟨0x3ff0000000000000⟩
  have taken : ((after reinsertedExpiry).takeReady ⟨0x3ff0000000000000⟩).1 = [⟨2⟩, ⟨1⟩] := by
    decide +kernel
  have early : (arrivals reinsertedExpiry).filter (·.1.le ⟨0x3ff0000000000000⟩) =
      [(⟨0x3ff0000000000000⟩, ⟨2⟩), (⟨0x3ff0000000000000⟩, ⟨1⟩)] := by decide +kernel
  have late : (arrivals reinsertedExpiry).filter (!·.1.le ⟨0x3ff0000000000000⟩) =
      [(⟨0x4000000000000000⟩, ⟨0⟩)] := by
    decide +kernel
  rw [taken] at ready
  rw [early] at arranged
  rw [late] at left
  exact ⟨⟨due, ready, arranged⟩, left⟩

end Timeline

end FiberVM
