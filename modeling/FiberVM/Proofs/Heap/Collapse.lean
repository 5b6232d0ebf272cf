import FiberVM.Proofs.Heap.LifeCycle
import Mathlib.Data.Finset.Basic
import Mathlib.Data.Finset.Dedup
import Mathlib.Data.Finset.Filter
import Mathlib.Data.Multiset.Bind
import Mathlib.Order.Bounds.Basic

/-!
# What a release drops

A value that is given up gives up the references nested in it, and a cell whose last strong
reference is given up drops its value, which is given up in turn. The values that are dropped are
those of the least set of cells that holds every cell all of whose references are nested in the
values given up (`Heap.Closed`), also if cells refer to each other in a circle, if a reference is
nested more than once or if its cell was freed before.

The order in which references are given up does not matter, since what is left of a cell depends
only on their number (`Cell.reduce`). While values wait, the attempts made so far say what the heap
looks like (`Heap.Collapsing`).
-/

namespace FiberVM

/-- What is left of a cell that drops its value. -/
def Cell.hollow? (c : Cell) : Option Cell :=
  if c.weak = 0 then none else some { c with value := none, strong := 0 }

/-- What is left of a cell after so many attempts to give up a strong reference to it. -/
def Cell.reduce (n : Nat) (c : Cell) : Option Cell :=
  if 0 < c.strong ∧ c.strong ≤ n then c.hollow? else some { c with strong := c.strong - n }

namespace Cell

variable {c : Cell} {n : Nat}

lemma reduce_zero (c : Cell) : c.reduce 0 = some c :=
  if_neg fun dropped => Nat.lt_irrefl 0 (Nat.lt_of_lt_of_le dropped.1 dropped.2)

/-- An attempt fails if nothing is left to give up. -/
lemma reduce_of_unheld (unheld : c.strong = 0) (n : Nat) : c.reduce n = some c := by
  rw [reduce, unheld, if_neg fun dropped => Nat.lt_irrefl 0 dropped.1, Nat.zero_sub, ← unheld]

lemma reduce_of_le (held : 0 < c.strong) (enough : c.strong ≤ n) : c.reduce n = c.hollow? :=
  if_pos ⟨held, enough⟩

lemma reduce_of_lt (more : n < c.strong) : c.reduce n = some { c with strong := c.strong - n } :=
  if_neg fun dropped => Nat.not_lt_of_le dropped.2 more

lemma value_hollow? (c : Cell) : c.hollow?.bind (·.value) = none := by
  rw [hollow?]
  split
  · rfl
  · rfl

lemma bind_hollow? (n : Nat) (c : Cell) : c.hollow?.bind (reduce n) = c.hollow? := by
  rw [hollow?]
  split
  · rfl
  · exact reduce_of_unheld rfl n

/-- Attempts that are made one after the other count together. -/
lemma reduce_succ (n : Nat) (c : Cell) : (c.reduce n).bind (reduce 1) = c.reduce (n + 1) := by
  by_cases held : 0 < c.strong
  · by_cases enough : c.strong ≤ n
    · rw [reduce_of_le held enough, bind_hollow?, reduce_of_le held (by omega)]
    · rw [reduce_of_lt (by omega), Option.bind_some]
      by_cases last : c.strong = n + 1
      · rw [reduce_of_le (by simp only; omega) (by simp only; omega), reduce_of_le held (by omega)]
        rfl
      · rw [reduce_of_lt (by simp only; omega), reduce_of_lt (by omega)]
        rfl
  · have unheld : c.strong = 0 := by omega
    rw [reduce_of_unheld unheld, reduce_of_unheld unheld]
    exact reduce_of_unheld unheld 1

end Cell

/-- The references that are nested in some values. -/
def Value.nested (vs : Multiset Value) : Multiset Ref := vs.bind fun v => v.refs

lemma Value.nested_add (vs ws : Multiset Value) :
    nested (vs + ws) = nested vs + nested ws := Multiset.add_bind ..

lemma Value.nested_mono {vs ws} (le : vs ≤ ws) : nested vs ≤ nested ws := by
  obtain ⟨more, rfl⟩ := Multiset.le_iff_exists_add.1 le
  rw [nested_add]
  exact Multiset.le_add_right _ _

namespace Heap

variable {h h' h'' : Heap} {r s : Ref} {c : Cell} {v : Value} {vs ws : Multiset Value}
  {D E : Finset Ref} {attempts : Multiset Ref}

/-- A cell has a value exactly as long as it is strongly referenced. -/
def Filled (h : Heap) : Prop := ∀ r c, h.cell? r = some c → (c.value.isSome ↔ 0 < c.strong)

instance (h : Heap) : Decidable h.Filled :=
  decidable_of_iff (∀ e ∈ h.cells.toList, (e.2.value.isSome ↔ 0 < e.2.strong)) <| by
    constructor
    · exact fun filled r c found => filled (r.id, c) (Arena.mem_toList.2 found)
    · exact fun filled e listed => filled ⟨e.1⟩ e.2 (Arena.mem_toList.1 listed)

/-- The values of some cells. -/
def held (h : Heap) (D : Finset Ref) : Multiset Value := D.val.filterMap h.get?

/-- Some cells include every cell whose strong references are all nested in some values or in those
of the cells. -/
def Closed (h : Heap) (vs : Multiset Value) (D : Finset Ref) : Prop :=
  ∀ r, 0 < h.strong r → h.strong r ≤ (Value.nested (vs + h.held D)).count r → r ∈ D

/-- What becomes of a heap when some values are given up: the least closed set of cells loses its
values. -/
structure Collapsed (h : Heap) (vs : Multiset Value) (D : Finset Ref) (h' : Heap) : Prop where
  least : IsLeast { E | h.Closed vs E } D
  /-- Exactly these cells lose their values. -/
  lost : ∀ r, r ∈ D ↔ (h.get? r).isSome ∧ h'.get? r = none
  /-- They are freed if they are not weakly referenced. -/
  inside : ∀ r ∈ D, h'.cell? r = (h.cell? r).bind Cell.hollow?
  /-- Others lose the references that are nested in what is given up. -/
  outside : ∀ r ∉ D, h'.cell? r =
    (h.cell? r).map fun c => { c with strong := c.strong - (Value.nested (vs + h.held D)).count r }
  /-- They have more references, if they have any. -/
  remaining : ∀ r ∉ D, 0 < h.strong r → (Value.nested (vs + h.held D)).count r < h.strong r
  directory : h'.directory = h.directory
  capacity : h'.capacity = h.capacity
  next : h'.cells.next = h.cells.next
  /-- Each instance that is given up makes one orphan. -/
  orphans : ∃ fibers : List FiberId, h'.orphans = h.orphans ++ fibers ∧
    (fibers : Multiset FiberId) = (vs + h.held D).filterMap Value.instance?

/-! ## Closed sets of cells -/

lemma held_mono (subset : D ⊆ E) (h : Heap) : h.held D ≤ h.held E :=
  Multiset.filterMap_le_filterMap _ (Finset.val_le_iff.2 subset)

lemma held_insert (new : r ∉ D) (value : h.get? r = some v) :
    h.held (insert r D) = v ::ₘ h.held D := by
  rw [held, Finset.insert_val_of_notMem new, Multiset.filterMap_cons_some _ _ _ value]
  rfl

/-- Cells that are closed for more values are closed for fewer. -/
lemma Closed.anti (closed : h.Closed (vs + ws) D) : h.Closed vs D := by
  refine fun r counted enough => closed r counted (enough.trans (Multiset.count_le_of_le r ?_))
  exact Value.nested_mono (by gcongr; exact Multiset.le_add_right _ _)

/-- The cells that attempts to give up references have emptied. -/
def emptied (h : Heap) (attempts : Multiset Ref) : Finset Ref :=
  attempts.toFinset.filter fun r => 0 < h.strong r ∧ h.strong r ≤ attempts.count r

lemma mem_emptied : r ∈ h.emptied attempts ↔ 0 < h.strong r ∧ h.strong r ≤ attempts.count r := by
  rw [emptied, Finset.mem_filter, and_iff_right_iff_imp]
  rintro ⟨counted, enough⟩
  exact Multiset.mem_toFinset.2 (Multiset.count_pos.1 (Nat.lt_of_lt_of_le counted enough))

lemma lt_of_not_mem_emptied (kept : r ∉ h.emptied attempts) (counted : 0 < h.strong r) :
    attempts.count r < h.strong r := by
  by_contra enough
  exact kept (mem_emptied.2 ⟨counted, Nat.le_of_not_lt enough⟩)

/-- One attempt more empties a cell if it gives up the last reference. -/
lemma emptied_of_last (last : h.strong r - attempts.count r = 1) :
    r ∉ h.emptied attempts ∧ h.emptied (r ::ₘ attempts) = insert r (h.emptied attempts) := by
  refine ⟨fun before => ?_, Finset.ext fun s => ?_⟩
  · have := (mem_emptied.1 before).2
    omega
  · rw [Finset.mem_insert, mem_emptied, mem_emptied, Multiset.count_cons]
    by_cases same : s = r
    · subst same
      simp only [if_true, true_or, iff_true]
      omega
    · simp only [same, if_false, false_or, Nat.add_zero]

/-- A cell with other references is not emptied. -/
lemma emptied_of_not_last (others : h.strong r - attempts.count r ≠ 1) :
    h.emptied (r ::ₘ attempts) = h.emptied attempts := by
  refine Finset.ext fun s => ?_
  rw [mem_emptied, mem_emptied, Multiset.count_cons]
  by_cases same : s = r
  · subst same
    simp only [if_true]
    omega
  · simp only [same, if_false, Nat.add_zero]

/-! ## One attempt -/

/-- What an attempt to give up a reference does to the cells. -/
lemma cell?_decrement? {v? : Option Value} (given : h.decrement? r = some (v?, h')) (s : Ref) :
    h'.cell? s = if s = r then (h.cell? r).bind (Cell.reduce 1) else h.cell? s := by
  obtain ⟨c, hc, ⟨many, -, rfl⟩ | ⟨last, unseen, -, rfl⟩ | ⟨last, seen, -, rfl⟩⟩ :=
    decrement?_eq_some given
  · rw [cell?_setCell hc, hc, Option.bind_some, Cell.reduce_of_lt many]
  · rw [cell?_free, hc, Option.bind_some, Cell.reduce_of_le (by omega) (by omega), Cell.hollow?,
      if_pos unseen]
  · rw [cell?_setCell hc, hc, Option.bind_some, Cell.reduce_of_le (by omega) (by omega),
      Cell.hollow?, if_neg seen.ne']

/-- The value comes with the last reference. -/
lemma value_decrement? {v? : Option Value} (given : h.decrement? r = some (v?, h')) :
    v? = if h.strong r = 1 then h.get? r else none := by
  obtain ⟨c, hc, ⟨many, rfl, -⟩ | ⟨last, -, rfl, -⟩ | ⟨last, -, rfl, -⟩⟩ := decrement?_eq_some given
  · rw [strong_of_cell? hc, if_neg (by omega)]
  · rw [strong_of_cell? hc, if_pos last, get?_of_cell? hc]
  · rw [strong_of_cell? hc, if_pos last, get?_of_cell? hc]

/-- Everything else stays. -/
lemma frame_decrement? {v? : Option Value} (given : h.decrement? r = some (v?, h')) :
    h'.directory = h.directory ∧ h'.capacity = h.capacity ∧ h'.cells.next = h.cells.next ∧
      h'.orphans = h.orphans := by
  obtain ⟨c, hc, ⟨-, -, rfl⟩ | ⟨-, -, -, rfl⟩ | ⟨-, -, -, rfl⟩⟩ := decrement?_eq_some given
  · exact ⟨rfl, rfl, next_setCell, rfl⟩
  · exact ⟨rfl, rfl, rfl, rfl⟩
  · exact ⟨rfl, rfl, next_setCell, rfl⟩

lemma Filled.get?_isSome (filled : h.Filled) (counted : 0 < h.strong r) : (h.get? r).isSome := by
  obtain ⟨c, hc, pos⟩ := cell?_of_strong_pos counted
  rw [get?_of_cell? hc]
  exact (filled r c hc).2 pos

lemma Filled.strong_pos (filled : h.Filled) (valued : (h.get? r).isSome) : 0 < h.strong r := by
  obtain ⟨v, found⟩ := Option.isSome_iff_exists.1 valued
  obtain ⟨c, hc, value⟩ := cell?_of_get? found
  rw [strong_of_cell? hc]
  exact (filled r c hc).1 (by rw [value]; rfl)

/-! ## While values wait -/

/-- Some values are given up. Those of them and of the cells emptied by it that were taken up are
done, and others wait. Some references of the value that was taken up last are still to be given
up. -/
structure Collapsing (h : Heap) (vs : Multiset Value) (attempts : Multiset Ref) (given : List Ref)
    (done pending : List Value) (h' : Heap) : Prop where
  /-- What is left of a cell depends on the number of attempts. -/
  cell : ∀ r, h'.cell? r = (h.cell? r).bind (Cell.reduce (attempts.count r))
  directory : h'.directory = h.directory
  capacity : h'.capacity = h.capacity
  next : h'.cells.next = h.cells.next
  /-- An instance that is taken up makes its fiber an orphan. -/
  orphans : h'.orphans = h.orphans ++ Value.instances done
  /-- The references of what was taken up are given up. -/
  spent : attempts + given = Value.nested done
  /-- Every value that was dropped waits or was taken up. -/
  values : (done + pending : Multiset Value) = vs + h.held (h.emptied attempts)
  /-- No cell was emptied that has another reference. -/
  least : ∀ E, h.Closed vs E → h.emptied attempts ⊆ E

namespace Collapsing

variable {given : List Ref} {done pending : List Value}

/-- Each attempt takes one from a count. -/
lemma strong (x : Collapsing h vs attempts given done pending h') (r : Ref) :
    h'.strong r = h.strong r - attempts.count r := by
  rw [Heap.strong, Heap.strong, x.cell]
  cases h.cell? r with
  | none => exact (Nat.zero_sub _).symm
  | some c =>
    rw [Option.bind_some, Cell.reduce]
    split
    case isTrue dropped =>
      rw [Cell.hollow?]
      have none_left : c.strong - attempts.count r = 0 := Nat.sub_eq_zero_of_le dropped.2
      split
      · exact none_left.symm
      · exact none_left.symm
    case isFalse => rfl

/-- A cell that was not emptied has its value. -/
lemma get? (x : Collapsing h vs attempts given done pending h') (left : h'.strong r ≠ 0) :
    h'.get? r = h.get? r := by
  have more := x.strong r
  rw [Heap.get?, Heap.get?, x.cell]
  cases hc : h.cell? r with
  | none => rfl
  | some c =>
    rw [strong_of_cell? hc] at more
    rw [Option.bind_some, Cell.reduce_of_lt (by omega)]
    rfl

/-- What is emptied by the next attempt belongs to every closed set. -/
lemma mem_closed (x : Collapsing h vs attempts (r :: given) done pending h')
    (last : h.strong r - attempts.count r = 1) (closed : h.Closed vs E) : r ∈ E := by
  have all : r ::ₘ attempts ≤ Value.nested (vs + h.held E) := calc
    r ::ₘ attempts ≤ attempts + (r :: given : List Ref) := by
      rw [← Multiset.cons_coe, Multiset.add_cons]
      exact Multiset.cons_le_cons r (Multiset.le_add_right _ _)
    _ = Value.nested done := x.spent
    _ ≤ Value.nested (done + pending) := Value.nested_mono (Multiset.le_add_right _ _)
    _ = Value.nested (vs + h.held (h.emptied attempts)) := by rw [x.values]
    _ ≤ Value.nested (vs + h.held E) :=
      Value.nested_mono (by gcongr; exact held_mono (x.least E closed) h)
  have counted := Multiset.count_le_of_le r all
  rw [Multiset.count_cons_self] at counted
  exact closed r (by omega) (by omega)

/-- An attempt leaves of a cell what is left after one attempt more. -/
private lemma cell_cons (x : Collapsing h vs attempts given done pending h')
    (cell : ∀ s, h''.cell? s = if s = r then (h'.cell? r).bind (Cell.reduce 1) else h'.cell? s)
    (s : Ref) :
    h''.cell? s = (h.cell? s).bind (Cell.reduce ((r ::ₘ attempts).count s)) := by
  rw [cell, Multiset.count_cons]
  split
  case isTrue same =>
    rw [same, x.cell, Option.bind_assoc]
    exact congrArg _ (funext (Cell.reduce_succ _))
  case isFalse => exact x.cell s

private lemma spent_cons (x : Collapsing h vs attempts (r :: given) done pending h') :
    r ::ₘ attempts + given = Value.nested done := by
  rw [← x.spent, ← Multiset.cons_coe, Multiset.add_cons, Multiset.cons_add]

/-- A reference that was given up before is passed over. -/
private lemma pass (x : Collapsing h vs attempts (r :: given) done pending h')
    (tried : h'.decrement? r = none) :
    Collapsing h vs (r ::ₘ attempts) given done pending h' := by
  have unheld := decrement?_eq_none.1 tried
  have now := x.strong r
  have same : h.emptied (r ::ₘ attempts) = h.emptied attempts := emptied_of_not_last (by omega)
  refine ⟨x.cell_cons fun s => ?_, x.directory, x.capacity, x.next, x.orphans, x.spent_cons, ?_, ?_⟩
  · split
    case isTrue named =>
      rw [named]
      cases hc : h'.cell? r with
      | none => rfl
      | some c => exact (Cell.reduce_of_unheld ((strong_of_cell? hc).symm.trans unheld) 1).symm
    case isFalse => rfl
  · rw [same]
    exact x.values
  · rw [same]
    exact x.least

/-- A reference is given up. With the last one, the value of the cell waits. -/
private lemma give (filled : h.Filled) (x : Collapsing h vs attempts (r :: given) done pending h')
    {v? : Option Value} (tried : h'.decrement? r = some (v?, h'')) :
    Collapsing h vs (r ::ₘ attempts) given done (v?.toList ++ pending) h'' := by
  have now := x.strong r
  have value := value_decrement? tried
  obtain ⟨directory, capacity, next, orphans⟩ := frame_decrement? tried
  have moved : (done + (v?.toList ++ pending : List Value) : Multiset Value) =
        vs + h.held (h.emptied (r ::ₘ attempts)) ∧
      ∀ E, h.Closed vs E → h.emptied (r ::ₘ attempts) ⊆ E := by
    by_cases last : h'.strong r = 1
    · rw [if_pos last, x.get? (by omega)] at value
      obtain ⟨v, found⟩ := Option.isSome_iff_exists.1 (filled.get?_isSome (r := r) (by omega))
      obtain ⟨new, more⟩ : r ∉ h.emptied attempts ∧ _ := emptied_of_last (by omega)
      rw [value, more, held_insert new found, found, Multiset.add_cons, ← x.values]
      refine ⟨Multiset.add_cons v done pending, fun E closed => ?_⟩
      exact Finset.insert_subset (x.mem_closed (by omega) closed) (x.least E closed)
    · rw [if_neg last] at value
      rw [value, emptied_of_not_last (by omega)]
      exact ⟨x.values, x.least⟩
  exact ⟨x.cell_cons (cell?_decrement? tried), directory.trans x.directory,
    capacity.trans x.capacity,
    next.trans x.next, orphans.trans x.orphans, x.spent_cons, moved.1, moved.2⟩

/-- References are given up one after the other. -/
lemma decrementAll (filled : h.Filled) (x : Collapsing h vs attempts given done pending h') :
    ∃ attempts', Collapsing h vs attempts' [] done (decrementAll given pending h').1
      (decrementAll given pending h').2 := by
  induction given generalizing attempts pending h' with
  | nil => exact ⟨attempts, x⟩
  | cons r rest ih =>
    rw [Heap.decrementAll]
    split
    case h_1 v h'' tried => exact ih (x.give filled tried)
    case h_2 h'' tried => exact ih (x.give filled tried)
    case h_3 tried => exact ih (x.pass tried)

/-- A value is taken up: an instance makes an orphan, and the references of another value are to be
given up. -/
lemma take (x : Collapsing h vs attempts [] done (v :: pending) h') :
    Collapsing h vs attempts v.refs (done ++ [v]) pending (h'.losing v.instance?.toList) := by
  refine ⟨x.cell, x.directory, x.capacity, x.next, ?_, ?_, ?_, x.least⟩
  · have last : Value.instances [v] = v.instance?.toList := by
      cases fiber : v.instance? <;> simp [Value.instances, fiber]
    rw [losing, x.orphans, ← last, List.append_assoc]
    exact congrArg (h.orphans ++ ·) List.filterMap_append.symm
  · rw [← Multiset.coe_add, Value.nested_add, ← x.spent, Multiset.coe_nil, add_zero]
    exact congrArg (attempts + ·) (Multiset.singleton_bind ..).symm
  · rw [← x.values, Multiset.coe_add, Multiset.coe_add, List.append_assoc, List.singleton_append]

/-- A number of rounds that covers the waiting values and the cells with a value lets nothing wait
at the end. -/
lemma settle (filled : h.Filled) (x : Collapsing h vs attempts [] done pending h') (n : Nat)
    (enough : pending.length + h'.valued ≤ n) :
    ∃ attempts' done', Collapsing h vs attempts' [] done' [] (settle n pending h') := by
  induction n generalizing attempts done pending h' with
  | zero =>
    cases pending with
    | nil => exact ⟨attempts, done, x⟩
    | cons v pending => simp at enough
  | succ n ih =>
    cases pending with
    | nil => exact ⟨attempts, done, x⟩
    | cons v pending =>
      rw [List.length_cons] at enough
      have taken := x.take
      rw [settle_succ]
      obtain ⟨attempts', opened⟩ := taken.decrementAll filled
      have size := (cascade_decrementAll v.refs pending (h'.losing v.instance?.toList)).size
      refine ih opened ?_
      change _ = pending.length + h'.valued at size
      omega

/-- One value more is given up when nothing waits. -/
lemma more (x : Collapsing h vs attempts [] done [] h') (v : Value) :
    Collapsing h (vs + {v}) attempts [] done [v] h' := by
  refine ⟨x.cell, x.directory, x.capacity, x.next, x.orphans, x.spent, ?_, fun E closed =>
    x.least E closed.anti⟩
  rw [add_right_comm, ← x.values, Multiset.coe_nil, add_zero]
  rfl

lemma releaseValue (filled : h.Filled) (x : Collapsing h vs attempts [] done [] h') (v : Value) :
    ∃ attempts' done', Collapsing h (vs + {v}) attempts' [] done' [] (h'.releaseValue v) := by
  refine (x.more v).settle filled _ ?_
  have := h'.valued_le_size
  rw [List.length_singleton]
  omega

/-- More values may be given up. -/
lemma releaseValues (filled : h.Filled) (x : Collapsing h vs attempts [] done [] h')
    (ws : List Value) :
    ∃ attempts' done', Collapsing h (vs + ws) attempts' [] done' [] (h'.releaseValues ws) := by
  induction ws generalizing vs attempts done h' with
  | nil =>
    rw [Multiset.coe_nil, add_zero]
    exact ⟨attempts, done, x⟩
  | cons w ws ih =>
    obtain ⟨attempts', done', first⟩ := x.releaseValue filled w
    have rest := ih first
    rwa [add_assoc, Multiset.singleton_add, Multiset.cons_coe] at rest

/-- When nothing waits, the cells that were emptied are closed, and the attempts are the references
nested in what was given up. -/
lemma attempts_eq (x : Collapsing h vs attempts [] done [] h') :
    attempts = Value.nested (vs + h.held (h.emptied attempts)) := by
  have spent := x.spent
  have values := x.values
  rw [Multiset.coe_nil, add_zero] at spent values
  rw [← values, ← spent]

private lemma cell_of_mem (x : Collapsing h vs attempts given done pending h')
    (lost : r ∈ h.emptied attempts) :
    h'.cell? r = (h.cell? r).bind Cell.hollow? := by
  obtain ⟨counted, enough⟩ := mem_emptied.1 lost
  obtain ⟨c, hc, pos⟩ := cell?_of_strong_pos counted
  rw [strong_of_cell? hc] at enough
  rw [x.cell, hc]
  exact Cell.reduce_of_le pos enough

/-- What is left when nothing waits. -/
lemma collapsed (filled : h.Filled) (x : Collapsing h vs attempts [] done [] h') :
    Collapsed h vs (h.emptied attempts) h' where
  least := by
    refine ⟨fun r counted enough => mem_emptied.2 ⟨counted, ?_⟩, x.least⟩
    rwa [← x.attempts_eq] at enough
  lost r := by
    constructor
    · intro lost
      refine ⟨filled.get?_isSome (mem_emptied.1 lost).1, ?_⟩
      rw [Heap.get?, x.cell_of_mem lost, Option.bind_assoc]
      cases h.cell? r with
      | none => rfl
      | some c => exact c.value_hollow?
    · rintro ⟨valued, gone⟩
      by_contra kept
      have counted := filled.strong_pos valued
      have more := lt_of_not_mem_emptied kept counted
      rw [x.get? (by rw [x.strong]; omega)] at gone
      rw [gone] at valued
      cases valued
  inside r lost := x.cell_of_mem lost
  outside r kept := by
    rw [← x.attempts_eq, x.cell]
    cases hc : h.cell? r with
    | none => rfl
    | some c =>
      rw [mem_emptied, strong_of_cell? hc] at kept
      exact if_neg kept
  remaining r kept counted := by
    rw [← x.attempts_eq]
    exact lt_of_not_mem_emptied kept counted
  directory := x.directory
  capacity := x.capacity
  next := x.next
  orphans := by
    refine ⟨Value.instances done, x.orphans, ?_⟩
    have values := x.values
    rw [Multiset.coe_nil, add_zero] at values
    rw [← values]
    rfl

end Collapsing

/-! ## Giving up values -/

/-- The values that wait are taken up, the first of them each time, until none waits. -/
inductive Settles : List Value → Heap → Heap → Prop
  | done (h : Heap) : Settles [] h h
  | take {v : Value} {pending} {h : Heap} {h'}
      (rest : Settles (decrementAll v.refs pending (h.losing v.instance?.toList)).1
        (decrementAll v.refs pending (h.losing v.instance?.toList)).2 h') :
      Settles (v :: pending) h h'

/-- A settlement comes to its end. -/
lemma settles_settle (n : Nat) (pending : List Value) (h : Heap)
    (enough : pending.length + h.valued ≤ n) :
    Settles pending h (settle n pending h) := by
  induction n generalizing pending h with
  | zero =>
    cases pending with
    | nil => exact .done h
    | cons v pending => simp at enough
  | succ n ih =>
    cases pending with
    | nil => exact .done h
    | cons v pending =>
      rw [List.length_cons] at enough
      have size := (cascade_decrementAll v.refs pending (h.losing v.instance?.toList)).size
      rw [settle_succ]
      refine .take (ih _ _ ?_)
      change _ = pending.length + h.valued at size
      omega

lemma settles_releaseValue (h : Heap) (v : Value) : Settles [v] h (h.releaseValue v) := by
  refine settles_settle _ _ _ ?_
  have := h.valued_le_size
  rw [List.length_singleton]
  omega

/-- Nothing is given up at first. -/
lemma collapsing_refl (h : Heap) : Collapsing h 0 0 [] [] [] h := by
  have nothing : h.emptied 0 = ∅ := Finset.filter_empty _
  refine ⟨fun r => ?_, rfl, rfl, rfl, (List.append_nil _).symm, rfl, ?_, fun E _ => ?_⟩
  · rw [Multiset.count_zero]
    cases h.cell? r with
    | none => rfl
    | some c => exact c.reduce_zero.symm
  · rw [nothing]
    rfl
  · rw [nothing]
    exact Finset.empty_subset E

/-- Giving up values empties the least closed set of cells. -/
lemma collapsed_releaseValues (filled : h.Filled) (vs : List Value) :
    ∃ D, Collapsed h vs D (h.releaseValues vs) := by
  obtain ⟨attempts, done, x⟩ := h.collapsing_refl.releaseValues filled vs
  rw [zero_add] at x
  exact ⟨_, x.collapsed filled⟩

/-- What becomes of the cells does not depend on anything but the values that are given up. -/
lemma Collapsed.cell?_unique (x : Collapsed h vs D h') (y : Collapsed h vs E h'') (r : Ref) :
    h'.cell? r = h''.cell? r := by
  obtain rfl := x.least.unique y.least
  by_cases lost : r ∈ D
  · rw [x.inside r lost, y.inside r lost]
  · rw [x.outside r lost, y.outside r lost]

lemma Collapsed.orphans_perm (x : Collapsed h vs D h') (y : Collapsed h vs E h'') :
    h'.orphans.Perm h''.orphans := by
  obtain rfl := x.least.unique y.least
  obtain ⟨fibers, orphans, made⟩ := x.orphans
  obtain ⟨fibers', orphans', made'⟩ := y.orphans
  rw [orphans, orphans']
  exact (Multiset.coe_eq_coe.1 (made.trans made'.symm)).append_left _

/-- Giving up a value ends. The least set of cells that holds every cell all of whose strong
references are nested in the value or in values of the set loses its values, and other cells lose
the references nested there. The order in which values are given up does not matter to the cells. -/
theorem release_empties_least (h : Heap) (filled : h.Filled) :
    (∀ v, Settles [v] h (h.releaseValue v) ∧ ∃ D, Collapsed h {v} D (h.releaseValue v)) ∧
    ∀ vs ws : List Value, vs.Perm ws →
      (∃ D, Collapsed h vs D (h.releaseValues vs) ∧ Collapsed h ws D (h.releaseValues ws)) ∧
      (∀ r, (h.releaseValues vs).cell? r = (h.releaseValues ws).cell? r) ∧
      (h.releaseValues vs).orphans.Perm (h.releaseValues ws).orphans := by
  refine ⟨fun v => ⟨h.settles_releaseValue v, collapsed_releaseValues filled [v]⟩, fun vs ws same =>
    ?_⟩
  obtain ⟨D, x⟩ := collapsed_releaseValues filled vs
  obtain ⟨E, y⟩ := collapsed_releaseValues filled ws
  rw [Multiset.coe_eq_coe.2 same] at x ⊢
  refine ⟨⟨D, x, ?_⟩, x.cell?_unique y, x.orphans_perm y⟩
  rwa [x.least.unique y.least]

/-- An array refers to one cell twice, whose value leads to an instance, and to a cell that refers
to itself. -/
def sharedAndCyclic : Heap where
  cells := (((Arena.empty.insert ⟨some (.array #[⟨1⟩, ⟨2⟩, ⟨1⟩]), .temporary, 1, 0⟩).insert
    ⟨some (.array #[⟨3⟩]), .global, 2, 1⟩).insert ⟨some (.array #[⟨2⟩]), .temporary, 2, 0⟩).insert
      ⟨some (.instance ⟨7⟩), .temporary, 1, 0⟩

/-- Of a cycle and what it shares, the cycle is emptied. -/
theorem release_empties_least_sharedAndCyclic :
    sharedAndCyclic.Filled ∧ Settles [.array #[⟨0⟩, ⟨9⟩]] sharedAndCyclic
      (sharedAndCyclic.releaseValue (.array #[⟨0⟩, ⟨9⟩])) ∧
      (∃ D, Collapsed sharedAndCyclic {.array #[⟨0⟩, ⟨9⟩]} D
        (sharedAndCyclic.releaseValue (.array #[⟨0⟩, ⟨9⟩])) ∧ ⟨1⟩ ∈ D ∧ ⟨2⟩ ∉ D) ∧
      ∀ r, (sharedAndCyclic.releaseValues [.array #[⟨0⟩], .array #[⟨2⟩]]).cell? r =
        (sharedAndCyclic.releaseValues [.array #[⟨2⟩], .array #[⟨0⟩]]).cell? r := by
  have filled : sharedAndCyclic.Filled := by decide +kernel
  obtain ⟨one, several⟩ := release_empties_least sharedAndCyclic filled
  obtain ⟨ends, D, x⟩ := one (.array #[⟨0⟩, ⟨9⟩])
  refine ⟨filled, ends, ⟨D, x, (x.lost ⟨1⟩).2 (by decide +kernel), ?_⟩,
    (several _ _ (.swap ..)).2.1⟩
  exact fun lost => absurd ((x.lost ⟨2⟩).1 lost).2 (by decide +kernel)

end Heap

end FiberVM
