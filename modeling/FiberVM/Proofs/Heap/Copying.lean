import FiberVM.Proofs.Heap.Collapse

/-!
# Copies

A copy owns references of its own: a cell is referenced once more for each time that it is nested in
the copy (`Heap.Raised`). If one of the references cannot be taken, those taken before are given up
again. None of them is the last reference to its cell, since a cell that has its value was strongly
referenced before. So nothing is dropped, and the heap is as it was (`Heap.Alike`). For the same
reason a copy that is given up at once leaves no trace.
-/

namespace FiberVM

/-- What a copy of the value of a cell is. A fiber's own cell is referred to. -/
def Value.copied (r : Ref) : Value → Value
  | .instance _ => .fiber r
  | v => v

namespace Heap

variable {h h' k k' : Heap} {r : Ref} {c : Cell} {v : Value} {taken more : Multiset Ref}

/-- Heaps with the same cells, variables and orphans. -/
structure Alike (h h' : Heap) : Prop where
  cell : ∀ r, h'.cell? r = h.cell? r
  directory : h'.directory = h.directory
  capacity : h'.capacity = h.capacity
  next : h'.cells.next = h.cells.next
  orphans : h'.orphans = h.orphans

/-- In the second heap some strong references more are held, to cells that have their values. -/
structure Raised (h : Heap) (taken : Multiset Ref) (h' : Heap) : Prop where
  valued : ∀ r ∈ taken, (h.get? r).isSome
  cell : ∀ r, h'.cell? r = (h.cell? r).map fun c => { c with strong := c.strong + taken.count r }
  directory : h'.directory = h.directory
  capacity : h'.capacity = h.capacity
  next : h'.cells.next = h.cells.next
  orphans : h'.orphans = h.orphans

/-! ## Raised counts -/

/-- Raising nothing changes nothing. -/
lemma raised_zero_iff : Raised h 0 h' ↔ Alike h h' := by
  have unchanged : ∀ r,
      ((h.cell? r).map fun c => { c with strong := c.strong + (0 : Multiset Ref).count r }) =
      h.cell? r := fun r => by
    rw [Multiset.count_zero]
    exact congrFun Option.map_id (h.cell? r)
  constructor
  · intro x
    exact ⟨fun r => (x.cell r).trans (unchanged r), x.directory, x.capacity, x.next, x.orphans⟩
  · intro x
    exact ⟨fun r mem => absurd mem (Multiset.notMem_zero r), fun r =>
      (x.cell r).trans (unchanged r).symm,
      x.directory, x.capacity, x.next, x.orphans⟩

lemma alike_refl (h : Heap) : Alike h h := ⟨fun _ => rfl, rfl, rfl, rfl, rfl⟩

lemma Alike.symm (x : Alike h h') : Alike h' h :=
  ⟨fun r => (x.cell r).symm, x.directory.symm, x.capacity.symm, x.next.symm, x.orphans.symm⟩

namespace Raised

lemma get? (x : Raised h taken h') (r : Ref) : h'.get? r = h.get? r := by
  rw [Heap.get?, Heap.get?, x.cell]
  cases h.cell? r <;> rfl

lemma strong (x : Raised h taken h') (valued : (h.get? r).isSome) :
    h'.strong r = h.strong r + taken.count r := by
  obtain ⟨v, found⟩ := Option.isSome_iff_exists.1 valued
  obtain ⟨c, hc, -⟩ := cell?_of_get? found
  rw [strong_of_cell? hc, Heap.strong, x.cell, hc]
  rfl

lemma trans (x : Raised h taken k) (y : Raised k more h') : Raised h (taken + more) h' := by
  refine ⟨fun r mem => ?_, fun r => ?_, y.directory.trans x.directory, y.capacity.trans x.capacity,
    y.next.trans x.next, y.orphans.trans x.orphans⟩
  · obtain before | after := Multiset.mem_add.1 mem
    · exact x.valued r before
    · rw [← x.get?]
      exact y.valued r after
  · rw [y.cell, x.cell, Option.map_map, Multiset.count_add]
    refine congrFun (congrArg Option.map (funext fun c => ?_)) (h.cell? r)
    simp only [Function.comp_apply, Nat.add_assoc]

end Raised

/-- A reference that is taken raises its count. -/
lemma raised_retain? (held : h.retain? r = some h') : Raised h {r} h' := by
  obtain ⟨c, hc, valued, rfl⟩ := retain?_eq_some held
  refine ⟨fun s mem => ?_, fun s => ?_, rfl, rfl, next_setCell, rfl⟩
  · rw [Multiset.mem_singleton.1 mem, get?_of_cell? hc]
    exact valued
  · rw [cell?_setCell hc, Multiset.count_singleton]
    split
    case isTrue same =>
      rw [same, hc]
      rfl
    case isFalse => exact (congrFun Option.map_id (h.cell? s)).symm

lemma retain?_eq_none (lost : h.retain? r = none) : h.get? r = none := by
  rw [retain?] at lost
  rw [get?]
  cases hc : h.cell? r with
  | none => rfl
  | some c =>
    rw [hc] at lost
    simpa using lost

lemma exists_retain? (valued : (h.get? r).isSome) : ∃ h', h.retain? r = some h' := by
  cases held : h.retain? r with
  | none =>
    rw [retain?_eq_none held] at valued
    cases valued
  | some h' => exact ⟨h', rfl⟩

/-! ## Lowered counts -/

namespace Raised

/-- A reference that was taken is not the last one. -/
lemma decrement? (filled : h.Filled) (x : Raised h (r ::ₘ taken) k) :
    ∃ k', k.decrement? r = some (none, k') ∧ Raised h taken k' := by
  have valued : (h.get? r).isSome := x.valued r (Multiset.mem_cons_self r taken)
  have held := filled.strong_pos valued
  have count := x.strong valued
  rw [Multiset.count_cons_self] at count
  obtain ⟨v?, k', given⟩ := decrement?_of_strong_pos (h := k) (r := r) (by omega)
  obtain ⟨c, hc, ⟨many, rfl, rfl⟩ | ⟨last, -⟩ | ⟨last, -⟩⟩ := decrement?_eq_some given
  · refine ⟨_, given, fun s mem => x.valued s (Multiset.mem_cons_of_mem mem), fun s => ?_,
      x.directory, x.capacity, next_setCell.trans x.next, x.orphans⟩
    have before := x.cell s
    rw [cell?_setCell hc]
    rw [Multiset.count_cons] at before
    split
    case isTrue same =>
      subst same
      rw [hc, if_pos rfl] at before
      cases hd : h.cell? s with
      | none =>
        rw [hd] at before
        cases before
      | some d =>
        rw [hd] at before
        obtain rfl := Option.some.inj before
        rfl
    case isFalse other => rwa [if_neg other] at before
  · rw [strong_of_cell? hc] at count
    omega
  · rw [strong_of_cell? hc] at count
    omega

lemma release (filled : h.Filled) (x : Raised h (r ::ₘ taken) k) :
    Raised h taken (k.release r) := by
  obtain ⟨k', given, lowered⟩ := x.decrement? filled
  rw [Heap.release, release?, given]
  exact lowered

lemma releaseAll (filled : h.Filled) {rs : List Ref} (x : Raised h (rs + taken) k) :
    Raised h taken (k.releaseAll rs) := by
  induction rs generalizing k with
  | nil => rwa [Multiset.coe_nil, zero_add] at x
  | cons r rs ih =>
    rw [← Multiset.cons_coe, Multiset.cons_add] at x
    exact ih (x.release filled)

/-- No value is dropped. -/
lemma decrementAll (filled : h.Filled) {rs : List Ref} (x : Raised h (rs + taken) k)
    (pending : List Value) :
    ∃ k', Heap.decrementAll rs pending k = (pending, k') ∧ Raised h taken k' := by
  induction rs generalizing k with
  | nil =>
    rw [Multiset.coe_nil, zero_add] at x
    exact ⟨k, rfl, x⟩
  | cons r rs ih =>
    rw [← Multiset.cons_coe, Multiset.cons_add] at x
    obtain ⟨k', given, lowered⟩ := x.decrement? filled
    rw [Heap.decrementAll, given]
    exact ih lowered

lemma releaseValue (filled : h.Filled) (plain : v.instance? = none) (x : Raised h v.refs k) :
    Alike h (k.releaseValue v) := by
  rw [← add_zero (v.refs : Multiset Ref)] at x
  obtain ⟨k', given, lowered⟩ := x.decrementAll filled []
  rw [Heap.releaseValue, settle_succ, plain, Option.toList_none, losing_nil, given, settle]
  exact raised_zero_iff.1 lowered

end Raised

/-! ## Copying -/

/-- Either every reference is taken or none, and the latter if one of the cells has lost its
value. -/
lemma retainAll_cases (filled : h.Filled) (rs taken : List Ref) (x : Raised h taken k) :
    (∃ k', retainAll taken rs k = .ok () k' ∧ Raised h (rs + taken) k') ∨
      ∃ k', retainAll taken rs k = .error .valueFreed k' ∧ Alike h k' ∧
        ∃ r ∈ rs, h.get? r = none := by
  induction rs generalizing taken k with
  | nil => exact .inl ⟨k, rfl, by rwa [Multiset.coe_nil, zero_add]⟩
  | cons r rs ih =>
    rw [retainAll]
    split
    case h_1 k' held =>
      have next : Raised h (r :: taken : List Ref) k' := by
        have both := x.trans (raised_retain? held)
        rwa [add_comm, Multiset.singleton_add, Multiset.cons_coe] at both
      obtain ⟨k'', run, raised⟩ | ⟨k'', run, alike, s, mem, lost⟩ := ih (r :: taken) next
      · refine .inl ⟨k'', run, ?_⟩
        rwa [← Multiset.cons_coe, Multiset.add_cons, ← Multiset.cons_add,
          Multiset.cons_coe] at raised
      · exact .inr ⟨k'', run, alike, s, List.mem_cons_of_mem r mem, lost⟩
    case h_2 lost =>
      have listed : Raised h (taken.reverse + 0) k := by rwa [Multiset.coe_reverse, add_zero]
      refine .inr ⟨_, rfl, raised_zero_iff.1 (listed.releaseAll filled), r, List.mem_cons_self, ?_⟩
      rw [← x.get?]
      exact retain?_eq_none lost

/-- What an attempt to copy a value comes to: a copy whose references were taken and can be given up
again, or, if a cell nested in it has lost its value, nothing. -/
def Copies (h : Heap) (v : Value) : EStateM.Result Fault Heap Value → Prop
  | .ok u h' => u = v ∧ Raised h u.refs h' ∧ Alike h (h'.releaseValue u)
  | .error fault h' => fault = .valueFreed ∧ (∃ r ∈ v.refs, h.get? r = none) ∧ Alike h h'

/-- A value is copied, or nothing changes. -/
lemma copies_copyValue (filled : h.Filled) (plain : v.instance? = none) :
    Copies h v (copyValue v h) := by
  have same : copyValue v h = (do retainAll [] v.refs; return v : HeapM Value) h := by
    cases v with
    | «instance» f => cases plain
    | _ => rfl
  rw [same]
  obtain ⟨k, run, raised⟩ | ⟨k, run, alike, lost⟩ :=
    retainAll_cases filled v.refs [] (raised_zero_iff.2 (alike_refl h))
  · rw [bind_of_ok run]
    rw [Multiset.coe_nil, add_zero] at raised
    exact ⟨rfl, raised, raised.releaseValue filled plain⟩
  · rw [bind_of_error run]
    exact ⟨rfl, lost, alike⟩

lemma copy_eq (found : h.get? r = some v) : copy r h = copyValue (v.copied r) h := by
  rw [copy, found]
  cases v <;> rfl

/-- Copying is all or nothing. A copy of a value, or of the value of a cell, raises each count by
the number of times that the cell is nested in it, and gives all of them back when it is given up at
once. A copy that cannot be made leaves the heap as it was. -/
theorem copying_all_or_nothing (h : Heap) (filled : h.Filled) :
    (∀ v : Value, match v.instance? with
      | some _ => copyValue v h = .error .expectedFiber h
      | none => Copies h v (copyValue v h)) ∧
    ∀ r, match h.get? r with
      | none => copy r h = .error .valueFreed h
      | some v => Copies h (v.copied r) (copy r h) := by
  constructor
  · intro v
    cases fiber : v.instance? with
    | some f =>
      obtain rfl := Value.instance?_eq_some.1 fiber
      rfl
    | none => exact copies_copyValue filled fiber
  · intro r
    cases found : h.get? r with
    | none =>
      rw [copy, found]
    | some v =>
      have plain : (v.copied r).instance? = none := by cases v <;> rfl
      simp only
      rw [copy_eq found]
      exact copies_copyValue filled plain

/-- An array refers to a fiber's own cell twice and to a cell that has lost its value, another one
to itself and twice to the fiber's cell. -/
def lostAndCyclic : Heap where
  cells := (((Arena.empty.insert ⟨some (.array #[⟨1⟩, ⟨1⟩, ⟨3⟩]), .temporary, 1, 0⟩).insert
    ⟨some (.instance ⟨7⟩), .global, 1, 1⟩).insert ⟨some (.array #[⟨1⟩, ⟨2⟩, ⟨1⟩]), .temporary, 2,
      0⟩).insert ⟨none, .temporary, 0, 1⟩

/-- Copies of values that are shared, cyclic or partly lost. -/
theorem copying_all_or_nothing_lostAndCyclic :
    lostAndCyclic.Filled ∧ (∃ h', copy ⟨0⟩ lostAndCyclic = .error .valueFreed h' ∧
      Alike lostAndCyclic h') ∧ Copies lostAndCyclic (.fiber ⟨1⟩) (copy ⟨1⟩ lostAndCyclic) ∧
      (∃ h', copy ⟨2⟩ lostAndCyclic = .ok (.array #[⟨1⟩, ⟨2⟩, ⟨1⟩]) h' ∧ h'.strong ⟨1⟩ = 3 ∧
        Alike lostAndCyclic (h'.releaseValue (.array #[⟨1⟩, ⟨2⟩, ⟨1⟩]))) ∧
      copyValue (.instance ⟨7⟩) lostAndCyclic = .error .expectedFiber lostAndCyclic := by
  have filled : lostAndCyclic.Filled := by decide +kernel
  obtain ⟨values, cells⟩ := copying_all_or_nothing lostAndCyclic filled
  refine ⟨filled, ?_, cells ⟨1⟩, ?_, values (.instance ⟨7⟩)⟩
  · have outcome : Copies lostAndCyclic (.array #[⟨1⟩, ⟨1⟩, ⟨3⟩]) (copy ⟨0⟩ lostAndCyclic) :=
      cells ⟨0⟩
    cases run : copy ⟨0⟩ lostAndCyclic with
    | ok u h' =>
      rw [run] at outcome
      obtain ⟨rfl, raised, -⟩ := outcome
      exact absurd (raised.valued ⟨3⟩ (by decide)) (by decide +kernel)
    | error fault h' =>
      rw [run] at outcome
      obtain ⟨rfl, -, alike⟩ := outcome
      exact ⟨h', rfl, alike⟩
  · have outcome : Copies lostAndCyclic (.array #[⟨1⟩, ⟨2⟩, ⟨1⟩]) (copy ⟨2⟩ lostAndCyclic) :=
      cells ⟨2⟩
    cases run : copy ⟨2⟩ lostAndCyclic with
    | ok u h' =>
      rw [run] at outcome
      obtain ⟨rfl, raised, alike⟩ := outcome
      refine ⟨h', rfl, ?_, alike⟩
      rw [raised.strong (by decide +kernel)]
      decide +kernel
    | error fault h' =>
      rw [run] at outcome
      exact absurd outcome.2.1 (by decide +kernel)

end Heap

end FiberVM
