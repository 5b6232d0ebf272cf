import FiberVM.Proofs.Agenda.Removal
import FiberVM.Proofs.Engine.Tables
import FiberVM.Proofs.Engine.Teardown
import FiberVM.Proofs.Heap.Fading

/-!
# What the end of a fiber leaves alone

A fiber that ends takes along what is its own: its record, its variables, its root and its
continuations, with those that were registered beneath them. Nothing else is touched
(`Engine.Spares`). In the heap values are dropped, and never changed; what somebody else still
holds, or what is reached from there, keeps its value, because the heap accounts for it.

A machine refers to its shared variables weakly, but they are held by their owner and so keep their
values. The targets that a fiber remembers from its calls are referred to weakly too, and such a
reference is meant to keep no value: one that nobody else holds is dropped.
-/

namespace FiberVM

namespace Agenda

variable {a a' : Agenda} {f : FiberId} {id : ContinuationId}

/-- A continuation belongs to a fiber, or was registered beneath one that does. -/
def Under (a : Agenda) (f : FiberId) (id : ContinuationId) : Prop :=
  (a.get? id).isSome ∧ ∃ top k, a.get? top = some k ∧ k.fiber = f ∧ a.Descends top id

lemma under_iff_beneath (known : a.Indexed) (tidy : a.Tidy) :
    a.Under f id ↔ a.Beneath (a.ownedBy f) id := by
  constructor
  · rintro ⟨there, top, k, found, rfl, path⟩
    exact ⟨there, top, known top k.fiber k.cell (bond?_of_get? found), path⟩
  · rintro ⟨there, top, listed, path⟩
    obtain ⟨k, found, fiber⟩ := tidy.owned listed
    exact ⟨there, top, k, found, fiber, path⟩

/-- Cancelling the continuations of a fiber takes out those that are under it, and no others. -/
lemma drops_under (known : a.Indexed) (tidy : a.Tidy) (f : FiberId) :
    ∃ gone, Drops gone a (a.cancelFiber f).2 ∧ ∀ id, id ∈ gone ↔ a.Under f id := by
  obtain ⟨gone, dropped, exactly⟩ := drops_cancelFiber tidy f
  exact ⟨gone, dropped, fun id => (exactly id).trans (under_iff_beneath known tidy).symm⟩

/-- An agenda without what is under a fiber does not know the fiber. -/
lemma Drops.owned_eq_none {gone} (dropped : Drops gone a a')
    (exactly : ∀ id, id ∈ gone ↔ a.Under f id) (tidy : a.Tidy) : a'.owned.find? f = none := by
  have none_left : a'.ownedBy f = [] := by
    rw [dropped.owned]
    refine List.filter_eq_nil_iff.2 fun id listed stays => ?_
    obtain ⟨k, found, fiber⟩ := tidy.owned listed
    exact of_decide_eq_true stays ((exactly id).2 ⟨found ▸ rfl, id, k, found, fiber, .refl⟩)
  cases entry : a'.owned.find? f with
  | none => rfl
  | some ids =>
    rw [ownedBy, entry] at none_left
    cases none_left
    exact absurd entry (dropped.entry f)

end Agenda

namespace Engine

variable {c : Conduct} {scene : Scene} {K L : Multiset Ref} {e e' : Engine} {f g : FiberId}
  {r : Ref} {x : Fiber}

/-- A reference is held by somebody else than a fiber: it is in the hand, or is held by another
fiber, a root of another fiber, a variable of another owner, a machine or a continuation that is not
under the fiber, or by a value that is reached from there. -/
inductive HeldBeside (f : FiberId) (K : Multiset Ref) (e : Engine) : Ref → Prop where
  | hand {r : Ref} (held : r ∈ K) : HeldBeside f K e r
  | fiber {g : FiberId} {x : Fiber} {r : Ref} (other : g ≠ f) (found : e.fiber? g = some x)
      (held : r ∈ x.refs) : HeldBeside f K e r
  | root {g : FiberId} {r : Ref} (other : g ≠ f) (found : e.roots.find? g = some r) :
      HeldBeside f K e r
  | named {owner entry} (other : owner ≠ .fiber f) (found : entry ∈ e.heap.entries owner) :
      HeldBeside f K e entry.2
  | shared {name m r} (loaded : e.machines.find? name = some m) (held : r ∈ m.shared) :
      HeldBeside f K e r
  | waiting {id k} (found : e.agenda.get? id = some k) (other : ¬ e.agenda.Under f id) :
      HeldBeside f K e k.cell
  | nested {r s v} (outer : HeldBeside f K e r) (value : e.heap.get? r = some v)
      (held : s ∈ v.refs) : HeldBeside f K e s

/-- No table of an engine knows a fiber. -/
structure Forgets (f : FiberId) (e : Engine) : Prop where
  fiber : e.fiber? f = none
  root : e.roots.find? f = none
  main : e.main ≠ some f
  directory : e.heap.directory.contains (.fiber f) = false
  owned : e.agenda.owned.find? f = none
  waiting : ∀ id k, e.agenda.get? id = some k → k.fiber ≠ f

/-- A later engine is an earlier one without a fiber and what belonged to it. -/
structure Spares (c : Conduct) (f : FiberId) (K : Multiset Ref) (e e' : Engine) : Prop where
  /-- Other fibers are as they were. -/
  fibers : ∀ g, g ≠ f → e'.fiber? g = e.fiber? g
  /-- Roots of other fibers are as they were. -/
  roots : ∀ g, g ≠ f → e'.roots.find? g = e.roots.find? g
  /-- Another fiber is the main one if it was. -/
  main : ∀ g, g ≠ f → (e'.main = some g ↔ e.main = some g)
  /-- Variables of other owners are as they were. -/
  directory : ∀ owner, owner ≠ .fiber f →
    e'.heap.directory.find? owner = e.heap.directory.find? owner
  /-- Machines are as they were. -/
  machines : e'.machines = e.machines
  /-- The continuations under the fiber are gone, and the others are as they were but for their
  children, in the order of their lists. -/
  agenda : ∃ gone, e.agenda.Drops gone e'.agenda ∧ ∀ id, id ∈ gone ↔ e.agenda.Under f id
  /-- A value is left as it was, or is dropped. -/
  fades : e.heap.Fades e'.heap
  /-- What somebody else holds keeps its value. -/
  values : c = .owning → ∀ r, HeldBeside f K e r → ∃ v, e.heap.get? r = some v ∧
    e'.heap.get? r = some v
  /-- The fiber is gone. -/
  forgets : e'.Forgets f

/-! ## The heap -/

/-- Giving up what a fiber holds drops values, and its variables. -/
lemma fades_vacate (x : Fiber) (f : FiberId) (cells : List Ref) (root : Option Ref) (h : Heap) :
    h.Fades (vacate x f cells root h) ∧
      (vacate x f cells root h).directory = h.directory.erase (.fiber f) := by
  let held := (((h.releaseAll cells).releaseAll (x.stack.reverse.filterMap (·))).releaseAll
    x.receivers.reverse).releaseAll x.arguments
  have given : h.Fades held :=
    (((Heap.fades_releaseAll _ _).trans (Heap.fades_releaseAll _ _)).trans
      (Heap.fades_releaseAll _ _)).trans (Heap.fades_releaseAll _ _)
  have named : held.directory = h.directory :=
    (((Heap.sheds_releaseAll _ _).directory.trans (Heap.sheds_releaseAll _ _).directory).trans
      (Heap.sheds_releaseAll _ _).directory).trans (Heap.sheds_releaseAll _ _).directory
  obtain ⟨weak, named'⟩ := Heap.fades_releaseWeakAll (x.cache.values.filterMap Target.ref?) held
  obtain ⟨owned, named''⟩ := Heap.fades_releaseOwner
    ((x.cache.values.filterMap Target.ref?).foldl Heap.releaseWeak held) (.fiber f)
  have all := given.trans (weak.trans owned)
  rw [named', named] at named''
  cases root with
  | none => exact ⟨all, named''⟩
  | some root =>
    exact ⟨all.trans (Heap.fades_release _ root),
      (Heap.sheds_release _ root).directory.trans named''⟩

/-! ## Values -/

/-- In a sound engine, what is held beside a fiber is held still, as long as the others have what
they had and values are not changed. -/
private lemma Sound.get?_of_heldBeside (ok : e'.Sound .owning scene K L)
    (fibers : ∀ g, g ≠ f → e'.fiber? g = e.fiber? g)
    (roots : ∀ g, g ≠ f → e'.roots.find? g = e.roots.find? g)
    (directory : ∀ owner, owner ≠ .fiber f →
      e'.heap.directory.find? owner = e.heap.directory.find? owner)
    (waiting : ∀ id k, e.agenda.get? id = some k → ¬ e.agenda.Under f id →
      e'.agenda.bond? id = some (k.fiber, k.cell))
    (fades : e.heap.Fades e'.heap) (orderly : e.Orderly) (held : HeldBeside f K e r) :
    ∃ v, e.heap.get? r = some v ∧ e'.heap.get? r = some v := by
  have kept : ∀ {s : Ref}, e'.heap.Live .owning s → ∃ v, e.heap.get? s = some v ∧
      e'.heap.get? s = some v := by
    intro s live
    obtain ⟨v, left⟩ := ok.heap.get?_of_live live rfl
    exact ⟨v, fades.get?_eq left, left⟩
  have variable_kept : ∀ {owner : Owner} {entry : String × Ref}, owner ≠ .fiber f →
      entry ∈ e.heap.entries owner → ∃ v, e.heap.get? entry.2 = some v ∧
        e'.heap.get? entry.2 = some v := by
    intro owner entry other found
    rw [Heap.entries, ← directory owner other] at found
    exact kept (ok.heap.live_of_entries found)
  induction held with
  | hand held => exact kept (ok.live_of_mem held)
  | fiber other found held =>
    rw [← fibers _ other] at found
    exact kept (ok.live_of_held (mem_held_of_fiber found held))
  | root other found =>
    rw [← roots _ other] at found
    exact kept (ok.live_of_held (mem_held_of_root found))
  | named other found => exact variable_kept other found
  | @shared name m r loaded held =>
    obtain ⟨entry, found, rfl⟩ := orderly.mem_shared loaded held
    have other : Owner.machine name ≠ .fiber f := fun same => by cases same
    exact variable_kept other found
  | waiting found other => exact kept (ok.live_of_held (mem_held_of_bond (waiting _ _ found other)))
  | nested outer value held ih =>
    -- the outer cell has kept its value, which therefore still owns the inner one
    obtain ⟨v, before, after⟩ := ih
    rw [value] at before
    cases before
    exact kept (ok.heap.live_of_get? after held)

/-! ## The end of a fiber -/

/-- The end of a fiber leaves everything else alone, whatever faults are recorded with it. -/
lemma Sound.spares (ok : e.Sound c scene K L) (tidy : e.agenda.Tidy)
    (orderly : c = .owning → e.Orderly) (present : e.fiber? f = some x)
    (faults : Array ExecutionError) : Spares c f K e ({ e with faults }.teardown f) := by
  -- the fiber may be running itself, so it leaves the scene first
  have idle : e.Sound c ⟨scene.crew.filter (·.1 ≠ f), scene.lost⟩ K L :=
    ok.crew_subset fun y hy => List.mem_of_mem_filter hy
  have after : ({ e with faults }.teardown f).Sound c ⟨scene.crew.filter (·.1 ≠ f), scene.lost⟩ K
      L :=
    sound_teardown (idle.of_same rfl rfl rfl rfl rfl rfl rfl)
      (fun _ y hy => of_decide_eq_true (List.mem_filter.1 hy).2) (fun _ l => l) fun _ l _ => l
  have present' : ({ e with faults } : Engine).fiber? f = some x := present
  obtain ⟨gone, dropped, exactly⟩ := Agenda.drops_under ok.indexed tidy f
  obtain ⟨fades, named⟩ := fades_vacate x f (e.agenda.cancelFiber f).1 (e.roots.find? f) e.heap
  rw [teardown_eq present'] at after ⊢
  have fibers : ∀ g, g ≠ f → (e.fibers.erase f.id).get? g.id = e.fiber? g := fun g other =>
    (fiber?_erase (e := e) g).trans (if_neg other)
  have roots : ∀ g, g ≠ f → (e.roots.erase f).find? g = e.roots.find? g := fun g other => by
    rw [Table.find?_erase, if_neg other]
  have main : ∀ g, g ≠ f → ((if e.main = some f then none else e.main) = some g ↔
      e.main = some g) := by
    intro g other
    split
    case isTrue ended =>
      rw [ended]
      exact ⟨fun none_left => absurd none_left.symm (Option.some_ne_none g),
        fun same => absurd (Option.some.inj same).symm other⟩
    case isFalse => exact Iff.rfl
  have directory : ∀ owner, owner ≠ .fiber f →
      (vacate x f (e.agenda.cancelFiber f).1 (e.roots.find? f) e.heap).directory.find? owner =
        e.heap.directory.find? owner := fun owner other => by
    rw [named, Table.find?_erase, if_neg other]
  have waiting : ∀ id k, e.agenda.get? id = some k → ¬ e.agenda.Under f id →
      (e.agenda.cancelFiber f).2.bond? id = some (k.fiber, k.cell) := fun id k found other => by
    have left := dropped.get_of_not_mem (fun lost => other ((exactly id).1 lost)) found
    have bound := Agenda.bond?_of_get? left
    exact bound
  refine ⟨fibers, roots, main, directory, rfl, ⟨gone, dropped, exactly⟩, fades, ?_, ?_⟩
  · rintro rfl r held
    exact after.get?_of_heldBeside fibers roots directory waiting fades (orderly rfl) held
  · refine ⟨(fiber?_erase (e := e) f).trans (if_pos rfl), ?_, ?_, contains_vacate _ _ _ _ _,
      dropped.owned_eq_none exactly tidy, ?_⟩
    · exact (Table.find?_erase ..).trans (if_pos rfl)
    · dsimp only
      split
      case isTrue => exact (Option.some_ne_none f).symm
      case isFalse other => exact other
    · intro id k left fiber
      obtain ⟨stays, k', found, rfl⟩ := dropped.get_of left
      exact stays ((exactly id).2 ⟨found ▸ rfl, id, k', found, fiber, .refl⟩)

end Engine

end FiberVM
