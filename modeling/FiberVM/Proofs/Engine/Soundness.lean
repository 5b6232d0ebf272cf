import FiberVM.Proofs.Agenda.Bonds
import FiberVM.Proofs.Native.Builtin

/-!
# Sound engines

An engine is sound if its fibers and their cells fit together (`Engine.Consistent`) and if the heap
accounts for everything that fibers, continuations, roots and machines hold, together with what is
in the hands of those who work on the engine (`Engine.Sound`). How much of this can be expected
depends on the host.

Every step of an engine keeps it sound and is related to the engine before (`Engine.Precedes`): the
agenda evolves, roots are not replaced and recorded faults stay.
-/

namespace FiberVM

/-- The strong references that a fiber holds. -/
def Fiber.refs (f : Fiber) : Multiset Ref :=
  (f.stack.filterMap (·) : List Ref) + (f.receivers : Multiset Ref) + (f.arguments : Multiset Ref)

/-- The weak references that a fiber holds. -/
def Fiber.weakRefs (f : Fiber) : Multiset Ref := f.cache.total fun t => (t.ref?.toList : List Ref)

/-- A target that calls no function of the host. -/
def Target.IsBuiltin (t : Target) : Prop :=
  ∀ f receiver, t = .function f receiver → f.isBuiltin = true

/-- A fiber that has called no function of the host. -/
def Fiber.IsBuiltin (f : Fiber) : Prop := ∀ i t, f.cache.find? i = some t → t.IsBuiltin

lemma FiberId.eq_of_id_eq {f g : FiberId} (h : f.id = g.id) : f = g := by
  cases f
  cases g
  exact congrArg FiberId.mk h

/-- What is going on in an engine. -/
structure Scene where
  /-- The fibers that are running, with references to their cells. -/
  crew : List (FiberId × Ref)
  /-- The fibers that are about to end. -/
  lost : List FiberId

namespace Engine

variable {c : Conduct} {scene : Scene} {K K' L L' : Multiset Ref} {e e' e'' : Engine}
  {f g : FiberId} {r : Ref} {x y : Fiber} {h : Heap} {a : Agenda}

/-- The strong references that an engine holds outside of its heap. -/
def held (e : Engine) : Multiset Ref :=
  e.fibers.total Fiber.refs + e.agenda.cells + e.roots.total fun r => {r}

/-- The weak references that an engine holds. -/
def weakly (e : Engine) : Multiset Ref :=
  e.fibers.total Fiber.weakRefs + e.machines.total fun m => (m.shared : Multiset Ref)

/-- The cell of a fiber, if it has one yet. -/
def cellOf? (e : Engine) (f : FiberId) : Option (Option Ref) := (e.fiber? f).map (·.cell)

/-- Fibers and their cells fit together. -/
structure Consistent (scene : Scene) (e : Engine) : Prop where
  /-- The cells of the heap are in order. -/
  tidy : e.heap.Tidy
  /-- The host has added no functions. -/
  natives : ∀ f ∈ e.catalog.natives, f.isBuiltin = true
  /-- Fibers have called no functions of the host. -/
  builtin : ∀ f x, e.fiber? f = some x → x.IsBuiltin
  /-- A cell that holds an instance is that of the fiber, as long as the fiber exists. -/
  instances : ∀ r f, e.heap.get? r = some (.instance f) →
    f.id < e.fibers.next ∧ ∀ cell, e.cellOf? f = some cell → cell = some r
  /-- The cell of a fiber holds its instance, or was dropped and the fiber is about to end. -/
  celled : ∀ f r, e.cellOf? f = some (some r) → r.id < e.heap.cells.next ∧
    (e.heap.get? r = some (.instance f) ∨
      e.heap.get? r = none ∧ (f ∈ e.heap.orphans ∨ f ∈ scene.lost))
  /-- Only a fiber that is about to end has no cell. -/
  complete : ∀ f, e.cellOf? f = some none → f ∈ scene.lost
  /-- A fiber that is about to end has lost its cell. -/
  orphans : ∀ f, f ∈ e.heap.orphans ∨ f ∈ scene.lost →
    f.id < e.fibers.next ∧ ∀ r, e.cellOf? f = some (some r) → e.heap.get? r = none
  /-- Continuations refer to the cells of their fibers. -/
  waiting : ∀ id f r, e.agenda.bond? id = some (f, r) → e.cellOf? f = some (some r)
  /-- Roots refer to the cells of their fibers. -/
  rooted : ∀ f r, e.roots.find? f = some r → e.cellOf? f = some (some r)
  /-- The main fiber is a root. -/
  main : ∀ f, e.main = some f → (e.roots.find? f).isSome
  /-- Only fibers that exist have variables. -/
  owners : ∀ f, e.heap.directory.contains (.fiber f) → (e.cellOf? f).isSome
  /-- Fibers that run exist. -/
  crew : ∀ x ∈ scene.crew, e.cellOf? x.1 = some (some x.2)

/-- What is known of an engine with strong references `K` and weak references `L` in the hands. -/
structure Sound (c : Conduct) (scene : Scene) (K L : Multiset Ref) (e : Engine) : Prop where
  indexed : e.agenda.Indexed
  consistent : c ≠ .free → e.Consistent scene
  accounts : c = .owning → e.heap.Accounts (K + e.held) (L + e.weakly)

/-- Of an engine with a host that is free, only its continuations are known. -/
lemma Sound.of_indexed {scene K L} {e : Engine} (known : e.agenda.Indexed) :
    e.Sound .free scene K L where
  indexed := known
  consistent := absurd rfl
  accounts := nofun

/-- What is known of an earlier and a later engine. -/
structure Evolves (c : Conduct) (e e' : Engine) : Prop where
  /-- Continuations that are gone do not come back. -/
  agenda : e.agenda.Evolves e'.agenda
  /-- Recorded faults stay, and further ones are allowed. -/
  faults : ∃ new, e'.faults.toList = e.faults.toList ++ new ∧ ∀ x ∈ new, x.fault.Allowed c

/-- What is known of an earlier and a later engine as long as the host is not answered. -/
structure Precedes (c : Conduct) (e e' : Engine) : Prop extends Evolves c e e' where
  /-- Roots are not replaced. -/
  roots : ∀ f r, e'.roots.find? f = some r → e.roots.find? f = some r

lemma Evolves.refl (c : Conduct) (e : Engine) : Evolves c e e where
  agenda := .refl _
  faults := ⟨[], (List.append_nil _).symm, nofun⟩

lemma Evolves.trans (p : Evolves c e e') (q : Evolves c e' e'') : Evolves c e e'' where
  agenda := p.agenda.trans q.agenda
  faults := by
    obtain ⟨new, faults, allowed⟩ := p.faults
    obtain ⟨new', faults', allowed'⟩ := q.faults
    refine ⟨new ++ new', by rw [faults', faults, List.append_assoc], fun x hx => ?_⟩
    exact (List.mem_append.1 hx).elim (allowed x) (allowed' x)

/-- A change of the agenda alone. -/
lemma Evolves.of_agenda (agenda : e.agenda.Evolves e'.agenda) (faults : e'.faults = e.faults) :
    Evolves c e e' where
  agenda := agenda
  faults := ⟨[], by rw [faults, List.append_nil], nofun⟩

lemma Precedes.refl (c : Conduct) (e : Engine) : Precedes c e e where
  toEvolves := .refl c e
  roots _ _ found := found

lemma Precedes.trans (p : Precedes c e e') (q : Precedes c e' e'') : Precedes c e e'' where
  toEvolves := p.toEvolves.trans q.toEvolves
  roots f r found := p.roots f r (q.roots f r found)

instance : Std.Refl (Precedes c) := ⟨Precedes.refl c⟩

instance : IsTrans Engine (Precedes c) := ⟨fun _ _ _ => Precedes.trans⟩

/-- A change that touches neither the agenda nor the roots nor the faults. -/
lemma Precedes.of_same (agenda : e'.agenda = e.agenda) (roots : e'.roots = e.roots)
    (faults : e'.faults = e.faults) : Precedes c e e' where
  toEvolves := .of_agenda (agenda ▸ .refl _) faults
  roots _ _ found := roots ▸ found

/-- Nothing waits for a fiber. -/
def Unawaited (f : FiberId) (e : Engine) : Prop := ∀ id r, e.agenda.bond? id ≠ some (f, r)

/-! ## What a sound engine gives -/

lemma Sound.cast (ok : e.Sound c scene K L) (hand : K = K') (weakHand : L = L') :
    e.Sound c scene K' L' := by
  subst hand
  subst weakHand
  exact ok

/-- Only a host that owns its references cares for hands. -/
lemma Sound.of_ne_owning (other : c ≠ .owning) (ok : e.Sound c scene K L) :
    e.Sound c scene K' L' where
  indexed := ok.indexed
  consistent := ok.consistent
  accounts hc := absurd hc other

/-- The heap of a sound engine accounts for what the engine holds. -/
lemma Sound.heap (ok : e.Sound c scene K L) : e.heap.Sound c (K + e.held) (L + e.weakly) where
  tidy hc := (ok.consistent hc).tidy
  accounts := ok.accounts

/-- What is in the hand is live. -/
lemma Sound.live_of_mem (ok : e.Sound c scene K L) (hr : r ∈ K) : e.heap.Live c r :=
  ok.heap.live_of_mem (Multiset.mem_add.2 (.inl hr))

/-- What the engine holds is live. -/
lemma Sound.live_of_held (ok : e.Sound c scene K L) (hr : r ∈ e.held) : e.heap.Live c r :=
  ok.heap.live_of_mem (Multiset.mem_add.2 (.inr hr))

lemma mem_held_of_fiber (hx : e.fiber? f = some x) (hr : r ∈ x.refs) : r ∈ e.held :=
  Multiset.mem_add.2 (.inl (Multiset.mem_add.2 (.inl (Arena.mem_total hx hr))))

lemma mem_held_of_bond {id} (bound : e.agenda.bond? id = some (f, r)) :
    r ∈ e.held :=
  Multiset.mem_add.2 (.inl (Multiset.mem_add.2 (.inr (Agenda.mem_cells bound))))

lemma mem_held_of_root (root : e.roots.find? f = some r) : r ∈ e.held :=
  Multiset.mem_add.2 (.inr (Table.mem_total root (Multiset.mem_singleton_self r)))

lemma cellOf?_of_fiber? (hx : e.fiber? f = some x) : e.cellOf? f = some x.cell := by
  rw [cellOf?, hx]
  rfl

lemma fiber?_of_cellOf? {cell} (hf : e.cellOf? f = some cell) :
    ∃ x, e.fiber? f = some x ∧ x.cell = cell :=
  Option.map_eq_some_iff.1 hf

/-- A fiber with a cell was issued. -/
lemma lt_next_of_cellOf? {cell} (hf : e.cellOf? f = some cell) :
    f.id < e.fibers.next := by
  obtain ⟨x, hx, -⟩ := fiber?_of_cellOf? hf
  by_contra late
  rw [fiber?, e.fibers.get?_of_next_le (Nat.le_of_not_lt late)] at hx
  cases hx

/-! ## Changes of the heap -/

/-- A heap that has kept the cells of fibers can take the place of the one before. -/
lemma Consistent.of_keeps (ok : e.Consistent scene) (keeps : e.heap.Keeps h) (tidy : h.Tidy) :
    Consistent scene { e with heap := h } where
  tidy := tidy
  natives := ok.natives
  builtin := ok.builtin
  instances r f hf := ok.instances r f (keeps.instance_of r f hf)
  celled f r hf := by
    obtain ⟨issued, state⟩ := ok.celled f r hf
    refine ⟨Nat.lt_of_lt_of_le issued keeps.next_le, ?_⟩
    rcases state with held | ⟨gone, ends⟩
    · rcases keeps.kept r f held with held' | ⟨gone, orphan⟩
      · exact .inl held'
      · exact .inr ⟨gone, .inl orphan⟩
    · exact .inr ⟨keeps.dropped r issued gone, ends.imp_left (keeps.orphans f)⟩
  complete := ok.complete
  orphans f ends := by
    have before : f ∈ e.heap.orphans ∨ f ∈ scene.lost →
        f.id < e.fibers.next ∧ ∀ r, e.cellOf? f = some (some r) → h.get? r = none := by
      intro ends
      obtain ⟨issued, gone⟩ := ok.orphans f ends
      exact ⟨issued, fun r hr => keeps.dropped r (ok.celled f r hr).1 (gone r hr)⟩
    rcases ends with orphan | lost
    · rcases keeps.orphan_of f orphan with orphan | ⟨r, held, gone⟩
      · exact before (.inl orphan)
      · obtain ⟨issued, canonical⟩ := ok.instances r f held
        refine ⟨issued, fun s hs => ?_⟩
        cases canonical (some s) hs
        exact gone
    · exact before (.inr lost)
  waiting := ok.waiting
  rooted := ok.rooted
  main := ok.main
  owners f hf := ok.owners f (keeps.owners f hf)
  crew := ok.crew

lemma Sound.of_heap (ok : e.Sound c scene K L) (related : Heap.Precedes c e.heap h)
    (heap : h.Sound c (K' + e.held) (L' + e.weakly)) :
    Sound c scene K' L' { e with heap := h } where
  indexed := ok.indexed
  consistent hc := (ok.consistent hc).of_keeps (related hc) (heap.tidy hc)
  accounts := heap.accounts

/-- Giving up references in the heap takes them from the hand. -/
lemma turns_mapHeap {given} {change : Heap → Heap}
    (turns : ∀ M N, Turns (Heap.Precedes c)
      (Heap.Sound c (given + M) N) change (Heap.Sound c M N)) :
    Turns (Precedes c) (Sound c scene (given + K) L) (·.mapHeap change) (Sound c scene K L) := by
  intro e ok
  obtain ⟨related, heap⟩ := turns (K + e.held) (L + e.weakly) e.heap
    (ok.heap.cast (add_assoc _ _ _) rfl)
  exact ⟨.of_same rfl rfl rfl, ok.of_heap related heap⟩

lemma turns_release (r : Ref) :
    Turns (Precedes c) (Sound c scene ({r} + K) L) (·.release r) (Sound c scene K L) :=
  turns_mapHeap fun _ _ => Heap.turns_release r

lemma turns_releaseAll (rs : List Ref) :
    Turns (Precedes c) (Sound c scene (rs + K) L) (·.releaseAll rs) (Sound c scene K L) :=
  turns_mapHeap fun _ _ => Heap.turns_releaseAll rs

lemma turns_releaseValue {v : Value} (other : c ≠ .free → v.instance? = none) :
    Turns (Precedes c) (Sound c scene (v.refs + K) L) (·.mapHeap (·.releaseValue v))
      (Sound c scene K L) :=
  turns_mapHeap fun _ _ => Heap.turns_releaseValue other

lemma turns_releaseValues {vs} (other : c ≠ .free → ∀ v ∈ vs, v.instance? = none) :
    Turns (Precedes c) (Sound c scene (Value.refsAll vs + K) L) (·.mapHeap (·.releaseValues vs))
      (Sound c scene K L) :=
  turns_mapHeap fun _ _ => Heap.turns_releaseValues other

/-- Giving up a weak reference takes it from the other hand. -/
lemma turns_releaseWeak (r : Ref) :
    Turns (Precedes c) (Sound c scene K ({r} + L)) (·.mapHeap (·.releaseWeak r))
      (Sound c scene K L) := by
  intro e ok
  obtain ⟨related, heap⟩ := Heap.turns_releaseWeak r e.heap (ok.heap.cast rfl (add_assoc _ _ _))
  exact ⟨.of_same rfl rfl rfl, ok.of_heap related heap⟩

/-! ## Changes of fibers -/

lemma fiber_of_some (found : e.fiber? f = some x) :
    EngineM.fiber f e = .ok x e := by rw [EngineM.fiber, found]

lemma fiber_of_none (missing : e.fiber? f = none) :
    EngineM.fiber f e = .error .fiberDestroyed e := by
  rw [EngineM.fiber, missing]

/-- A fiber that is read is there. -/
lemma fiber_ok (run : EngineM.fiber f e = .ok x e') : e.fiber? f = some x ∧ e' = e := by
  cases found : e.fiber? f with
  | some y =>
    rw [fiber_of_some found] at run
    cases run
    exact ⟨rfl, rfl⟩
  | none =>
    rw [fiber_of_none found] at run
    cases run

lemma onHeap_ok {α : Type} {m : HeapM α} {a : α} (run : EngineM.onHeap m e = .ok a e') :
    ∃ heap, m e.heap = .ok a heap ∧ e' = { e with heap } := by
  unfold EngineM.onHeap at run
  cases first : m e.heap <;> rw [first] at run <;> cases run
  exact ⟨_, rfl, rfl⟩

lemma ensure_ok {α : Type} {m : EngineM α} {f : Engine → Engine} {a}
    (run : m.ensure f e = .ok a e') :
    ∃ e₁, m e = .ok a e₁ ∧ e' = f e₁ := by
  unfold EngineM.ensure at run
  cases first : m e <;> rw [first] at run <;> cases run
  exact ⟨_, rfl, rfl⟩

lemma onFault_ok {α : Type} {m : EngineM α} {f : Engine → Engine} {a}
    (run : m.onFault f e = .ok a e') :
    m e = .ok a e' := by
  unfold EngineM.onFault at run
  cases first : m e <;> rw [first] at run <;> cases run
  rfl

lemma orFault_ok {α : Type} {o : Option α} {a : α} {fault : Fault}
    (run : EngineM.orFault o fault e = .ok a e') :
    o = some a ∧ e' = e := by
  cases o <;> cases run
  exact ⟨rfl, rfl⟩

/-- A fiber is replaced, and the others are as they were. -/
lemma fiber?_setFiber (hx : e.fiber? f = some x) :
    (e.setFiber f y).fiber? g = if g = f then some y else e.fiber? g := by
  have present : (e.fibers.get? f.id).isSome := by
    rw [show e.fibers.get? f.id = some x from hx]
    rfl
  rw [fiber?, setFiber, Arena.get?_set]
  by_cases same : g = f
  · simp [same, present]
  · have ne : g.id ≠ f.id := fun ids => same (FiberId.eq_of_id_eq ids)
    simp [same, ne, fiber?]

lemma cellOf?_setFiber (hx : e.fiber? f = some x) :
    (e.setFiber f y).cellOf? g = if g = f then some y.cell else e.cellOf? g := by
  rw [cellOf?, fiber?_setFiber hx]
  split <;> rfl

/-- A fiber that keeps its cell can be replaced. -/
lemma Consistent.setFiber (ok : e.Consistent scene)
    (hx : e.fiber? f = some x)
    (cell : y.cell = x.cell)
    (builtin : x.IsBuiltin → y.IsBuiltin) :
    Consistent scene (e.setFiber f y) := by
  have next : (e.setFiber f y).fibers.next = e.fibers.next := e.fibers.next_set f.id y
  have same : ∀ g, (e.setFiber f y).cellOf? g = e.cellOf? g := by
    intro g
    rw [cellOf?_setFiber hx]
    split
    case isTrue eq => rw [eq, cellOf?_of_fiber? hx, cell]
    case isFalse => rfl
  exact
    { tidy := ok.tidy
      natives := ok.natives
      builtin := by
        intro g z hz
        rw [fiber?_setFiber hx] at hz
        split at hz
        case isTrue => cases hz; exact builtin (ok.builtin f x hx)
        case isFalse => exact ok.builtin g z hz
      instances := fun r g hg => by
        simp only [next, same]
        exact ok.instances r g hg
      celled := fun g r hg => ok.celled g r ((same g).symm.trans hg)
      complete := fun g hg => ok.complete g ((same g).symm.trans hg)
      orphans := fun g ends => by
        simp only [next, same]
        exact ok.orphans g ends
      waiting := fun id g r bound => (same g).trans (ok.waiting id g r bound)
      rooted := fun g r root => (same g).trans (ok.rooted g r root)
      main := ok.main
      owners := fun g owner => by
        rw [same]
        exact ok.owners g owner
      crew := fun z hz => (same z.1).trans (ok.crew z hz) }

/-- A fiber can be replaced if it keeps its cell and the hands make up for what it holds. -/
lemma Sound.setFiber (ok : e.Sound c scene K L)
    (hx : e.fiber? f = some x)
    (cell : y.cell = x.cell)
    (builtin : c ≠ .free → x.IsBuiltin → y.IsBuiltin)
    (hand : K' + y.refs = K + x.refs)
    (weakHand : L' + y.weakRefs = L + x.weakRefs) :
    Sound c scene K' L' (e.setFiber f y) where
  indexed := ok.indexed
  consistent hc := (ok.consistent hc).setFiber hx cell (builtin hc)
  accounts hc := by
    refine (ok.accounts hc).cast ?_ ?_
    · have replaced := e.fibers.total_set_eq Fiber.refs (y := y) hx
      have taken := Arena.total_erase Fiber.refs hx
      rw [held, held, taken]
      change K + (x.refs + _ + _ + _) = K' + ((e.fibers.set f.id y).total Fiber.refs + _ + _)
      rw [replaced]
      calc K + (x.refs + (e.fibers.erase f.id).total Fiber.refs + e.agenda.cells +
              e.roots.total fun r => {r})
          = (K + x.refs) + ((e.fibers.erase f.id).total Fiber.refs + e.agenda.cells +
              e.roots.total fun r => {r}) := by abel
        _ = _ := by rw [← hand]; abel
    · have replaced := e.fibers.total_set_eq Fiber.weakRefs (y := y) hx
      have taken := Arena.total_erase Fiber.weakRefs hx
      rw [weakly, weakly, taken]
      change L + (x.weakRefs + _ + _) = L' + ((e.fibers.set f.id y).total Fiber.weakRefs + _)
      rw [replaced]
      calc L + (x.weakRefs + (e.fibers.erase f.id).total Fiber.weakRefs +
              e.machines.total fun m => (m.shared : Multiset Ref))
          = (L + x.weakRefs) + ((e.fibers.erase f.id).total Fiber.weakRefs +
              e.machines.total fun m => (m.shared : Multiset Ref)) := by abel
        _ = _ := by rw [← weakHand]; abel

/-! ## Changes of the agenda -/

/-- What the agenda hands back comes into the hand. -/
lemma Sound.sheds {given} (ok : e.Sound c scene K L) (evolved : e.agenda.Evolves a)
    (shed : e.agenda.Sheds given a) :
    Precedes c e { e with agenda := a } ∧ Sound c scene (given + K) L { e with agenda := a } := by
  refine ⟨⟨.of_agenda evolved rfl, fun _ _ found => found⟩,
    shed.indexed ok.indexed, fun hc => ?_, fun hc => ?_⟩
  · have before := ok.consistent hc
    exact { before with waiting := fun id f r bound => before.waiting id f r (shed.bond_of bound) }
  · refine (ok.accounts hc).cast ?_ rfl
    rw [held, held, shed.cells]
    change _ = given + K + (_ + a.cells + _)
    abel

/-- A new continuation takes a reference from the hand. -/
lemma Sound.gains (ok : e.Sound c scene ({r} + K) L)
    (evolved : e.agenda.Evolves a)
    (gained : e.agenda.Gains f r a)
    (bound : c ≠ .free → e.cellOf? f = some (some r)) :
    Precedes c e { e with agenda := a } ∧ Sound c scene K L { e with agenda := a } := by
  refine ⟨⟨.of_agenda evolved rfl, fun _ _ found => found⟩,
    gained.indexed ok.indexed, fun hc => ?_, fun hc => ?_⟩
  · have before := ok.consistent hc
    refine { before with waiting := fun id g s hb => ?_ }
    have hb' : a.bond? id = some (g, s) := hb
    rw [gained.bond] at hb'
    split at hb'
    case isTrue =>
      cases hb'
      exact bound hc
    case isFalse => exact before.waiting id g s hb'
  · refine (ok.accounts hc).cast ?_ rfl
    rw [held, held]
    change _ = K + (_ + a.cells + _)
    rw [gained.cells]
    abel

/-! ## Other changes -/

/-- Soundness is not about the clock, the output and the faults. -/
lemma Sound.of_same (ok : e.Sound c scene K L)
    (heap : e'.heap = e.heap)
    (catalog : e'.catalog = e.catalog)
    (fibers : e'.fibers = e.fibers)
    (machines : e'.machines = e.machines)
    (agenda : e'.agenda = e.agenda)
    (main : e'.main = e.main)
    (roots : e'.roots = e.roots) :
    e'.Sound c scene K L := by
  cases e
  cases e'
  cases heap
  cases catalog
  cases fibers
  cases machines
  cases agenda
  cases main
  cases roots
  exact
    { indexed := ok.indexed
      consistent := fun hc =>
        have before := ok.consistent hc
        ⟨before.tidy, before.natives, before.builtin, before.instances, before.celled,
          before.complete, before.orphans, before.waiting, before.rooted, before.main,
            before.owners,
          before.crew⟩
      accounts := ok.accounts }

/-- Fibers may leave the scene without ending. -/
lemma Sound.crew_subset {crew lost} (ok : e.Sound c ⟨crew, lost⟩ K L) {rest}
    (subset : ∀ x ∈ rest, x ∈ crew) : e.Sound c ⟨rest, lost⟩ K L where
  indexed := ok.indexed
  consistent hc :=
    have before := ok.consistent hc
    ⟨before.tidy, before.natives, before.builtin, before.instances, before.celled, before.complete,
      before.orphans, before.waiting, before.rooted, before.main, before.owners,
      fun x hx => before.crew x (subset x hx)⟩
  accounts := ok.accounts

/-- A fiber that has a cell may enter the scene. -/
lemma Sound.crew_cons {crew lost} (ok : e.Sound c ⟨crew, lost⟩ K L)
    (present : c ≠ .free → e.cellOf? f = some (some r)) :
    e.Sound c ⟨(f, r) :: crew, lost⟩ K L where
  indexed := ok.indexed
  consistent hc := by
    have before := ok.consistent hc
    refine ⟨before.tidy, before.natives, before.builtin, before.instances, before.celled,
      before.complete, before.orphans, before.waiting, before.rooted, before.main, before.owners,
      fun x hx => ?_⟩
    rcases List.mem_cons.1 hx with rfl | hx
    · exact present hc
    · exact before.crew x hx
  accounts := ok.accounts

end Engine

end FiberVM
