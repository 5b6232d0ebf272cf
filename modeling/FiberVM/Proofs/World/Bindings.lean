import FiberVM.Proofs.Engine.Bindings
import FiberVM.Proofs.World.CallSites
import FiberVM.Proofs.World.Tables

/-!
# Bindings in the course of time

Whatever a fiber remembers was found by a call of its own, and was not dropped when it called by
that name later on (`World.Recorded`). Where the binding of the name is fixed, it is what a search
would find now (`World.cached_targets_agree`), as long as no global variable with such a name is
declared and nothing is registered.
-/

namespace FiberVM

open Engine

variable {c : Conduct} {source : String → Option Image} {config : Config} {w w' : World}
  {s : Session} {e e₁ : Engine} {f : FiberId} {x y : Fiber} {i : Nat} {name : String} {t : Target}
  {image : Image}

/-- A call takes its arguments from the stack and leaves variables and the catalog alone. -/
lemma Session.Calls.stays (calls : s.Calls i e) :
    Stays s.engine e ∧ e.catalog = s.engine.catalog := by
  cases calls with
  | intro fetched small popped =>
    obtain ⟨x, stack, found, -, rfl⟩ := Operand.pop_ok popped
    exact ⟨.setFiber found rfl rfl, rfl⟩

namespace World

/-! ## Where what is remembered comes from -/

/-- Before it looks its name up, a call leaves variables and the catalog alone. -/
lemma Stores.stays (stores : w.Stores f i name e₁ t) :
    Stays w.engine e₁ ∧ e₁.catalog = w.engine.catalog := by
  cases stores with
  | intro called unknown readable forgotten =>
    cases called with
    | intro called =>
      obtain ⟨taken, same⟩ := called.stays
      obtain ⟨forgets, same'⟩ := Lookup.stays_forgotten unknown forgotten
      exact ⟨taken.trans forgets, same'.trans same⟩

/-- A call that finds dropped what is remembered renews it. -/
lemma Stale.renews (stale : w.Stale f i t) (portrayed : w.Portrayed)
    (remembered : w.engine.memo? f i = some t) :
    w.Renews f i := by
  obtain ⟨image, e, called, dropped⟩ := stale
  have memo : e.memo? f i = some t := (called.memo? portrayed).trans remembered
  cases called with
  | intro called => exact ⟨rfl, e, called, not_knows memo dropped⟩

/-- A fiber has found a target by a name. The engine is given as it was before the name was looked
up. Since then no call of the fiber by this name has found the target dropped. -/
inductive Recorded (source : String → Option Image) (config : Config) (f : FiberId) (i : Nat)
    (name : String) (e₁ : Engine) (t : Target) : World → Prop
  | stored {w w' : World}
      (reached : Relation.ReflTransGen Respects (host (.create source config) [] 0) w)
      (stores : w.Stores f i name e₁ t) (respects : Respects w w') :
      Recorded source config f i name e₁ t w'
  | later {w w' : World} (recorded : Recorded source config f i name e₁ t w)
      (respects : Respects w w') (fresh : ¬ w.Stale f i t) : Recorded source config f i name e₁ t w'

/-- Whatever is remembered was found. -/
lemma recorded_of_memo?
    (reached : Relation.ReflTransGen Respects (host (.create source config) [] 0) w)
    (remembered : w.engine.memo? f i = some t) :
    ∃ name e₁, Recorded source config f i name e₁ t w := by
  induction reached with
  | refl =>
    obtain ⟨x, found, -⟩ := Option.bind_eq_some_iff.1 remembered
    cases (Arena.get?_empty f.id).symm.trans found
  | @tail v w before respects ih =>
    have move := respects.free
    obtain ⟨n, recalls⟩ := move.recalls_some
    -- Either this very call has found the target, or it was remembered before and no call has found
    -- it dropped.
    by_cases renews : v.Renews f i
    · obtain ⟨image, e, called, unknown⟩ := renews.called
      obtain ⟨name, e₁, -, stores⟩ := called.stores unknown move remembered
      exact ⟨name, e₁, .stored before stores respects⟩
    · have already := recalls.memo?_eq_some remembered renews
      obtain ⟨name, e₁, recorded⟩ := ih already
      have portrayed := Reachable.portrayed (reachable_of_respects before)
      exact ⟨name, e₁, .later recorded respects fun stale =>
        renews (stale.renews portrayed already)⟩

/-- From the call on, machines and fibers have kept their variables. -/
lemma Recorded.develops (recorded : Recorded source config f i name e₁ t w) :
    ∃ v : World, v.Portrayed ∧ v.Stores f i name e₁ t ∧ v.engine.Orderly ∧ w.engine.Orderly ∧
      v.engine.Develops w.engine := by
  induction recorded with
  | @stored v w reached stores respects =>
    obtain ⟨ok, -⟩ := orderly_of_respects reached (orderly_create source config)
    exact ⟨v, Reachable.portrayed (reachable_of_respects reached), stores, ok, respects.orderly ok⟩
  | later _ respects _ ih =>
    obtain ⟨v, portrayed, stores, ok, ok', develops⟩ := ih
    obtain ⟨ok'', develops'⟩ := respects.orderly ok'
    exact ⟨v, portrayed, stores, ok, ok'', develops.trans develops'⟩

/-- The name can still be read in the image of the fiber. -/
lemma Recorded.readable (recorded : Recorded source config f i name e₁ t w)
    (found : w.engine.fiber? f = some x) :
    x.image.string? i = some name := by
  obtain ⟨v, portrayed, stores, -, -, develops⟩ := recorded.develops
  obtain ⟨y, before, readable⟩ := stores.readable portrayed
  rw [(develops.entries_fiber before found).2.1]
  exact readable

/-- Where the binding of the name is fixed, it still denotes what was found. -/
lemma Recorded.binds (recorded : Recorded source config f i name e₁ t w)
    (found : w.engine.fiber? f = some x) (fixed : Lookup.Fixed f name e₁)
    (catalog : w.engine.catalog = e₁.catalog)
    (undeclared : ∀ s ∈ Name.segments name, e₁.heap.lookup? .global (.name s) = none →
      w.engine.heap.lookup? .global (.name s) = none) :
    w.engine.Binds x.machine f (Name.segments name) t := by
  obtain ⟨v, portrayed, stores, ok, -, develops⟩ := recorded.develops
  obtain ⟨stays, same⟩ := stores.stays
  obtain ⟨y, before, -⟩ := stores.readable portrayed
  obtain ⟨z, there, machine, -⟩ := fiber?_of_origin? (stays.fibers f) before
  -- The search comes a little after the call begins, but what is between leaves variables alone.
  have lookups : ∀ owner key, v.engine.heap.lookup? owner key = e₁.heap.lookup? owner key := by
    intro owner key
    exact (stays.same.lookup? owner key).symm
  have former : v.engine.Binds y.machine f (Name.segments name) t := by
    cases stores with
    | intro _ _ _ _ resolved =>
      have binds := Lookup.binds_of_resolve there fixed resolved
      rw [machine] at binds
      exact binds.congr same.symm (fun _ => lookups _ _) (fun _ => lookups _ _) fun _ _ =>
        lookups _ _
  apply former.develop ok develops before found (catalog.trans same)
  intro s inside missing
  rw [lookups] at missing
  exact undeclared s inside missing

/-! ## What is remembered and what would be found -/

/-- An engine at work registers nothing. -/
lemma Move.catalog {t calls H} (move : Move c (work t calls H) w) :
    w.engine.catalog = (work t calls H).engine.catalog := by
  cases move with
  | step =>
    rw [engine_after]
    cases t with
    | run s => exact (Session.flies_step s).advances.catalog
    | fire due e =>
      obtain ⟨agenda, cells, changes⟩ := Session.changes_fire due e
      exact changes.catalog

/-- Whatever a fiber remembers was found by a call, by a name that its image has. If the binding of
the name is fixed and the target still exists, a search would find the same target now, with a
reference of its own like the one that a call takes to what is remembered. This holds as long as no
global variable is declared that has the name of a segment and the catalog stays the same, and
nothing but a registration changes the catalog. -/
theorem cached_targets_agree
    (reached : Relation.ReflTransGen Respects (host (.create source config) [] 0) w)
    (found : w.engine.fiber? f = some x) (remembered : x.cache.find? i = some t) :
    (∃ name e₁, Recorded source config f i name e₁ t w) ∧
    (∀ name e₁, Recorded source config f i name e₁ t w → x.image.string? i = some name ∧
      (Lookup.Fixed f name e₁ → t.Lives w.engine.heap → w.engine.catalog = e₁.catalog →
        (∀ s ∈ Name.segments name,
          e₁.heap.lookup? .global (.name s) = none →
            w.engine.heap.lookup? .global (.name s) = none) →
        t.Plain ∧ ∃ heap, Lookup.known f i w.engine = .ok (some t) { w.engine with heap } ∧
          Lookup.resolve f name none w.engine =
            .ok t { w.engine with heap, searches := w.engine.searches + 1 })) ∧
    ∀ w', Respects w w' → w'.engine.catalog = w.engine.catalog ∨ w.engine.Registers w'.engine := by
  have memo : w.engine.memo? f i = some t := by
    rw [Engine.memo?, found]
    exact remembered
  refine ⟨recorded_of_memo? reached memo, ?_, ?_⟩
  · intro name e₁ recorded
    refine ⟨recorded.readable found, ?_⟩
    intro fixed lives catalog undeclared
    have binds := recorded.binds found fixed catalog undeclared
    obtain ⟨heap, held⟩ := lives.hold?
    exact ⟨binds.plain, heap, Lookup.known_of_hold? memo held,
      Lookup.resolve_of_binds found binds held⟩
  · intro w' respects
    exact respects.free.advances.imp_left Advances.catalog

private lemma reached_beforeFirstRead :
    Relation.ReflTransGen Respects (host (.create (fun _ => some readVariableTwice) {}) [] 0)
      (work (.run beforeFirstRead) [] 0) :=
  respects_of_reaches (c := .owning) nofun reachable_beforeFirstRead

private lemma respects_afterFirstRead :
    Respects (work (.run beforeFirstRead) [] 0) (work (.run afterFirstRead) [] 0) :=
  .move (c := .owning) nofun move_afterFirstRead

private lemma respects_beforeSecondRead :
    Respects (work (.run afterFirstRead) [] 0) (work (.run beforeSecondRead) [] 0) :=
  .move (c := .owning) nofun move_beforeSecondRead

/-- The name is bound at its first call. -/
private lemma recorded_beforeSecondRead :
    ∃ e₁, Recorded (fun _ => some readVariableTwice) {} ⟨0⟩ 0 "n" e₁ (.value ⟨1⟩)
      (work (.run beforeSecondRead) [] 0) ∧
      (work (.run beforeSecondRead) [] 0).engine.catalog = e₁.catalog := by
  have blank : (leftBy (Operand.pop ⟨0⟩ beforeFirstRead.engine)).memo? ⟨0⟩ 0 = none := by
    decide +kernel
  have memo : (work (.run afterFirstRead) [] 0).engine.memo? ⟨0⟩ 0 = some (.value ⟨1⟩) := by
    decide +kernel
  have named : readVariableTwice.string? 0 = some "n" := by decide +kernel
  have unknown : ∀ t, ¬ (leftBy (Operand.pop ⟨0⟩ beforeFirstRead.engine)).Knows ⟨0⟩ 0 t := by
    rintro t ⟨remembered, -⟩
    rw [blank] at remembered
    cases remembered
  obtain ⟨name, e₁, readable, stores⟩ :=
    calls_beforeFirstRead.stores unknown (move_afterFirstRead (c := .owning)) memo
  cases named.symm.trans readable
  have recorded := Recorded.stored reached_beforeFirstRead stores respects_afterFirstRead
  refine ⟨e₁, .later recorded respects_beforeSecondRead (fresh_afterFirstRead _), ?_⟩
  have same := (move_beforeSecondRead (c := .owning)).catalog.trans
      (move_afterFirstRead (c := .owning)).catalog
  exact same.trans stores.stays.2.symm

/-- The variable that is remembered is the one that would be found. -/
theorem cached_targets_agree_beforeFirstRead :
    Relation.ReflTransGen Respects (host (.create (fun _ => some readVariableTwice) {}) [] 0)
      (work (.run beforeSecondRead) [] 0) ∧
      (work (.run beforeSecondRead) [] 0).engine.memo? ⟨0⟩ 0 = some (.value ⟨1⟩) ∧
      ∃ heap, Lookup.known ⟨0⟩ 0 (work (.run beforeSecondRead) [] 0).engine =
          .ok (some (.value ⟨1⟩)) { (work (.run beforeSecondRead) [] 0).engine with heap } ∧
        Lookup.resolve ⟨0⟩ "n" none (work (.run beforeSecondRead) [] 0).engine =
          .ok (.value ⟨1⟩) { (work (.run beforeSecondRead) [] 0).engine with
            heap
            searches := (work (.run beforeSecondRead) [] 0).engine.searches + 1 } := by
  have reached : Relation.ReflTransGen Respects
    (host (.create (fun _ => some readVariableTwice) {}) [] 0)
      (work (.run beforeSecondRead) [] 0) :=
    (reached_beforeFirstRead.tail respects_afterFirstRead).tail respects_beforeSecondRead
  have memo : (work (.run beforeSecondRead) [] 0).engine.memo? ⟨0⟩ 0 = some (.value ⟨1⟩) := by
    decide +kernel
  have alive : ((work (.run beforeSecondRead) [] 0).engine.heap.get? ⟨1⟩).isSome := by
    decide +kernel
  have undeclared : (work (.run beforeSecondRead) [] 0).engine.heap.lookup? .global (.name "n") =
      none := by decide +kernel
  have segments : Name.segments "n" = ["n"] := by decide +kernel
  obtain ⟨x, found, remembered⟩ := Option.bind_eq_some_iff.1 memo
  obtain ⟨e₁, recorded, catalog⟩ := recorded_beforeSecondRead
  obtain ⟨-, agrees, -⟩ := cached_targets_agree reached found remembered
  obtain ⟨-, fixed⟩ := agrees "n" e₁ recorded
  obtain ⟨-, heap, same⟩ := fixed (.single segments (by decide)) (Target.lives_value alive) catalog
    fun s inside _ => by
    rw [segments] at inside
    cases List.mem_singleton.1 inside
    exact undeclared
  exact ⟨reached, memo, heap, same⟩

end World

end FiberVM
