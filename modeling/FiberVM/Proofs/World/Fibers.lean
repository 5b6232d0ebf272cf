import FiberVM.Proofs.World

/-!
# Fibers and their cells

As long as the host adds no functions and hands over no instances, the tables of an engine agree on
which fibers exist and which cells are theirs (`fibers_agree`), whether or not the host owns the
references that it hands over.
-/

namespace FiberVM

variable {source : String → Option Image} {config : Config} {w : World} {e : Engine} {f : FiberId}
  {r : Ref} {x : Fiber}

namespace Engine

variable {scene : Scene} {crew : List (FiberId × Ref)}

/-- A fiber that is known to another table exists, with the cell that is known there. -/
def Has (e : Engine) (f : FiberId) (r : Ref) : Prop := ∃ x, e.fiber? f = some x ∧ x.cell = some r

/-- The cell of a fiber holds its instance, or it was dropped and the fiber is an orphan. -/
lemma Consistent.cell_of_fiber (ok : e.Consistent ⟨crew, []⟩) (hx : e.fiber? f = some x) :
    ∃ r, x.cell = some r ∧
      (e.heap.get? r = some (.instance f) ∧ 0 < e.heap.strong r ∨
        e.heap.get? r = none ∧ f ∈ e.heap.orphans) := by
  have celled := cellOf?_of_fiber? hx
  cases hcell : x.cell with
  | none =>
    rw [hcell] at celled
    cases ok.complete f celled
  | some r =>
    rw [hcell] at celled
    refine ⟨r, rfl, ?_⟩
    rcases (ok.celled f r celled).2 with value | ⟨dropped, orphan⟩
    · exact .inl ⟨value, ok.tidy.strong_pos_of_get? value⟩
    · exact .inr ⟨dropped, orphan.resolve_right List.not_mem_nil⟩

/-- Continuations are registered for fibers that exist. -/
lemma Consistent.has_of_get? (ok : e.Consistent scene) {id k}
    (registered : e.agenda.get? id = some k) : e.Has k.fiber k.cell :=
  fiber?_of_cellOf? (ok.waiting id k.fiber k.cell (Agenda.bond?_of_get? registered))

end Engine

namespace World

/-- Whatever a host that adds no functions and hands over no instances does, the cell of every fiber
holds its instance and is referenced, or was dropped and the fiber is an orphan; an orphan that
still exists has lost its cell; continuations and roots name fibers that exist, by their cells; the
main fiber and fibers with variables exist. Hence an update finds the fiber of every continuation
that it fires. -/
theorem fibers_agree (reached : Reachable .plain source config w) :
    (∀ f x, w.engine.fiber? f = some x → ∃ r, x.cell = some r ∧
        (w.engine.heap.get? r = some (.instance f) ∧ 0 < w.engine.heap.strong r ∨
          w.engine.heap.get? r = none ∧ f ∈ w.engine.heap.orphans)) ∧
      (∀ f ∈ w.engine.heap.orphans, ∀ r, w.engine.Has f r → w.engine.heap.get? r = none) ∧
      (∀ id k, w.engine.agenda.get? id = some k → w.engine.Has k.fiber k.cell) ∧
      (∀ f r, w.engine.roots.find? f = some r → w.engine.Has f r) ∧
      (∀ f, w.engine.main = some f → (w.engine.fiber? f).isSome) ∧
      (∀ f, w.engine.heap.directory.contains (.fiber f) → (w.engine.fiber? f).isSome) ∧
      ∀ id rest e calls held k, w = work (.fire (id :: rest) e) calls held →
        e.agenda.get? id = some k →
          Session.fire (id :: rest) e = match Activation.begin k.fiber (some id) 0 k.pc e with
            | .ok a e => .running (.run ⟨e, a, .update id rest⟩)
            | .error fault e =>
              .running (.fire rest (e.recordFault k.fiber k.pc fault).2.reap) := by
  have consistent := (Reachable.sound reached).engine.consistent nofun
  have rooted : ∀ f r, w.engine.roots.find? f = some r → w.engine.Has f r := fun f r root =>
    Engine.fiber?_of_cellOf? (consistent.rooted f r root)
  refine ⟨fun f x hx => consistent.cell_of_fiber hx, fun f orphan r ⟨x, hx, hcell⟩ => ?_,
    fun id k registered => consistent.has_of_get? registered, rooted, fun f main => ?_,
    fun f owner => ?_, fun id rest e calls held k firing registered => ?_⟩
  · refine (consistent.orphans f (.inl orphan)).2 r ?_
    rw [Engine.cellOf?_of_fiber? hx, hcell]
  · obtain ⟨r, root⟩ := Option.isSome_iff_exists.1 (consistent.main f main)
    obtain ⟨x, hx, -⟩ := rooted f r root
    rw [hx]
    rfl
  · have present := consistent.owners f owner
    rwa [Engine.cellOf?, Option.isSome_map] at present
  · subst firing
    obtain ⟨x, hx, -⟩ := consistent.has_of_get? registered
    exact Session.fire_of_registered registered hx rest

/-- An update finds the fiber of the continuation that is due. -/
theorem fibers_agree_firing :
    ∃ e, Reachable .plain (fun _ => some gotoAfterSuspend) {} (work (.fire [⟨0⟩] e) [] 0) ∧
      (∃ k, e.agenda.get? ⟨0⟩ = some k ∧ e.Has k.fiber k.cell) := by
  obtain ⟨e, run⟩ : ∃ e, ((Request.update .zero).start suspendedWithContinuation).run 0 =
      .running (.fire [⟨0⟩] e) :=
    ⟨((suspendedWithContinuation.update .zero).run 0).engine, rfl⟩
  have reached := Reaches.request (reachable_suspendedWithContinuation (c := .plain))
    (.update .zero) 0
  have registered :
      ((((Request.update .zero).start suspendedWithContinuation).run 0).engine.agenda.get?
      ⟨0⟩).isSome := by
    decide +kernel
  rw [run] at reached registered
  obtain ⟨k, found⟩ := Option.isSome_iff_exists.1 registered
  exact ⟨e, reached, k, found, (fibers_agree reached).2.2.1 ⟨0⟩ k found⟩

end World

end FiberVM
