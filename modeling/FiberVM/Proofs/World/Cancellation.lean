import FiberVM.Proofs.World

/-!
# Changing the state cancels what a fiber waits for

A continuation that was registered for a fiber before the fiber changes its state never begins to
run afterwards, whatever the host and the engine do (`gotoState_cancels`). It does not matter
whether it waits for a time or an event, whether it is due already, or whether it is the one that
runs: it is gone from the agenda, its identifier is not issued again, and a run begins only for what
is registered.

A run for a continuation can be under way in several worlds (`World.Serving`), but it begins only in
a step that fires the continuation (`World.Move.serving`).
-/

namespace FiberVM

open Engine

variable {c : Conduct} {source : String → Option Image} {config : Config} {w w' : World}
  {calls : List (HostCall × Session)} {H : Multiset Ref} {s : Session} {e : Engine} {f : FiberId}
  {id : ContinuationId} {x : ContinuationId × List ContinuationId}
  {origin : Option (ContinuationId × List ContinuationId)} {p : Progress}

namespace World

/-! ## Runs for continuations -/

/-- A call is open that was made in a run for a continuation. -/
def Calling (x : ContinuationId × List ContinuationId) (calls : List (HostCall × Session)) : Prop :=
  ∃ y ∈ calls, y.2.callers.firing? = some x

/-- A run for a continuation is under way, where others are due after it. -/
def Serving (x : ContinuationId × List ContinuationId) : World → Prop
  | host _ calls _ => Calling x calls
  | work (.run s) calls _ => s.callers.firing? = some x ∨ Calling x calls
  | work (.fire ..) calls _ => Calling x calls

/-- The next step begins a run of a fiber for a continuation. -/
def Fires (id : ContinuationId) (f : FiberId) (w : World) : Prop :=
  ∃ due e calls held s, w = work (.fire due e) calls held ∧
    Session.fire due e = .running (.run s) ∧ due.head? = some id ∧ s.current.fiber = f

/-- What fires is registered for the fiber that runs. -/
lemma Fires.registered (fires : w.Fires id f) (ok : w.Sound c) :
    ∃ r, w.engine.agenda.bond? id = some (f, r) := by
  obtain ⟨due, e, calls, held, s, rfl, fired, first, rfl⟩ := fires
  obtain ⟨id', rest, k, rfl, registered, -, begun⟩ := Session.fire_eq_run fired
  cases first
  have bound := Agenda.bond?_of_get? registered
  have started := Activation.runs_begin k.fiber (some id) 0 k.pc e
    ⟨ok.1, Session.startable_of_bond ok.1 bound⟩
  rw [begun] at started
  refine ⟨k.cell, ?_⟩
  rw [started.2.fiber]
  exact bound

/-- What a request serves is under way in its world, or in a call that is open. -/
lemma Serving.of_after (serving : (after calls H p).Serving x) (serves : p.Serves origin) :
    origin = some x ∨ Calling x calls := by
  cases p with
  | done e reply => exact .inr serving
  | running t =>
    cases t with
    | fire due e => exact .inr serving
    | run s => exact serving.imp_left serves.symm.trans
  | awaiting call s =>
    obtain ⟨y, hy, firing⟩ := serving
    rcases List.mem_cons.1 hy with rfl | hy
    · exact .inl (serves.symm.trans firing)
    · exact .inr ⟨y, hy, firing⟩

/-- A run for a continuation was under way before, or it has just begun. -/
lemma Move.serving (move : Move c w w') (ok : w.Sound c) (serving : w'.Serving x) :
    w.Serving x ∨ ∃ f, w.Fires x.1 f := by
  cases move with
  | act done => exact .inl serving
  | request q =>
    rcases serving.of_after (q.sound ok.1).2.2 with impossible | calling
    · cases impossible
    · exact .inl calling
  | @answer e H calls call s results =>
    have follows : ({ s with engine := e }.answer call results).Follows .free H s.callers.firing?
        e :=
      Session.follows_answer (s := { s with engine := e }) ok.1.indexed call results
    refine .inl ?_
    rcases serving.of_after follows.serves with firing | ⟨y, hy, firing⟩
    · exact ⟨(call, s), List.mem_cons_self, firing⟩
    · exact ⟨y, List.mem_cons_of_mem _ hy, firing⟩
  | @step H calls t =>
    cases t with
    | run s => exact .inl (serving.of_after (Session.Sound.follows_step ok.1).serves)
    | fire due e =>
      change (after calls H (Session.fire due e)).Serving x at serving
      cases fired : Session.fire due e with
      | done e' reply =>
        rw [fired] at serving
        exact .inl serving
      | awaiting call s => exact absurd fired (Session.fire_ne_awaiting due e call s)
      | running t =>
        rw [fired] at serving
        cases t with
        | fire due' e' => exact .inl serving
        | run s =>
          rcases serving with firing | calling
          · obtain ⟨id, rest, k, rfl, -, callers, -⟩ := Session.fire_eq_run fired
            rw [callers] at firing
            cases firing
            exact .inr ⟨s.current.fiber, _, e, calls, H, s, rfl, fired, rfl, rfl⟩
          · exact .inl calling

/-- A continuation that is gone does not begin to run any more. -/
lemma Reaches.serving (later : Reaches c w w') (ok : w.Sound c)
    (issued : x.1.id < w.engine.agenda.continuations.next)
    (gone : w.engine.agenda.bond? x.1 = none)
    (serving : w'.Serving x) : w.Serving x := by
  induction later with
  | refl => exact serving
  | @tail v v' reached move ih =>
    obtain ⟨ok', evolved⟩ := Reaches.sound reached ok
    rcases move.serving ok' serving with serving | ⟨f, fires⟩
    · exact ih serving
    · -- A run begins only for a continuation that is registered, and this one does not come back.
      obtain ⟨r, bound⟩ := fires.registered ok'
      rw [evolved.gone issued gone] at bound
      cases bound

end World

/-! ## Changes of the state -/

namespace Session

lemma agenda_unwindLoops (loops : List Loop) (frame : List Ref) (e : Engine) :
    (Activation.unwindLoops loops frame e).2.agenda = e.agenda := by
  induction loops generalizing frame e with
  | nil => rfl
  | cons l loops ih => exact ih l.outer _

/-- A change of the state that succeeds enters a state. -/
lemma enter_of_gotoState {a : Activation} {inline control e'}
    (entered : a.execute .gotoState inline e = .ok control e') :
    ∃ address, control = .enter address := by
  change EStateM.bind a.gotoState (fun address => pure (Control.enter address)) e = _ at entered
  unfold EStateM.bind at entered
  cases run : a.gotoState e with
  | ok address e₁ =>
    rw [run] at entered
    cases entered
    exact ⟨address, rfl⟩
  | error fault e₁ =>
    rw [run] at entered
    cases entered

/-- After a change of the state nothing waits for the fiber. -/
lemma Sound.unawaited_of_gotoState {inline budget control} (ok : s.Sound c H)
    (fetched : s.current.fetch = .ok (.gotoState, inline, budget))
    (entered : (s.executing budget).execute .gotoState inline s.engine = .ok control e) :
    s.step.engine.agenda = e.agenda ∧ e.Unawaited s.current.fiber := by
  have executed := ok.executed .gotoState inline budget
  rw [entered] at executed
  obtain ⟨address, rfl⟩ := enter_of_gotoState entered
  refine ⟨?_, executed.2.2⟩
  rw [step_of_fetch fetched, entered]
  exact agenda_unwindLoops _ _ e

end Session

namespace World

/-- If a fiber changes its state, then from the next step on, whatever the host and the engine do,
every continuation that was ever registered for the fiber is gone and is not armed again, does not
begin to run, and is served by no run but one that was under way. What begins to run for the fiber
was registered after the change. -/
theorem gotoState_cancels {w₀ : World} {inline : Nat} {budget : Option Nat} {control : Control}
    (reached : Reachable c source config w₀)
    (before : Reaches c w₀ (work (.run s) calls H))
    (fetched : s.current.fetch = .ok (.gotoState, inline, budget))
    (entered : (s.executing budget).execute .gotoState inline s.engine = .ok control e)
    (later : Reaches c (after calls H s.step) w) :
    (∀ id r, w₀.engine.agenda.bond? id = some (s.current.fiber, r) →
        w.engine.agenda.get? id = none ∧
          w.engine.agenda.rearmOrRetire id = .error .unknownContinuation ∧
          (∀ f, ¬ w.Fires id f) ∧
          ∀ rest, w.Serving (id, rest) → (work (.run s) calls H).Serving (id, rest)) ∧
      ∀ id, w.Fires id s.current.fiber → e.agenda.continuations.next ≤ id.id := by
  have ok₀ := Reachable.sound reached
  obtain ⟨ok₁, evolved₁⟩ := Reaches.sound before ok₀
  have step : Move c (work (.run s) calls H) (after calls H s.step) := .step (.run s)
  obtain ⟨ok₂, evolved₂⟩ := step.sound ok₁
  obtain ⟨ok, evolved⟩ := Reaches.sound later ok₂
  obtain ⟨agenda, unawaited⟩ := Session.Sound.unawaited_of_gotoState ok₁.1 fetched entered
  have agenda₂ : (after calls H s.step).engine.agenda = e.agenda := by rw [engine_after, agenda]
  rw [agenda₂] at evolved evolved₂
  refine ⟨fun id r bound => ?_, fun id fires => ?_⟩
  · have issued₀ := Agenda.lt_next_of_bond? bound
    have evolved₀ := evolved₁.trans evolved₂
    have issued := Nat.lt_of_lt_of_le issued₀ evolved₀.next_le
    -- Up to the change the continuation is gone or still bound to the fiber, and then it is gone.
    have gone : e.agenda.bond? id = none := by
      rcases evolved₀.bond id issued₀ with gone | kept
      · exact gone
      · exact absurd (kept.trans bound) (unawaited id r)
    have gone' := evolved.gone issued gone
    have unknown := Agenda.bond?_eq_none.1 gone'
    refine ⟨unknown, ?_, fun f fires => ?_, fun rest serving => ?_⟩
    · simp only [Agenda.rearmOrRetire, unknown]
    · obtain ⟨r, bound⟩ := fires.registered ok
      rw [gone'] at bound
      cases bound
    · -- No run begins after the change, nor does the change itself begin one.
      have serving₂ := Reaches.serving later ok₂ (x := (id, rest)) (agenda₂ ▸ issued)
        (agenda₂ ▸ gone) serving
      rcases step.serving ok₁ serving₂ with serving₁ | ⟨f, due, e, calls, held, s, impossible, -⟩
      · exact serving₁
      · cases impossible
  · by_contra old
    obtain ⟨r, bound⟩ := fires.registered ok
    rcases evolved.bond id (Nat.lt_of_not_le old) with gone | kept
    · rw [gone] at bound
      cases bound
    · exact unawaited id r (kept.symm.trans bound)

/-- A fiber that was resumed changes its state, and the continuation that the host has registered
for it is gone for good. -/
theorem gotoState_cancels_resuming :
    Reachable .free (fun _ => some gotoAfterSuspend) {} (work (.run resuming) [] 0) ∧
      resuming.engine.agenda.bond? ⟨0⟩ = some (resuming.current.fiber, ⟨0⟩) ∧
      ∀ w, Reaches .free (after [] 0 resuming.step) w → w.engine.agenda.get? ⟨0⟩ = none := by
  have bound : resuming.engine.agenda.bond? ⟨0⟩ = some (resuming.current.fiber, ⟨0⟩) := by
    decide +kernel
  have fetched : resuming.current.fetch = .ok (.gotoState, 0, none) := by decide +kernel
  obtain ⟨e, entered⟩ : ∃ e, (resuming.executing none).execute .gotoState 0 resuming.engine =
      .ok (.enter 4) e := ⟨_, rfl⟩
  refine ⟨reachable_resuming, bound, fun w later => ?_⟩
  exact ((gotoState_cancels reachable_resuming .refl fetched entered later).1 ⟨0⟩ ⟨0⟩ bound).1

end World

end FiberVM
