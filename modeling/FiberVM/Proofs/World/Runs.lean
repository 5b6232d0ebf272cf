import FiberVM.Proofs.Engine.Loops
import FiberVM.Proofs.World.Course

/-!
# Runs in the course of time

The runs of a world are a stack. Only the one on top executes instructions, and `Session.Steps` says
all that an instruction can come to. The others wait: whatever happens, a run that waits stays as it
is, or it fails (`World.Move.waits`).
-/

namespace FiberVM

open Engine

variable {c : Conduct} {e e' : Engine} {a x : Activation} {callers : Callers} {p : Progress}
  {s : Session} {w w' : World} {calls : List (HostCall × Session)} {H : Multiset Ref} {n : Nat}
  {y z : Failure} {above below : List Activation} {P : Permit}

/-- A run that waits goes on with the instruction after the one at which it waits. -/
def Activation.waiting (a : Activation) : Activation := { a with next := a.pc + 1 }

/-- The runs that wait, the latest first. -/
def Callers.activations : Callers → List Activation
  | nested _ launcher below => launcher.waiting :: below.activations
  | _ => []

/-- The runs of a session that waits for the host. -/
def Session.paused (s : Session) : List Activation := s.current.waiting :: s.callers.activations

def Progress.activations : Progress → List Activation
  | running (.run s) => s.current :: s.callers.activations
  | running (.fire ..) => []
  | awaiting _ s => s.paused
  | done .. => []

namespace World

/-- The runs of sessions that wait for the host, the latest first. -/
def pending (calls : List (HostCall × Session)) : List Activation := calls.flatMap (·.2.paused)

/-- The runs of all sessions, the latest first. -/
def activations : World → List Activation
  | host _ calls _ => pending calls
  | work t calls _ => (Progress.running t).activations ++ pending calls

/-- The run that has so many below it. -/
def activation? (n : Nat) (w : World) : Option Activation := w.activations.reverse[n]?

lemma activations_after (calls : List (HostCall × Session)) (H : Multiset Ref) (p : Progress) :
    (after calls H p).activations = p.activations ++ pending calls := by
  cases p <;> rfl

/-- Every run has a position. -/
lemma length_activations (w : World) : w.activations.length = w.height := by
  have waiting : ∀ callers : Callers, callers.activations.length = callers.positions.length := by
    intro callers
    induction callers with
    | nested cell launcher below ih => exact congrArg Nat.succ ih
    | _ => rfl
  have paused : ∀ calls : List (HostCall × Session), (pending calls).length =
      (calls.flatMap (·.2.waiting)).length := by
    intro calls
    simp only [pending, List.length_flatMap, Session.paused, Session.waiting, List.length_cons,
      waiting]
  cases w with
  | host e calls H => exact paused calls
  | work t calls H =>
    cases t with
    | fire due e => exact paused calls
    | run s =>
      rw [height, activations, positions, List.length_append, List.length_append, paused calls]
      exact congrArg (· + _) (congrArg Nat.succ (waiting s.callers))

/-- The run with so many below it stands above so many. -/
lemma activation?_eq_some_iff :
    w.activation? n = some x ↔ ∃ above below, w.activations = above ++ x :: below ∧
      below.length = n := by
  rw [activation?]
  constructor
  · intro found
    obtain ⟨deep, found⟩ := List.getElem?_eq_some_iff.1 found
    have split := congrArg List.reverse (List.take_append_drop n w.activations.reverse)
    rw [List.drop_eq_getElem_cons deep, found, List.reverse_append, List.reverse_cons,
      List.append_assoc, List.reverse_reverse] at split
    refine ⟨_, (w.activations.reverse.take n).reverse, split.symm, ?_⟩
    rw [List.length_reverse, List.length_take]
    exact Nat.min_eq_left (Nat.le_of_lt deep)
  · rintro ⟨above, below, split, rfl⟩
    rw [split, List.reverse_append, List.reverse_cons, List.append_assoc, ← List.length_reverse,
      List.getElem?_append_right (Nat.le_refl _), Nat.sub_self]
    rfl

/-- What the latest run has below it. -/
lemma length_below (latest : (work (.run s) calls H).height = n + 1) :
    (s.callers.activations ++ pending calls).length = n := by
  rw [← length_activations] at latest
  exact Nat.succ.inj latest

/-- The latest run, where the engine is at work on it. -/
lemma activation?_run (s : Session) (latest : (work (.run s) calls H).height = n + 1) :
    (work (.run s) calls H).activation? n = some s.current :=
  activation?_eq_some_iff.2 ⟨[], s.callers.activations ++ pending calls, rfl, length_below latest⟩

end World

/-- Once a run has ended, those below it that have not ended are as they were. -/
lemma Unwinds.activations (unwinds : Unwinds P e callers p) :
    p.activations <:+ callers.activations := by
  induction unwinds with
  | answer => exact List.nil_suffix
  | fire => exact List.nil_suffix
  | resume => exact List.suffix_rfl
  | fail _ ih => exact ih.trans (List.suffix_cons _ _)

/-! ## Steps -/

/-- What an instruction that succeeds tells the run. -/
lemma Activation.directs_of_ok {op inline control}
    (executed : a.execute op inline e = .ok control e') : a.Directs op e'.config control := by
  have executes := Activation.executes (Activation.permitted_anything a op inline) e trivial
  rw [executed] at executes
  exact executes.2

namespace Session

/-- All that the next instruction of a session can come to. -/
inductive Steps (s : Session) : Progress → Prop
  /-- The run goes on with another instruction. -/
  | on {op inline address} {budget e} (fetched : s.current.fetch = .ok (op, inline, budget))
      (other : op ≠ .endBody) :
    Steps s (.running (.run ⟨e, { s.executing budget with next := address }, s.callers⟩))
  /-- The run enters a state. -/
  | enter {inline address budget e} (fetched : s.current.fetch = .ok (.gotoState, inline, budget))
      (executed : (s.executing budget).execute .gotoState inline s.engine =
        .ok (.enter address) e) :
    Steps s (proceed (s.executing budget) s.callers .gotoState e (.enter address))
  /-- A loop begins, or is passed over. -/
  | loop {inline exit budget elements e e' a}
      (fetched : s.current.fetch = .ok (.forEach, inline, budget))
      (executed : (s.executing budget).execute .forEach inline s.engine =
        .ok (.loop elements exit) e)
      (iterated : (s.executing budget).iterate ⟨elements, s.current.frame, s.current.next + 2,
        exit⟩ e = .ok a e') :
    Steps s (.running (.run ⟨e', a, s.callers⟩))
  /-- A body ends, and its loop goes on or is over. -/
  | again {inline : Nat} {budget : Option Nat} {l : Loop} {loops : List Loop} {e : Engine}
      {a : Activation} (fetched : s.current.fetch = .ok (.endBody, inline, budget))
        (inside : s.current.loops = l :: loops)
      (iterated : { s.executing budget with frame := l.outer, loops }.iterate l
        (s.engine.releaseAll s.current.frame) = .ok a e) :
    Steps s (.running (.run ⟨e, a, s.callers⟩))
  /-- A fiber that was launched begins to run. -/
  | launch {inline budget made e e' b} (fetched : s.current.fetch = .ok (.launch, inline, budget))
      (executed : (s.executing budget).execute .launch inline s.engine = .ok (.launch made) e)
      (begun : Activation.begin made.fiber none (s.current.depth + 1) made.entry e = .ok b e') :
    Steps s (.running (.run ⟨e', b, .nested made.cell (s.executing budget) s.callers⟩))
  /-- The host is called. -/
  | await {op inline budget call e} (fetched : s.current.fetch = .ok (op, inline, budget))
      (other : op ≠ .endBody)
      (executed : (s.executing budget).execute op inline s.engine = .ok (.await call) e) :
    Steps s (.awaiting call ⟨e, s.executing budget, s.callers⟩)
  /-- The run ends. In a loop it ends only with its state. -/
  | finish {op inline budget control how e} (fetched : s.current.fetch = .ok (op, inline, budget))
      (executed : (s.executing budget).execute op inline s.engine = .ok control e)
      (ends : (∃ how, control = .finish how) ∨ control = .endBody ∧ s.current.loops = [])
      (state : op = .endState ∧ how = .stateEnd ∧ e = s.engine ∨ s.current.loops = []) :
    Steps s (finish (s.executing budget) s.callers how e)
  /-- A run fails, this one or another one. -/
  | fault {x : Failure} (faults : s.Faults x) : Steps s x.progress

/-- Every step is one of those that are listed. -/
lemma steps (s : Session) : s.Steps s.step := by
  have faulty : ∀ {x : Failure}, s.Faults x → s.Steps s.step := fun faults =>
    faults.step_eq ▸ .fault faults
  cases fetched : s.current.fetch with
  | error fault => exact faulty (.fetch fetched)
  | ok instruction =>
    obtain ⟨op, inline, budget⟩ := instruction
    cases run : (s.executing budget).execute op inline s.engine with
    | error fault e => exact faulty (.execute fetched run)
    | ok control e =>
      have directs := Activation.directs_of_ok run
      have other : control ≠ .endBody → op ≠ .endBody := by
        rintro different rfl
        cases run
        exact different rfl
      have stepped : s.step = proceed (s.executing budget) s.callers op e control := by
        rw [step_of_fetch fetched, run]
      cases control with
      | advance =>
        rw [stepped]
        exact .on fetched (other Control.noConfusion)
      | jump address =>
        rw [stepped]
        exact .on fetched (other Control.noConfusion)
      | enter address =>
        obtain ⟨rfl, -⟩ := directs
        rw [stepped]
        exact .enter fetched run
      | loop elements exit =>
        obtain ⟨rfl, -⟩ := directs
        cases iterated :
            (s.executing budget).iterate ⟨elements, s.current.frame, s.current.next + 2,
              exit⟩ e with
        | error fault e' => exact faulty (.loop fetched run iterated)
        | ok a e' =>
          have went : s.step = .running (.run ⟨e', a, s.callers⟩) := by
            rw [stepped]
            change iterate (s.executing budget) s.callers ⟨elements, s.current.frame,
              s.current.next + 2, exit⟩ e = _
            rw [iterate, iterated]
          rw [went]
          exact .loop fetched run iterated
      | endBody =>
        obtain rfl : op = .endBody := directs
        cases run
        cases inside : s.current.loops with
        | nil =>
          have ended : s.step = finish (s.executing budget) s.callers .bodyEnd s.engine := by
            rw [stepped, proceed, show (s.executing budget).loops = [] from inside]
          rw [ended]
          exact .finish fetched rfl (.inr ⟨rfl, inside⟩) (.inr inside)
        | cons l loops =>
          have around : s.step =
              iterate { s.executing budget with frame := l.outer, loops } s.callers l
              (s.engine.releaseAll s.current.frame) := by
            rw [stepped, proceed, show (s.executing budget).loops = l :: loops from inside]
            rfl
          cases iterated : { s.executing budget with frame := l.outer, loops }.iterate l
              (s.engine.releaseAll s.current.frame) with
          | error fault e' => exact faulty (.body fetched rfl inside iterated)
          | ok a e' =>
            rw [around, iterate, iterated]
            exact .again fetched inside iterated
      | finish how =>
        rw [stepped]
        refine .finish fetched run (.inl ⟨how, rfl⟩) ?_
        rcases directs with ⟨rfl, rfl⟩ | ⟨-, outside⟩
        · cases run
          exact .inl ⟨rfl, rfl, rfl⟩
        · exact .inr outside
      | launch made =>
        obtain ⟨rfl, -⟩ := directs
        cases begun : Activation.begin made.fiber none (s.current.depth + 1) made.entry e with
        | error fault e' => exact faulty (.begin fetched run begun)
        | ok b e' =>
          have started : s.step =
              .running (.run ⟨e', b, .nested made.cell (s.executing budget) s.callers⟩) := by
            rw [stepped]
            change start made.fiber (s.current.depth + 1) made.entry
              (.nested made.cell (s.executing budget) s.callers) e = _
            rw [start, begun]
          rw [started]
          exact .launch fetched run begun
      | await call =>
        rw [stepped]
        exact .await fetched (other Control.noConfusion) run

end Session

/-! ## Runs that wait -/

/-- The run that fails, where it has given up what it holds. -/
structure Failure.Ends (y : Failure) (x : Activation) : Prop where
  fiber : y.fiber = x.fiber
  pc : y.pc = x.pc
  engine : ∃ e, y.engine = x.finish e

/-- A run that waits below one that has failed stays as it is, or it fails in turn. -/
lemma World.Faults.waits (faults : w.Faults y)
    (split : y.callers.activations = above ++ x :: below) :
    (∃ above, y.progress.activations = above ++ x :: below) ∨
      ∃ z, w.Faults z ∧ z.progress = y.progress ∧ z.Ends x ∧ z.callers.activations = below := by
  induction callers : y.callers generalizing y above with
  | launch | update | resume =>
    rw [callers] at split
    cases above <;> cases split
  | nested cell launcher under ih =>
    rw [callers] at split
    cases pushed : Operand.pushValue launcher.fiber .nil (y.recorded.release cell) with
    | ok _ e =>
      have resumed : y.progress = .running (.run ⟨e, launcher.waiting, under⟩) := by
        rw [Failure.progress, callers, Session.conclude]
        simp only [pushed]
        rfl
      rw [resumed]
      exact .inl ⟨above, split⟩
    | error fault e =>
      have next : y.Next ⟨launcher.fiber, launcher.pc, fault, under, launcher.finish e⟩ :=
        .launcher callers pushed
      have fails := faults.above next
      rw [next.progress_eq]
      cases above with
      | nil =>
        obtain ⟨rfl, rfl⟩ := List.cons.inj split
        exact .inr ⟨_, fails, rfl, ⟨rfl, rfl, e, rfl⟩, rfl⟩
      | cons first above => exact ih fails (List.cons.inj split).2 rfl

namespace Session

/-- Where a run fails, one that waits below stays or fails as well. -/
lemma Faults.waits (faults : s.Faults y) (split : s.callers.activations = above ++ x :: below) :
    (∃ above, y.progress.activations = above ++ x :: below) ∨
      ∃ z, (World.work (.run s) calls H).Faults z ∧ z.progress = y.progress ∧ z.Ends x ∧
        z.callers.activations = below := by
  have fails : (World.work (.run s) calls H).Faults y := .step faults
  cases faults with
  | fetch | execute | loop | body => exact fails.waits split
  | @begin op inline budget made fault e e' fetched executed failed =>
    let launcher := (s.executing budget).waiting
    have split : launcher :: s.callers.activations = (launcher :: above) ++ x :: below :=
      congrArg (List.cons _) split
    exact fails.waits split
  | @ended op inline budget control cell launcher under fault e e' fetched executed ends callers
      failed =>
    -- the launcher fails, and perhaps others below it
    rw [callers] at split
    cases above with
    | nil =>
      obtain ⟨rfl, rfl⟩ := List.cons.inj split
      exact .inr ⟨_, fails, rfl, ⟨rfl, rfl, e', rfl⟩, rfl⟩
    | cons first above => exact fails.waits (List.cons.inj split).2

/-- A run that waits below the one that executes an instruction stays as it is, or it fails. -/
lemma step_waits (split : s.callers.activations = above ++ x :: below) :
    (∃ above, s.step.activations = above ++ x :: below) ∨
      ∃ z, (World.work (.run s) calls H).Faults z ∧ z.progress = s.step ∧ z.Ends x ∧
        z.callers.activations = below := by
  generalize stepped : s.step = p
  have kept : ∀ more, p.activations = more ++ s.callers.activations →
      ∃ above, p.activations = above ++ x :: below := by
    intro more whole
    exact ⟨more ++ above, by rw [whole, split, List.append_assoc]⟩
  cases show s.Steps p from stepped ▸ s.steps with
  | on | enter | loop | again | await => exact .inl (kept [_] rfl)
  | launch => exact .inl (kept [_, _] rfl)
  | fault faults => exact faults.waits split
  | @finish op inline budget control how e fetched executed ends state =>
    cases callers : s.callers with
    | launch | update | resume =>
      rw [callers] at split
      cases above <;> cases split
    | nested cell launcher under =>
      cases pushed : Operand.pushValue launcher.fiber (.fiber cell) (s.current.finish e) with
      | ok _ e' =>
        have resumed : Session.finish (s.executing budget) (.nested cell launcher under) how e =
            .running (.run ⟨e', launcher.waiting, under⟩) := by
          rw [Session.finish, conclude]
          simp only [show (s.executing budget).finish e = s.current.finish e from rfl, pushed]
          rfl
        rw [callers] at split
        rw [resumed]
        exact .inl ⟨above, split⟩
      | error fault e' =>
        have faults := Faults.ended fetched executed ends callers pushed
        rw [← callers, ← stepped, faults.step_eq]
        exact faults.waits split

/-- An answer that can be taken lets the run go on. -/
lemma answer_of_ok {call : HostCall} {results}
    (finished : Activation.finishCall call.fiber call.receiver call.args
      (call.checked results) s.engine = .ok () e) :
    s.answer call results = .running (.run ⟨e, s.current.waiting, s.callers⟩) := by
  cases results with
  | error returned =>
    have finished' : Activation.finishCall call.fiber call.receiver call.args
      (throw returned) s.engine =
      .ok () e := finished
    simp only [answer, finished']
    rfl
  | ok returned =>
    have finished' : Activation.finishCall call.fiber call.receiver call.args
      (EngineM.onHeap (call.native.checkResults returned)) s.engine = .ok () e := finished
    simp only [answer, finished']
    rfl

/-- A run that waits for the host goes on, or it fails, and those below it stay as they are or fail
in turn. -/
lemma answer_waits {call results} (split : s.paused = above ++ x :: below) :
    (∃ above, ({ s with engine := e }.answer call results).activations = above ++ x :: below) ∨
      ∃ z, (World.host e ((call, s) :: calls) H).Faults z ∧
        z.progress = { s with engine := e }.answer call results ∧
        z.Ends x ∧ z.callers.activations = below := by
  cases run : Activation.finishCall call.fiber call.receiver call.args (call.checked results) e with
  | ok _ e' =>
    rw [answer_of_ok (s := { s with engine := e }) run]
    exact .inl ⟨above, split⟩
  | error fault e' =>
    have fails : (World.host e ((call, s) :: calls) H).Faults
        ⟨s.current.fiber, s.current.pc, fault, s.callers, s.current.finish e'⟩ := .answer run
    have failed : { s with engine := e }.answer call results =
        Session.fail s.current s.callers fault e' :=
      answer_of_error run
    rw [failed]
    cases above with
    | nil =>
      obtain ⟨rfl, rfl⟩ := List.cons.inj split
      exact .inr ⟨_, fails, rfl, ⟨rfl, rfl, e', rfl⟩, rfl⟩
    | cons first above => exact fails.waits (List.cons.inj split).2

end Session

namespace World

/-- The run on top executes an instruction. -/
def Executing (w : World) (x : Activation) (below : List Activation) : Prop :=
  ∃ s calls H, w = work (.run s) calls H ∧ s.current = x ∧
    s.callers.activations ++ pending calls = below

/-- A run fails, and the world goes on below it. -/
def Ending (w w' : World) (z : Failure) (below : List Activation) : Prop :=
  ∃ calls, w' = after calls w.held z.progress ∧ z.callers.activations ++ pending calls = below

/-- A place in two lists is in the one or the other. -/
private lemma append_cases {upper lower} (split : upper ++ lower = above ++ x :: below) :
    (∃ more, lower = more ++ x :: below) ∨ ∃ under, upper = above ++ x :: under ∧
      under ++ lower = below := by
  rcases List.append_eq_append_iff.1 split with ⟨more, -, left⟩ | ⟨under, whole, left⟩
  · exact .inl ⟨more, left⟩
  · cases under with
    | nil => exact .inl ⟨[], left.symm⟩
    | cons y under =>
      obtain ⟨rfl, rfl⟩ := List.cons.inj left
      exact .inr ⟨under, whole, rfl⟩

/-- Runs of sessions that wait for the host stay as they are while another session goes on. -/
private lemma activations_of_pending {p H more} (pending : pending calls = more ++ x :: below) :
    ∃ above, (after calls H p).activations = above ++ x :: below :=
  ⟨p.activations ++ more, by rw [activations_after, pending, List.append_assoc]⟩

/-- What happens to a run in a session happens to it in the world. -/
private lemma waits_of_session {p : Progress} {under} (left : under ++ pending calls = below)
    (waits : (∃ above, p.activations = above ++ x :: under) ∨ ∃ z, w.Faults z ∧ z.progress = p ∧
      z.Ends x ∧ z.callers.activations = under) :
    (∃ above, (after calls w.held p).activations = above ++ x :: below) ∨ w.Executing x below ∨
      ∃ z, w.Faults z ∧ z.Ends x ∧ w.Ending (after calls w.held p) z below := by
  subst left
  rcases waits with ⟨above, kept⟩ | ⟨z, faults, rfl, ends, callers⟩
  · exact .inl ⟨above, by rw [activations_after, kept, List.append_assoc]; rfl⟩
  · exact .inr (.inr ⟨z, faults, ends, calls, rfl, callers ▸ rfl⟩)

/-- Whatever happens, a run that does not execute an instruction stays as it is, or it fails. -/
lemma Move.waits (move : Move c w w') (split : w.activations = above ++ x :: below) :
    (∃ above, w'.activations = above ++ x :: below) ∨ w.Executing x below ∨
      ∃ z, w.Faults z ∧ z.Ends x ∧ w.Ending w' z below := by
  cases move with
  | act done => exact .inl ⟨above, split⟩
  | request q => exact .inl (activations_of_pending split)
  | @answer e H calls call s results =>
    have split : s.paused ++ pending calls = above ++ x :: below := split
    rcases append_cases split with ⟨more, pending⟩ | ⟨under, own, left⟩
    · exact .inl (activations_of_pending pending)
    · exact waits_of_session left (Session.answer_waits own)
  | @step H calls t =>
    cases t with
    | fire due e => exact .inl (activations_of_pending split)
    | run s =>
      cases above with
      | nil =>
        obtain ⟨current, left⟩ := List.cons.inj split
        exact .inr (.inl ⟨s, calls, H, rfl, current, left⟩)
      | cons first above =>
        rcases append_cases (List.cons.inj split).2 with ⟨more, pending⟩ | ⟨under, own, left⟩
        · exact .inl (activations_of_pending pending)
        · exact waits_of_session left (Session.step_waits own)

end World

/-! ## Runs that begin -/

/-- A run has begun, and the engine has done nothing else since. -/
def Activation.BegunIn (e : Engine) (a : Activation) : Prop :=
  ∃ f continuation depth start e', begin f continuation depth start e' = .ok a e

/-- At the bottom of a stack there is no run but the one that begins. -/
lemma Session.begun_start {f depth pc} (bottom : callers.activations = []) :
    ∀ a ∈ (start f depth pc callers e).activations,
      a.BegunIn (start f depth pc callers e).engine := by
  unfold start
  cases begun : Activation.begin f none depth pc e with
  | ok b e' =>
    intro a member
    change a ∈ b :: callers.activations at member
    rw [bottom, List.mem_singleton] at member
    subst member
    exact ⟨_, _, _, _, _, begun⟩
  | error fault e' =>
    intro a member
    have left := (unwinds_conclude (P := .nothing) callers _ _).activations.subset member
    rw [bottom] at left
    cases left

/-- A continuation that fires begins a run. -/
lemma Session.begun_fire (due : List ContinuationId) (e : Engine) :
    ∀ a ∈ (fire due e).activations, a.BegunIn (fire due e).engine := by
  generalize fired : fire due e = p
  cases p with
  | done => exact List.forall_mem_nil _
  | awaiting call s => exact absurd fired (fire_ne_awaiting due e call s)
  | running t =>
    cases t with
    | fire => exact List.forall_mem_nil _
    | run s =>
      obtain ⟨id, rest, k, -, -, callers, begun⟩ := fire_eq_run fired
      intro a member
      change a ∈ s.current :: s.callers.activations at member
      rw [callers] at member
      cases List.mem_singleton.1 member
      exact ⟨_, _, _, _, _, begun⟩

/-- A request begins a run, or none. -/
lemma Request.begun_start (q : Request) (e : Engine) :
    ∀ a ∈ (q.start e).activations, a.BegunIn (q.start e).engine := by
  cases q with
  | update dt => exact List.forall_mem_nil _
  | launch name =>
    change ∀ a ∈ (e.launch name).activations, a.BegunIn (e.launch name).engine
    unfold Engine.launch
    cases spawn name [] e with
    | error err e₁ => exact List.forall_mem_nil _
    | ok made e₁ => exact Session.begun_start rfl
  | resume f =>
    change ∀ a ∈ (e.resume f).activations, a.BegunIn (e.resume f).engine
    rcases e.resume_eq f with ⟨err, refused⟩ | ⟨x, pc, -, -, started⟩
    · rw [refused]
      exact List.forall_mem_nil _
    · rw [started]
      exact Session.begun_start rfl

/-- Each run after a move was there before, has just begun, or is one of those that an instruction
leaves. -/
lemma World.Move.mem_activations (move : Move c w w') (member : a ∈ w'.activations) :
    a ∈ w.activations ∨ a.BegunIn w'.engine ∨ ∃ s calls H, w = work (.run s) calls H ∧
      a ∈ s.step.activations ∧ w'.engine = s.step.engine := by
  cases move with
  | act done => exact .inl member
  | @request e H calls q =>
    rw [activations_after] at member
    rw [engine_after]
    rcases List.mem_append.1 member with own | pending
    · exact .inr (.inl (q.begun_start e a own))
    · exact .inl pending
  | @answer e H calls call s results =>
    have unwinds := s.unwinds_answer (P := .nothing) e call results
    rw [activations_after] at member
    exact .inl (List.mem_append.2
      ((List.mem_append.1 member).imp_left fun own => unwinds.activations.subset own))
  | @step H calls t =>
    rw [activations_after] at member
    rw [engine_after]
    rcases List.mem_append.1 member with own | pending
    · cases t with
      | fire due e => exact .inr (.inl (Session.begun_fire due e a own))
      | run s => exact .inr (.inr ⟨s, calls, H, rfl, own, rfl⟩)
    · exact .inl (List.mem_append_right _ pending)

end FiberVM
