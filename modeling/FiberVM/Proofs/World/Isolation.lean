import FiberVM.Proofs.Agenda.Indexes
import FiberVM.Proofs.Engine.Isolation
import FiberVM.Proofs.World.Tables

/-!
# Faults are isolated

When the run of a fiber fails, the run gives up what it holds, the fault is recorded and the fiber
ends; then those below go on, or fail in turn. Faults are followed from where they arise
(`World.Faults`) to the engine in which they are recorded (`Failure`). In every world that can be
reached, the end of a fiber leaves everything else alone.
-/

namespace FiberVM

open Engine

/-- A fault that is about to be recorded. -/
structure Failure where
  fiber : FiberId
  pc : Nat
  fault : Fault
  callers : Callers
  /-- The engine, where the run holds nothing any more. -/
  engine : Engine

variable {c : Conduct} {H : Multiset Ref} {e e' e₀ : Engine} {f : FiberId} {r : Ref}
  {a : Activation} {callers : Callers} {s : Session} {fault : Fault} {x y : Failure}
  {source : String → Option Image} {config : Config} {w : World}

namespace Failure

/-- The engine in which the fault is recorded and the fiber has ended. -/
def recorded (x : Failure) : Engine := (x.engine.recordFault x.fiber x.pc x.fault).2

/-- How those below go on. -/
def progress (x : Failure) : Progress :=
  Session.conclude x.callers (.error (x.engine.recordFault x.fiber x.pc x.fault).1) x.recorded

/-- A launcher fails because it cannot take over that the fiber that it has launched has failed. -/
inductive Next : Failure → Failure → Prop where
  | launcher {x : Failure} {cell launcher below fault e}
      (callers : x.callers = .nested cell launcher below)
      (failed : Operand.pushValue launcher.fiber .nil (x.recorded.release cell) = .error fault e) :
    Next x ⟨launcher.fiber, launcher.pc, fault, below, launcher.finish e⟩

lemma Next.progress_eq (next : Next x y) : x.progress = y.progress := by
  cases next with
  | launcher callers failed =>
    rw [progress, callers, Session.conclude]
    simp only [failed]
    rfl

/-- What is known of a failure, where `H` are the references that the host holds. -/
structure Follows (c : Conduct) (H : Multiset Ref) (e : Engine) (x : Failure) : Prop where
  sound : x.engine.Sound c ⟨x.callers.crew, []⟩ (x.callers.refs + H) 0
  /-- The fiber does not run below. -/
  idle : c ≠ .free → ∀ y ∈ x.callers.crew, y.1 ≠ x.fiber
  /-- What is below fits together. -/
  stacked : c ≠ .free → x.callers.Stacked x.engine
  present : c ≠ .free → (x.engine.fiber? x.fiber).isSome
  evolves : e.agenda.Evolves x.engine.agenda

private lemma isSome_of_crew {scene K L} (ok : e.Sound c scene K L) (running : (f, r) ∈ scene.crew)
    (hc : c ≠ .free) : (e.fiber? f).isSome := by
  obtain ⟨y, found, -⟩ := fiber?_of_cellOf? ((ok.consistent hc).crew (f, r) running)
  rw [found]
  rfl

/-- A run that cannot begin has nothing to give up. -/
lemma follows_begin (callers : Callers) {continuation depth pc}
    (ok : e.Sound c ⟨callers.crew, []⟩ (callers.refs + H) 0)
    (present : c ≠ .free → e.cellOf? f = some (some r)) (startable : Activation.Startable c f e)
    (fits : c ≠ .free → callers.Fits e f r) (evolved : e₀.agenda.Evolves e.agenda)
    (failed : Activation.begin f continuation depth pc e = .error fault e') :
    Follows c H e₀ ⟨f, pc, fault, callers, e'⟩ := by
  have begun := Activation.runs_begin f continuation depth pc e ⟨ok.crew_cons present, startable⟩
  rw [failed] at begun
  obtain ⟨related, -, ok'⟩ := begun
  exact
    { sound := ok'.crew_subset fun y hy => List.mem_cons_of_mem (f, r) hy
      idle := fun hc => (fits hc).idle
      stacked := fun hc => (fits hc).stacked.precedes related
      present := isSome_of_crew ok' List.mem_cons_self
      evolves := evolved.trans related.agenda }

/-- An activation that fails gives up what it holds. -/
lemma follows_finish (pc : Nat)
    (ok : e.Sound c ⟨(a.fiber, a.cell) :: callers.crew, []⟩ (a.refs + (callers.refs + H)) 0)
    (fits : c ≠ .free → callers.Fits e a.fiber a.cell) (evolved : e₀.agenda.Evolves e.agenda) :
    Follows c H e₀ ⟨a.fiber, pc, fault, callers, a.finish e⟩ := by
  obtain ⟨finished, ok'⟩ := a.turns_finish e ok
  exact
    { sound := ok'.crew_subset fun y hy => List.mem_cons_of_mem (a.fiber, a.cell) hy
      idle := fun hc => (fits hc).idle
      stacked := fun hc => (fits hc).stacked.precedes finished
      present := isSome_of_crew ok' List.mem_cons_self
      evolves := evolved.trans finished.agenda }

/-- A loop that cannot go on gives up what it holds. -/
lemma follows_iterate {l : Loop} (pc : Nat) (outer : l.outer = a.frame)
    (ok : e.Sound c ⟨(a.fiber, a.cell) :: callers.crew, []⟩
      (l.rest.refs + (a.refs + (callers.refs + H))) 0)
    (fits : c ≠ .free → callers.Fits e a.fiber a.cell) (evolved : e₀.agenda.Evolves e.agenda)
    (failed : a.iterate l e = .error fault e') :
    Follows c H e₀ ⟨a.fiber, pc, fault, callers, a.finish e'⟩ := by
  have iterated := a.runs_iterate l outer e ok
  rw [failed] at iterated
  obtain ⟨related, -, ok'⟩ := iterated
  exact follows_finish pc ok' (fun hc => (fits hc).precedes related) (evolved.trans related.agenda)

/-- A launcher that cannot take a value gives up what it holds. -/
lemma follows_push {v : Value}
    (ok : e.Sound c ⟨(a.fiber, a.cell) :: callers.crew, []⟩ (v.refs + (a.refs + (callers.refs + H)))
      0)
    (other : c ≠ .free → v.instance? = none) (fits : c ≠ .free → callers.Fits e a.fiber a.cell)
    (evolved : e₀.agenda.Evolves e.agenda)
    (failed : Operand.pushValue a.fiber v e = .error fault e') :
    Follows c H e₀ ⟨a.fiber, a.pc, fault, callers, a.finish e'⟩ := by
  have pushed := Operand.runs_pushValue (List.mem_map.2 ⟨_, List.mem_cons_self, rfl⟩) other e ok
  rw [failed] at pushed
  obtain ⟨related, -, ok'⟩ := pushed
  exact follows_finish a.pc ok' (fun hc => (fits hc).precedes related)
    (evolved.trans related.agenda)

/-- A launcher that fails as well follows. -/
lemma Follows.next (follows : x.Follows c H e) (next : Next x y) : y.Follows c H e := by
  cases next with
  | @launcher cell launcher below fault e' callers failed =>
    -- which faults are allowed matters to nothing below
    have recorded : Precedes .free x.engine x.recorded :=
      precedes_recordFault x.engine x.fiber x.pc fun owning =>
        absurd owning.symm Heap.owning_ne_free
    have ok := sound_recordFault follows.sound follows.idle x.pc x.fault
    have stacked := follows.stacked
    rw [callers] at ok stacked
    obtain ⟨released, ok'⟩ := turns_release cell _ (ok.cast (add_assoc _ _ _) rfl)
    refine follows_push (v := .nil) (ok'.cast ?_ rfl) (fun _ => rfl) (fun hc => ?_)
      ((follows.evolves.trans recorded.agenda).trans released.agenda) failed
    · simp only [Value.refs, Multiset.coe_nil, zero_add, add_assoc]
    · have fits : below.Fits x.engine launcher.fiber launcher.cell := stacked hc
      exact (fits.precedes recorded).precedes released

/-- The end of a fiber that has failed leaves everything else alone. -/
lemma Follows.spares (follows : x.Follows c H e) (tidy : e.agenda.Tidy)
    (orderly : c = .owning → x.engine.Orderly) (present : (x.engine.fiber? x.fiber).isSome) :
    Spares c x.fiber (x.callers.refs + H) x.engine x.recorded := by
  obtain ⟨y, found⟩ := Option.isSome_iff_exists.1 present
  exact follows.sound.spares (follows.evolves.tidy tidy) orderly found _

/-- An operation that makes changes has made them where it fails. -/
lemma changes_of_error {α : Type} {m : EngineM α} {E : Fault → Prop} {Q : α → Engine → Prop}
    (makes : Triple (Changes .anything) E (fun _ => True) m Q fun _ => True)
    (failed : m e = .error fault e') : Changes .anything e e' := by
  have made := makes e trivial
  rw [failed] at made
  exact made.1

/-- A launcher that fails has made changes. -/
lemma Next.changes (next : Next x y) : Changes .anything x.engine y.engine := by
  cases next with
  | @launcher cell launcher below fault e' callers failed =>
    have recorded : Changes .anything x.engine x.recorded :=
      changes_recordFault x.engine x.fiber x.pc x.fault
    have released := (aside_release cell).changes (P := .anything) x.recorded
    have pushed := changes_of_error (Operand.makes_pushValue launcher.fiber .nil) failed
    exact ((recorded.trans released).trans pushed).trans (launcher.changes_finish e')

end Failure

/-! ## Where faults arise -/

namespace Session

/-- In a step of a session a run fails. -/
inductive Faults (s : Session) : Failure → Prop where
  /-- There is no instruction, or no budget for it. -/
  | fetch {fault : Fault} (failed : s.current.fetch = .error fault) :
    Faults s ⟨s.current.fiber, s.current.next, fault, s.callers, s.current.finish s.engine⟩
  /-- The instruction fails. -/
  | execute {op inline budget fault e} (fetched : s.current.fetch = .ok (op, inline, budget))
      (failed : (s.executing budget).execute op inline s.engine = .error fault e) :
    Faults s ⟨s.current.fiber, s.current.next, fault, s.callers, s.current.finish e⟩
  /-- A loop cannot begin. -/
  | loop {op inline exit budget elements fault e e'}
      (fetched : s.current.fetch = .ok (op, inline, budget))
      (executed : (s.executing budget).execute op inline s.engine = .ok (.loop elements exit) e)
      (failed : (s.executing budget).iterate ⟨elements, s.current.frame, s.current.next + 2,
        exit⟩ e = .error fault e') :
    Faults s ⟨s.current.fiber, s.current.next, fault, s.callers, s.current.finish e'⟩
  /-- A loop cannot go on. -/
  | body {op : Opcode} {inline : Nat} {budget : Option Nat} {l : Loop} {loops : List Loop}
      {fault : Fault} {e e' : Engine} (fetched : s.current.fetch = .ok (op, inline, budget))
      (executed : (s.executing budget).execute op inline s.engine = .ok .endBody e)
      (inside : s.current.loops = l :: loops)
      (failed : { s.executing budget with frame := l.outer, loops }.iterate l
        (e.releaseAll s.current.frame) = .error fault e') :
    Faults s ⟨s.current.fiber, s.current.next, fault, s.callers,
      { s.executing budget with frame := l.outer, loops }.finish e'⟩
  /-- The run of a fiber that was launched cannot begin. -/
  | begin {op inline budget made fault e e'} (fetched : s.current.fetch = .ok (op, inline, budget))
      (executed : (s.executing budget).execute op inline s.engine = .ok (.launch made) e)
      (failed : Activation.begin made.fiber none (s.current.depth + 1) made.entry e =
        .error fault e') :
    Faults s ⟨made.fiber, made.entry, fault, .nested made.cell (s.executing budget) s.callers, e'⟩
  /-- The run of a fiber has ended, and its launcher cannot take the fiber over. -/
  | ended {op inline budget control cell launcher below fault e e'}
      (fetched : s.current.fetch = .ok (op, inline, budget))
      (executed : (s.executing budget).execute op inline s.engine = .ok control e)
      (ends : (∃ how, control = .finish how) ∨ control = .endBody ∧ s.current.loops = [])
      (callers : s.callers = .nested cell launcher below)
      (failed : Operand.pushValue launcher.fiber (.fiber cell) (s.current.finish e) =
        .error fault e') :
    Faults s ⟨launcher.fiber, launcher.pc, fault, below, launcher.finish e'⟩

/-- Where a run fails, the step is its failure. -/
lemma Faults.step_eq (faults : s.Faults x) : s.step = x.progress := by
  cases faults with
  | fetch failed => exact step_of_fetch_error failed
  | execute fetched failed =>
    rw [step_of_fetch fetched, failed]
    rfl
  | @loop op inline exit budget elements fault e e' fetched executed failed =>
    rw [step_of_fetch fetched, executed]
    change iterate (s.executing budget) s.callers ⟨elements, s.current.frame, s.current.next + 2,
      exit⟩ e = _
    rw [iterate, failed]
    rfl
  | @body op inline budget l loops fault e e' fetched executed inside failed =>
    have again : proceed (s.executing budget) s.callers op e .endBody =
        iterate { s.executing budget with frame := l.outer, loops } s.callers l
          (e.releaseAll s.current.frame) := by
      rw [proceed, show (s.executing budget).loops = l :: loops from inside]
      rfl
    rw [step_of_fetch fetched, executed]
    change proceed (s.executing budget) s.callers op e .endBody = _
    rw [again, iterate, failed]
    rfl
  | @begin op inline budget made fault e e' fetched executed failed =>
    rw [step_of_fetch fetched, executed]
    change start made.fiber (s.current.depth + 1) made.entry
      (.nested made.cell (s.executing budget) s.callers) e = _
    rw [start, failed]
    rfl
  | @ended op inline budget control cell launcher below fault e e' fetched executed ends callers
      failed =>
    have finished : ∃ how, proceed (s.executing budget) s.callers op e control =
        conclude s.callers (.ok how) (s.current.finish e) := by
      rcases ends with ⟨how, rfl⟩ | ⟨rfl, outside⟩
      · exact ⟨how, rfl⟩
      · refine ⟨.bodyEnd, ?_⟩
        rw [proceed, show (s.executing budget).loops = [] from outside]
        rfl
    obtain ⟨how, finished⟩ := finished
    rw [step_of_fetch fetched, executed]
    change proceed (s.executing budget) s.callers op e control = _
    rw [finished, callers, conclude]
    simp only [failed]
    rfl

private lemma Sound.after {op inline budget control} (ok : s.Sound c H)
    (run : (s.executing budget).execute op inline s.engine = .ok control e) :
    Precedes c s.engine e ∧
      Activation.After c s.crew (s.current.refs + (s.callers.refs + H)) 0 s.current.fiber control
        e := by
  have executed := ok.executed op inline budget
  rw [run] at executed
  exact executed

/-- Where a run fails in a step of a sound session, the engine is sound. -/
lemma Faults.follows (faults : s.Faults x) (ok : s.Sound c H) : x.Follows c H s.engine := by
  cases faults with
  | fetch failed =>
    exact Failure.follows_finish _ (ok.engine.cast (add_assoc _ _ _) rfl) ok.fits (.refl _)
  | @execute op inline budget fault e fetched failed =>
    have executed := ok.executed op inline budget
    rw [failed] at executed
    obtain ⟨related, -, ok'⟩ := executed
    exact Failure.follows_finish _ ok' (fun hc => (ok.fits hc).precedes related) related.agenda
  | @loop op inline exit budget elements fault e e' fetched run failed =>
    obtain ⟨related, after⟩ := ok.after run
    exact Failure.follows_iterate (a := s.executing budget)
      (l := ⟨elements, s.current.frame, s.current.next + 2, exit⟩) _ rfl after
      (fun hc => (ok.fits hc).precedes related) related.agenda failed
  | @body op inline budget l loops fault e e' fetched run inside failed =>
    obtain ⟨related, after⟩ := ok.after run
    let outer : Activation := { s.executing budget with frame := l.outer, loops }
    have split : s.current.refs + (s.callers.refs + H) =
        s.current.frame + (l.rest.refs + (outer.refs + (s.callers.refs + H))) := by
      change s.current.refs + (s.callers.refs + H) = s.current.frame + (l.rest.refs +
        ({s.current.cell} + ((l.outer : Multiset Ref) + Activation.loopRefs loops) +
          (s.callers.refs + H)))
      rw [Activation.refs, inside, Activation.loopRefs_cons, Loop.refs]
      abel
    obtain ⟨released, ok'⟩ := turns_releaseAll s.current.frame e (Engine.Sound.cast after split rfl)
    have whole := related.trans released
    exact Failure.follows_iterate (a := outer) _ rfl ok' (fun hc => (ok.fits hc).precedes whole)
      whole.agenda failed
  | @begin op inline budget made fault e e' fetched run failed =>
    obtain ⟨related, ready⟩ := ok.after run
    have held : {made.cell} + (s.current.refs + (s.callers.refs + H)) =
        {made.cell} + (s.current.refs + s.callers.refs) + H := by
      rw [add_assoc, add_assoc]
    have below := ready.sound.crew_subset fun y hy =>
      List.mem_cons_of_mem (made.fiber, made.cell) hy
    exact Failure.follows_begin (.nested made.cell (s.executing budget) s.callers)
      (below.cast held rfl) (fun hc => (ready.sound.consistent hc).crew _ List.mem_cons_self)
      (startable_of_ready ready)
      (fun hc => ⟨ready.latest hc _ List.mem_cons_self, (ok.fits hc).precedes related⟩)
        related.agenda failed
  | @ended op inline budget control cell launcher below fault e e' fetched run ends callers
      failed =>
    obtain ⟨related, after⟩ := ok.after run
    have after' : e.Sound c ⟨s.crew, []⟩ (s.current.refs + (s.callers.refs + H)) 0 := by
      rcases ends with ⟨how, rfl⟩ | ⟨rfl, -⟩
      · exact after
      · exact after
    obtain ⟨finished, ok'⟩ := s.current.turns_finish e after'
    have whole := related.trans finished
    have rest := ok'.crew_subset fun x hx =>
      List.mem_cons_of_mem (s.current.fiber, s.current.cell) hx
    have fits := ok.fits
    rw [callers] at rest fits
    refine Failure.follows_push (v := .fiber cell) (rest.cast ?_ rfl) (fun _ => rfl)
      (fun hc => (fits hc).2.precedes whole) whole.agenda failed
    simp only [Callers.refs, Value.refs, Multiset.coe_singleton, add_assoc]

/-- What an instruction has done before a run fails are changes, and so is giving up what the run
holds. -/
lemma Faults.changes (faults : s.Faults x) : Changes .anything s.engine x.engine := by
  have executed : ∀ {op inline budget control e}, (s.executing budget).execute op inline s.engine =
      .ok control e → Changes .anything s.engine e ∧
        (s.executing budget).Directs op e.config control := by
    intro op inline budget control e run
    have made := Activation.executes (Activation.permitted_anything (s.executing budget) op inline)
      s.engine trivial
    rw [run] at made
    exact made
  cases faults with
  | fetch failed => exact s.current.changes_finish s.engine
  | @execute op inline budget fault e fetched failed =>
    have made := Activation.executes (Activation.permitted_anything (s.executing budget) op inline)
      s.engine trivial
    rw [failed] at made
    exact made.1.trans (s.current.changes_finish e)
  | @loop op inline exit budget elements fault e e' fetched run failed =>
    obtain ⟨made, rfl, past⟩ := executed run
    have body : (s.executing budget).Leads .forEach (s.current.next + 2) :=
      Activation.leads_of_width rfl
    have iterates := Activation.does_iterate (P := .anything) (a := s.executing budget)
      (l := ⟨elements, s.current.frame, s.current.next + 2, exit⟩) s.current.frame List.suffix_rfl
      body past
    have iterated := Failure.changes_of_error iterates failed
    exact (made.trans iterated).trans (s.current.changes_finish e')
  | @body op inline budget l loops fault e e' fetched run inside failed =>
    obtain ⟨made, -⟩ := executed run
    have around : loops <:+ (s.executing budget).loops := ⟨[l], inside.symm⟩
    obtain ⟨body, past⟩ := (s.executing budget).leads_loops op l (inside ▸ List.mem_cons_self)
    have released := (aside_releaseAll s.current.frame).changes (P := .anything) e
    have iterated := Failure.changes_of_error (Activation.does_iterate l.outer around body past)
      failed
    exact ((made.trans released).trans iterated).trans (Activation.changes_finish _ e')
  | @begin op inline budget made fault e e' fetched run failed =>
    have begun := Failure.changes_of_error
      (Activation.does_begin made.fiber none (s.current.depth + 1) made.entry) failed
    exact (executed run).1.trans begun
  | @ended op inline budget control cell launcher below fault e e' fetched run ends callers
      failed =>
    have finished : Changes .anything e (s.current.finish e) := s.current.changes_finish e
    have pushed := Failure.changes_of_error
      (Operand.makes_pushValue launcher.fiber (.fiber cell)) failed
    exact (((executed run).1.trans finished).trans pushed).trans (launcher.changes_finish e')

end Session

/-- What the host returns from a call, checked. -/
def HostCall.checked (call : HostCall) (results : Except Fault (List Value)) :
    EngineM (List Value) :=
  match results with
  | .error fault => throw fault
  | .ok results => EngineM.onHeap (call.native.checkResults results)

/-- An answer that cannot be taken is a failure. -/
lemma Session.answer_of_error {call : HostCall} {results}
    (failed : Activation.finishCall call.fiber call.receiver call.args
      (call.checked results) s.engine = .error fault e) :
    s.answer call results = fail s.current s.callers fault e := by
  cases results with
  | error returned =>
    have failed' : Activation.finishCall call.fiber call.receiver call.args
      (throw returned) s.engine =
      .error fault e := failed
    simp only [answer, failed']
  | ok returned =>
    have failed' : Activation.finishCall call.fiber call.receiver call.args
      (EngineM.onHeap (call.native.checkResults returned)) s.engine = .error fault e := failed
    simp only [answer, failed']

namespace World

/-- The references that the host holds. -/
def held : World → Multiset Ref
  | host _ _ held => held
  | work _ _ held => held

/-- Next, the run of a fiber fails. -/
inductive Faults : World → Failure → Prop where
  /-- It fails in a step. -/
  | step {s : Session} {calls : List (HostCall × Session)} {H : Multiset Ref} {x : Failure}
      (faults : s.Faults x) : Faults (work (.run s) calls H) x
  /-- A call of the host has failed. -/
  | answer {e e' : Engine} {call : HostCall} {s : Session} {calls : List (HostCall × Session)}
      {H : Multiset Ref} {results : Except Fault (List Value)} {fault : Fault}
      (failed : Activation.finishCall call.fiber call.receiver call.args (call.checked results) e =
        .error fault e') :
    Faults (host e ((call, s) :: calls) H)
      ⟨s.current.fiber, s.current.pc, fault, s.callers, s.current.finish e'⟩
  /-- A continuation has fired, and cannot begin to run. -/
  | fire {e : Engine} {e' id k rest calls H} {fault} (registered : e.agenda.get? id = some k)
      (present : (e.fiber? k.fiber).isSome)
      (failed : Activation.begin k.fiber (some id) 0 k.pc e = .error fault e') :
    Faults (work (.fire (id :: rest) e) calls H) ⟨k.fiber, k.pc, fault, .update id rest, e'⟩
  /-- A fiber that the host launches cannot begin to run. -/
  | launch {e e₁ e' name made calls H} {fault} (spawned : spawn name [] e = .ok made e₁)
      (failed : Activation.begin made.fiber none 0 made.entry e₁ = .error fault e') :
    Faults (host e calls H) ⟨made.fiber, made.entry, fault, .launch made.fiber made.cell, e'⟩
  /-- A fiber that the host resumes cannot run on. -/
  | resume {e : Engine} {e' f x pc calls H} {fault} (found : e.fiber? f = some x)
      (suspended : x.suspended = some pc)
      (failed : Activation.begin f none 0 pc (e.awaken f x) = .error fault e') :
    Faults (host e calls H) ⟨f, pc, fault, .resume, e'⟩
  /-- A launcher fails because of it. -/
  | above {w : World} {x y : Failure} (first : Faults w x) (next : x.Next y) : Faults w y

/-- What happens next is that the fault is recorded and those below go on. -/
lemma Faults.move (faults : w.Faults x) : ∃ calls, Move c w (after calls w.held x.progress) := by
  induction faults with
  | @step s calls H x faults =>
    rw [← faults.step_eq]
    exact ⟨calls, .step (.run s)⟩
  | @answer e e' call s calls H results fault failed =>
    have answered : { s with engine := e }.answer call results =
        Session.fail s.current s.callers fault e' := Session.answer_of_error failed
    change ∃ calls', Move c _ (after calls' H (Session.fail s.current s.callers fault e'))
    rw [← answered]
    exact ⟨calls, .answer call s results⟩
  | @fire e e' id k rest calls H fault registered present failed =>
    obtain ⟨x, found⟩ := Option.isSome_iff_exists.1 present
    have fired : Session.fire (id :: rest) e =
        Failure.progress ⟨k.fiber, k.pc, fault, .update id rest, e'⟩ := by
      rw [Session.fire_of_registered registered found, failed]
      rfl
    rw [← fired]
    exact ⟨calls, .step (.fire (id :: rest) e)⟩
  | @launch e e₁ e' name made calls H fault spawned failed =>
    have launched : e.launch name =
        Failure.progress ⟨made.fiber, made.entry, fault, .launch made.fiber made.cell, e'⟩ := by
      rw [Engine.launch, spawned]
      change Session.start made.fiber 0 made.entry (.launch made.fiber made.cell) e₁ = _
      rw [Session.start, failed]
      rfl
    rw [← launched]
    exact ⟨calls, .request (.launch name)⟩
  | @resume e e' f x pc calls H fault found suspended failed =>
    have resumed : e.resume f = Failure.progress ⟨f, pc, fault, .resume, e'⟩ := by
      rw [Engine.resume, found]
      simp only [suspended]
      change Session.start f 0 pc .resume (e.awaken f x) = _
      rw [Session.start, failed]
      rfl
    rw [← resumed]
    exact ⟨calls, .request (.resume f)⟩
  | above first next ih =>
    rw [← next.progress_eq]
    exact ih

/-- Where a run fails in a sound world, the engine is sound. -/
lemma Faults.follows (faults : w.Faults x) (ok : w.Sound c) : x.Follows c w.held w.engine := by
  induction faults with
  | step faults => exact faults.follows ok.1
  | @answer e e' call s calls H results fault failed =>
    -- only a host that has added functions answers calls
    have free : c = .free := by
      by_contra hc
      cases ok.2 hc
    subst free
    let scene : Scene := ⟨[(call.fiber, s.current.cell)], []⟩
    have finished : Outcome (Precedes .free) (Fault.Allowed .free)
        (fun _ => Engine.Sound .free scene 0 0) (Engine.Sound .free scene 0 0) e
        (Activation.finishCall call.fiber call.receiver call.args (call.checked results) e) :=
      Activation.runs_finishCall List.mem_cons_self (absurd rfl)
        (Session.runs_checkResults call.native results) e (.of_indexed ok.1.indexed)
    rw [failed] at finished
    exact Failure.follows_finish s.current.pc (.of_indexed finished.2.2.indexed) (absurd rfl)
      finished.1.agenda
  | @fire e e' id k rest calls H fault registered present failed =>
    have bound := Agenda.bond?_of_get? registered
    exact Failure.follows_begin (.update id rest) (ok.1.cast (zero_add H).symm rfl)
      (fun hc => (ok.1.consistent hc).waiting id k.fiber k.cell bound)
        (Session.startable_of_bond ok.1 bound)
      (fun _ => trivial) (.refl _) failed
  | @launch e e₁ e' name made calls H fault spawned failed =>
    have spawning := requests_spawn name [] e (ok.1.cast (zero_add H).symm rfl)
    rw [spawned] at spawning
    obtain ⟨related, ready⟩ := spawning
    exact Failure.follows_begin (.launch made.fiber made.cell)
      (ready.sound.crew_subset fun _ hy => absurd hy List.not_mem_nil)
      (fun hc => (ready.sound.consistent hc).crew _ List.mem_cons_self)
        (Session.startable_of_ready ready)
      (fun hc => ⟨rfl, rfl, ready.rootless hc⟩) related.agenda failed
  | @resume e e' f x pc calls H fault found suspended failed =>
    have awake := sound_awaken ok.1 found
    have there : (e.awaken f x).fiber? f = some { x with suspended := none } :=
      (fiber?_setFiber found).trans (if_pos rfl)
    by_cases startable : Activation.Startable c f (e.awaken f x)
    · obtain ⟨r, celled⟩ : ∃ r, c ≠ .free → (e.awaken f x).cellOf? f = some (some r) := by
        have cell := cellOf?_of_fiber? there
        cases own : x.cell with
        | none =>
          refine ⟨⟨0⟩, fun hc => absurd ((awake.consistent hc).complete f ?_) List.not_mem_nil⟩
          exact cell.trans (congrArg some own)
        | some r => exact ⟨r, fun _ => cell.trans (congrArg some own)⟩
      exact Failure.follows_begin .resume (awake.cast (zero_add H).symm rfl) celled startable
        (fun _ => trivial) (.refl _) failed
    · -- a fiber that has lost its cell cannot run, and nothing was done yet
      obtain ⟨fault', refused⟩ := Activation.begin_of_not_startable awake startable none 0 pc
      rw [failed] at refused
      cases refused
      exact
        { sound := awake.cast (zero_add H).symm rfl
          idle := fun _ y hy => absurd hy List.not_mem_nil
          stacked := fun _ => trivial
          present := fun _ => Option.isSome_iff_exists.2 ⟨_, there⟩
          evolves := .refl _ }
  | above first next ih => exact (ih ok).next next

/-- Where a run fails, the engine has come from that of the world by changes. -/
lemma Faults.changes (faults : w.Faults x) : Changes .anything w.engine x.engine := by
  induction faults with
  | step faults => exact faults.changes
  | @answer e e' call s calls H results fault failed =>
    have finished := Failure.changes_of_error
      (Activation.makes_finishCall call.fiber call.receiver call.args (fun _ _ => trivial)
        ((Session.makes_checkResults call results).allow fun _ _ => trivial)) failed
    exact finished.trans (s.current.changes_finish e')
  | @fire e e' id k rest calls H fault registered present failed =>
    exact Failure.changes_of_error (Activation.does_begin k.fiber (some id) 0 k.pc) failed
  | @launch e e₁ e' name made calls H fault spawned failed =>
    have spawning := meets_spawn (P := .anything) name [] e trivial
    rw [spawned] at spawning
    have begun := Failure.changes_of_error (Activation.does_begin made.fiber none 0 made.entry)
      failed
    exact spawning.1.trans begun
  | @resume e e' f x pc calls H fault found suspended failed =>
    have awoken : Changes .anything e (e.awaken f x) :=
      .single (.alter found (.of_stack rfl rfl rfl (.inr fun _ _ => trivial) rfl fun _ => .inl rfl))
    exact awoken.trans (Failure.changes_of_error (Activation.does_begin f none 0 pc) failed)
  | above first next ih => exact ih.trans next.changes

/-- In every world that can be reached, the agenda is tidy. -/
private lemma Reachable.tidy (reached : Reachable c source config w) : w.engine.agenda.Tidy :=
  have evolved := (Reaches.sound reached ⟨Engine.sound_create source config, fun _ => rfl⟩).2
  evolved.tidy (Agenda.tidy_ofLists config.eventLists)

/-- A host that owns its references leaves the variables to the engine. -/
private lemma Reachable.orderly (reached : Reachable c source config w) (owning : c = .owning) :
    w.engine.Orderly :=
  have respected := respects_of_reaches (owning ▸ Heap.owning_ne_free) reached
  (orderly_of_respects respected (orderly_create source config)).1

/-- The end of any fiber leaves everything else alone, and so does each fault that is recorded: what
happens next when a run fails is that its fiber ends in this way and that those below go on. -/
theorem faults_isolated (reached : Reachable c source config w) :
    (∀ f, (w.engine.fiber? f).isSome → Spares c f w.inHand w.engine (w.engine.teardown f)) ∧
      ∀ x, w.Faults x →
        (∃ calls, Move c w (after calls w.held x.progress)) ∧
          (c ≠ .free → (x.engine.fiber? x.fiber).isSome) ∧
          ((x.engine.fiber? x.fiber).isSome →
            Spares c x.fiber (x.callers.refs + w.held) x.engine x.recorded) := by
  have ok : w.Sound c := reached.sound
  have tidy : w.engine.agenda.Tidy := reached.tidy
  refine ⟨fun f present => ?_, fun x faults => ?_⟩
  · obtain ⟨x, found⟩ := Option.isSome_iff_exists.1 present
    exact ok.engine.spares tidy reached.orderly found w.engine.faults
  · have follows := faults.follows ok
    have orderly : c = .owning → x.engine.Orderly :=
      fun owning => (faults.changes.orderly (reached.orderly owning)).1
    exact ⟨faults.move, follows.present, follows.spares tidy orderly⟩

/-! ## A fiber that fails inside another one -/

/-- A machine that fails at its first instruction. -/
def failingChild : Image where
  name := "child"
  words := #[.plain .pop]
  states := [⟨0, 0⟩]
  locals := []
  shared := []
  strings := ⟨#[99, 104, 105, 108, 100, 0], #[0]⟩

/-- A machine that launches the machine named `child`. -/
def launchingParent : Image where
  name := "parent"
  words := #[.plain .paramsStart, .plain .paramsEnd, .plain .pushString, .plain .launch,
    .plain .endState]
  states := [⟨0, 0⟩]
  locals := []
  shared := []
  strings := ⟨#[99, 104, 105, 108, 100, 0], #[0]⟩

/-- The images of a parent and of a child that fails. -/
def failingFamily (name : String) : Option Image :=
  some (if name = "child" then failingChild else launchingParent)

/-- Whether the next instruction of a fiber fails while another one exists. -/
def failsBeside (f g : FiberId) : Progress → Bool
  | .running (.run s) =>
    match s.current.fetch with
    | .error _ => false
    | .ok (op, inline, budget) =>
      match (s.executing budget).execute op inline s.engine with
      | .ok _ _ => false
      | .error _ e =>
        decide (s.current.fiber = f) && ((s.current.finish e).fiber? g).isSome
  | _ => false

/-- What the check of a failing instruction says about the session. -/
private lemma of_failsBeside {f g : FiberId} {p : Progress} (failing : failsBeside f g p) :
    ∃ s x, p = .running (.run s) ∧ s.Faults x ∧ x.fiber = f ∧ (x.engine.fiber? g).isSome := by
  unfold failsBeside at failing
  split at failing
  case h_1 s =>
    split at failing
    case h_1 => cases failing
    case h_2 op inline budget fetched =>
      split at failing
      case h_1 => cases failing
      case h_2 fault e failed =>
        obtain ⟨same, there⟩ := Bool.and_eq_true_iff.1 failing
        exact ⟨s, _, rfl, .execute fetched failed, of_decide_eq_true same, there⟩
  case h_2 => cases failing

/-- A fiber fails that another one has launched, and the other one is as it was. -/
theorem faults_isolated_nested :
    ∃ s x y, ((create failingFamily {}).launch "parent").run 4 = .running (.run s) ∧ s.Faults x ∧
      x.fiber = ⟨1⟩ ∧ x.engine.fiber? ⟨0⟩ = some y ∧ x.recorded.fiber? ⟨0⟩ = some y ∧
      Spares .owning ⟨1⟩ x.callers.refs x.engine x.recorded := by
  have failing : failsBeside ⟨1⟩ ⟨0⟩ (((create failingFamily {}).launch "parent").run 4) := by
    decide +kernel
  obtain ⟨s, x, running, faults, same, there⟩ := of_failsBeside failing
  have requested : Reachable .owning failingFamily {}
      (after [] 0 (((create failingFamily {}).launch "parent").run 4)) :=
    Reaches.request .refl (.launch "parent") 4
  rw [running] at requested
  obtain ⟨-, present, spares⟩ := (faults_isolated requested).2 x (.step faults)
  have spared := spares (present Heap.owning_ne_free)
  rw [same] at spared
  have spared' : Spares .owning ⟨1⟩ x.callers.refs x.engine x.recorded :=
    add_zero x.callers.refs ▸ spared
  obtain ⟨y, found⟩ := Option.isSome_iff_exists.1 there
  exact ⟨s, x, y, running, faults, same, found, (spared'.fibers ⟨0⟩ (by decide)).trans found,
    spared'⟩

/-! ## A target that is remembered only -/

/-- A machine with one variable, which suspends itself and fails when it is resumed. -/
def variableOwner : Image where
  name := "owner"
  words := #[.plain .suspend, .plain .pop]
  states := [⟨0, 0⟩]
  locals := [⟨0, 1⟩]
  shared := []
  strings := ⟨#[120, 0, 105, 110, 116, 0], #[0, 2]⟩

/-- A machine that reads the variable `x` of the main fiber and suspends itself. -/
def variableReader : Image where
  name := "reader"
  words := #[.plain .paramsStart, .plain .paramsEnd, .plain .call, .plain .pop, .plain .suspend]
  states := [⟨0, 0⟩]
  locals := []
  shared := []
  strings := ⟨#[109, 97, 105, 110, 46, 120, 0], #[0]⟩

/-- The images of the machine with the variable and of its reader. -/
def ownerAndReader (name : String) : Option Image :=
  some (if name = "owner" then variableOwner else variableReader)

/-- The engine in which the main fiber is suspended. -/
def ownerSuspended : Engine := (((create ownerAndReader {}).launch "owner").run 1).engine

/-- The engine in which the reader remembers the variable of the main fiber. -/
def readerSuspended : Engine := ((ownerSuspended.launch "reader").run 5).engine

/-- A fiber refers only weakly to the targets that it remembers. So when the run of another fiber
fails, or that fiber ends otherwise, a remembered variable of it loses its value. -/
theorem remembered_variable_dropped :
    ∃ e f g x r v, Reachable .owning ownerAndReader {} (host e [] 0) ∧
      (e.fiber? f).isSome ∧ g ≠ f ∧ e.fiber? g = some x ∧
      r ∈ x.cache.values.filterMap Target.ref? ∧ e.heap.get? r = some v ∧
      (e.teardown f).fiber? g = some x ∧ (e.teardown f).heap.get? r = none ∧
      ((e.resume f).run 1).engine.faults.size = 1 ∧
      ((e.resume f).run 1).engine.heap.get? r = none := by
  have first : Reaches .owning (host (create ownerAndReader {}) [] 0) (host ownerSuspended [] 0) :=
    reaches_launch (by decide +kernel)
  have second : Reaches .owning (host ownerSuspended [] 0) (host readerSuspended [] 0) :=
    reaches_launch (by decide +kernel)
  have present : (readerSuspended.fiber? ⟨0⟩).isSome := by decide +kernel
  have remembered : (readerSuspended.fiber? ⟨1⟩).map
      (fun x => x.cache.values.filterMap Target.ref?) = some [⟨1⟩] := by decide +kernel
  have kept : (readerSuspended.teardown ⟨0⟩).fiber? ⟨1⟩ = readerSuspended.fiber? ⟨1⟩ := by
    decide +kernel
  have value : readerSuspended.heap.get? ⟨1⟩ = some (.int 0) := by decide +kernel
  have dropped : (readerSuspended.teardown ⟨0⟩).heap.get? ⟨1⟩ = none := by decide +kernel
  have failed : ((readerSuspended.resume ⟨0⟩).run 1).engine.faults.size = 1 := by decide +kernel
  have dropped' : ((readerSuspended.resume ⟨0⟩).run 1).engine.heap.get? ⟨1⟩ = none := by
    decide +kernel
  have reached : Reachable .owning ownerAndReader {} (host readerSuspended [] 0) :=
    first.trans second
  generalize readerSuspended = e at present remembered kept value dropped failed dropped' reached
  obtain ⟨x, found, targets⟩ := Option.map_eq_some_iff.1 remembered
  exact ⟨e, ⟨0⟩, ⟨1⟩, x, ⟨1⟩, .int 0, reached, present, by decide, found,
    targets ▸ List.mem_singleton_self _, value, kept.trans found, dropped, failed, dropped'⟩

end World

end FiberVM
