import FiberVM.Engine.Session
import FiberVM.Proofs.Engine.Instruction

/-!
# What sessions do to an engine

While fibers run, the hand holds what the running activation and those below it hold, together with
what the host holds (`Session.Sound`). Every step of a session keeps this, whether the step is an
instruction, the end of a run, a fault or the start of another run; when the host is answered, the
hand holds what the host holds.

The fibers on the stack of a session were made one after the other, so a fiber that fails is never
one of those that wait below it (`Callers.Fits`).

What has started a session stays at the bottom of its stack (`Progress.Serves`), so a continuation
runs only if it was fired between two runs of an update.
-/

namespace FiberVM

open Engine

variable {c : Conduct} {H : Multiset Ref} {e e' : Engine} {f : FiberId} {r : Ref} {a : Activation}
  {callers : Callers} {p : Progress} {origin : Option (ContinuationId × List ContinuationId)}

namespace Callers

/-- The references that are held below a running activation. -/
def refs : Callers → Multiset Ref
  | launch _ cell => {cell}
  | update .. => 0
  | resume => 0
  | nested cell launcher below => {cell} + (launcher.refs + below.refs)

/-- The fibers below a running one, with their cells. -/
def crew : Callers → List (FiberId × Ref)
  | nested _ launcher below => (launcher.fiber, launcher.cell) :: below.crew
  | _ => []

/-- The continuation that has fired, and those that are to fire after it. -/
def firing? : Callers → Option (ContinuationId × List ContinuationId)
  | update id rest => some (id, rest)
  | nested _ _ below => below.firing?
  | _ => none

/-- What is below a run of a fiber with a given cell: the host that has launched it, or an
activation of an older fiber. -/
def Fits (e : Engine) : Callers → FiberId → Ref → Prop
  | launch g cell, f, r => g = f ∧ cell = r ∧ e.roots.find? f = none
  | nested _ launcher below, f, _ =>
    launcher.fiber.id < f.id ∧ below.Fits e launcher.fiber launcher.cell
  | _, _, _ => True

/-- What is below an activation that waits fits the activation. -/
def Stacked (e : Engine) : Callers → Prop
  | nested _ launcher below => below.Fits e launcher.fiber launcher.cell
  | _ => True

lemma Fits.stacked (fits : callers.Fits e f r) : callers.Stacked e := by
  cases callers with
  | launch g cell => exact trivial
  | update id rest => exact trivial
  | resume => exact trivial
  | nested cell launcher below => exact fits.2

/-- A stack fits as long as roots are not added. -/
lemma Fits.precedes (fits : callers.Fits e f r) (related : Precedes c e e') :
    callers.Fits e' f r := by
  induction callers generalizing f r with
  | launch g cell =>
    obtain ⟨fiber, same, rootless⟩ := fits
    refine ⟨fiber, same, Option.eq_none_iff_forall_ne_some.2 fun s root => ?_⟩
    have root' := related.roots f s root
    rw [rootless] at root'
    cases root'
  | update id rest => exact trivial
  | resume => exact trivial
  | nested cell launcher below ih => exact ⟨fits.1, ih fits.2⟩

lemma Stacked.precedes (stacked : callers.Stacked e) (related : Precedes c e e') :
    callers.Stacked e' := by
  cases callers with
  | launch g cell => exact trivial
  | update id rest => exact trivial
  | resume => exact trivial
  | nested cell launcher below => exact Fits.precedes stacked related

/-- The fibers below are older. -/
lemma Fits.crew_lt (fits : callers.Fits e f r) : ∀ x ∈ callers.crew, x.1.id < f.id := by
  induction callers generalizing f r with
  | launch g cell => exact nofun
  | update id rest => exact nofun
  | resume => exact nofun
  | nested cell launcher below ih =>
    intro x hx
    rcases List.mem_cons.1 hx with rfl | hx
    · exact fits.1
    · exact Nat.lt_trans (ih fits.2 x hx) fits.1

/-- A fiber does not run below itself. -/
lemma Fits.idle (fits : callers.Fits e f r) : ∀ x ∈ callers.crew, x.1 ≠ f := by
  rintro x hx rfl
  exact Nat.lt_irrefl _ (fits.crew_lt x hx)

end Callers

namespace Session

/-- The fibers that run, with their cells. -/
def crew (s : Session) : List (FiberId × Ref) :=
  (s.current.fiber, s.current.cell) :: s.callers.crew

/-- The references that a session holds. -/
def refs (s : Session) : Multiset Ref := s.current.refs + s.callers.refs

/-- What is known of a session, where `H` are the references that the host holds. -/
structure Sound (c : Conduct) (H : Multiset Ref) (s : Session) : Prop where
  engine : s.engine.Sound c ⟨s.crew, []⟩ (s.refs + H) 0
  fits : c ≠ .free → s.callers.Fits s.engine s.current.fiber s.current.cell

end Session

namespace Turn

/-- The engine that is at work. -/
def engine : Turn → Engine
  | run s => s.engine
  | fire _ e => e

/-- What is known of an engine at work, where `H` are the references that the host holds. -/
def Sound (c : Conduct) (H : Multiset Ref) : Turn → Prop
  | run s => s.Sound c H
  | fire _ e => e.Sound c ⟨[], []⟩ H 0

end Turn

namespace Progress

/-- The engine of a request. -/
def engine : Progress → Engine
  | running t => t.engine
  | awaiting _ s => s.engine
  | done e _ => e

/-- What is known of a request, where `H` are the references that the host holds. -/
def Sound (c : Conduct) (H : Multiset Ref) : Progress → Prop
  | running t => t.Sound c H
  | awaiting _ s => c = .free ∧ s.Sound c H
  | done e _ => e.Sound c ⟨[], []⟩ H 0

/-- If a fiber runs, it does so for the given continuation, or for none. -/
def Serves (origin : Option (ContinuationId × List ContinuationId)) : Progress → Prop
  | running (.run s) => s.callers.firing? = origin
  | awaiting _ s => s.callers.firing? = origin
  | _ => True

/-- What is known of a request that was carried on from an engine. -/
structure Follows (c : Conduct) (H : Multiset Ref)
    (origin : Option (ContinuationId × List ContinuationId)) (e : Engine) (p : Progress) :
    Prop where
  sound : p.Sound c H
  evolves : e.Evolves c p.engine
  serves : p.Serves origin

lemma Follows.trans (related : Precedes c e e') (follows : p.Follows c H origin e') :
    p.Follows c H origin e :=
  ⟨follows.sound, related.toEvolves.trans follows.evolves, follows.serves⟩

/-- A session that goes on with the same callers. -/
lemma Follows.run (related : Precedes c e e')
    (ok : e'.Sound c ⟨(a.fiber, a.cell) :: callers.crew, []⟩ (a.refs + (callers.refs + H)) 0)
    (fits : c ≠ .free → callers.Fits e' a.fiber a.cell) :
    (running (.run ⟨e', a, callers⟩)).Follows c H callers.firing? e :=
  ⟨⟨ok.cast (add_assoc _ _ _).symm rfl, fits⟩, related.toEvolves, rfl⟩

/-- An update that goes on with the continuations that are left. -/
lemma Follows.fire (related : Precedes c e e') (ok : e'.Sound c ⟨[], []⟩ H 0)
    (due : List ContinuationId) : (running (.fire due e')).Follows c H origin e :=
  ⟨ok, related.toEvolves, trivial⟩

/-- A request that is answered. -/
lemma Follows.done (related : Precedes c e e') (ok : e'.Sound c ⟨[], []⟩ H 0) (reply : Reply) :
    (done e' reply).Follows c H origin e :=
  ⟨ok, related.toEvolves, trivial⟩

end Progress

namespace Engine

/-- A fiber that the host has launched becomes a root, which takes the reference to its cell. -/
lemma Sound.root {K L crew} (ok : e.Sound c ⟨crew, []⟩ ({r} + K) L)
    (cell : c ≠ .free → e.cellOf? f = some (some r))
    (rootless : c ≠ .free → e.roots.find? f = none) :
    Sound c ⟨crew, []⟩ K L
      { e with roots := e.roots.insert f r, main := e.main <|> some f } where
  indexed := ok.indexed
  consistent hc :=
    have before := ok.consistent hc
    { before with
      rooted := by
        intro g s root
        have root' : (e.roots.insert f r).find? g = some s := root
        rw [Table.find?_insert] at root'
        split at root'
        case isTrue same =>
          cases root'
          rw [same]
          exact cell hc
        case isFalse => exact before.rooted g s root'
      main := by
        intro g main
        change ((e.roots.insert f r).find? g).isSome
        rw [Table.find?_insert]
        split
        case isTrue => rfl
        case isFalse other =>
          have main' : (e.main <|> some f) = some g := main
          cases known : e.main with
          | none =>
            rw [known] at main'
            cases main'
            exact absurd rfl other
          | some h =>
            rw [known] at main'
            cases main'
            exact before.main g known }
  accounts hc := by
    refine (ok.accounts hc).cast ?_ rfl
    have free : e.roots.erase f = e.roots :=
      Table.erase_of_find?_eq_none (rootless (hc ▸ Heap.owning_ne_free))
    change _ + (e.fibers.total Fiber.refs + e.agenda.cells + e.roots.total fun r => {r}) =
      K + (e.fibers.total Fiber.refs + e.agenda.cells + (e.roots.insert f r).total fun r => {r})
    rw [Table.total_insert, free]
    abel

end Engine

namespace Session

open Progress

/-! ## Continuations that fire -/

lemma startable_of_bond {scene K L id} (ok : e.Sound c scene K L)
    (bound : e.agenda.bond? id = some (f, r)) :
    Activation.Startable c f e := by
  rintro rfl
  have cell := (ok.consistent Heap.owning_ne_free).waiting id f r bound
  exact ⟨r, cell, ok.live_of_held (mem_held_of_bond bound) rfl⟩

/-- A run that has begun with nothing below it but a request. -/
lemma sound_begun {continuation} (begun : Activation.Begun c ⟨[], []⟩ H 0 f continuation a e)
    (callers : Callers) (refs : callers.refs = 0) (crew : callers.crew = [])
    (fits : callers.Fits e a.fiber a.cell) :
    Session.Sound c H ⟨e, a, callers⟩ := by
  have present : c ≠ .free → e.cellOf? a.fiber = some (some a.cell) := fun _ => by
    rw [begun.fiber]
    exact begun.cell
  refine ⟨?_, fun _ => fits⟩
  rw [Session.refs, Session.crew, refs, crew, add_zero]
  exact begun.sound.crew_cons present

/-- A fault outside of all runs is recorded, and orphans are reaped. -/
lemma turns_recordFault (pc : Nat) {fault : Fault} (allowed : fault.Allowed c) :
    Turns (Precedes c) (Engine.Sound c ⟨[], []⟩ H 0) (fun e => (e.recordFault f pc fault).2.reap)
      (Engine.Sound c ⟨[], []⟩ H 0) := by
  intro e ok
  have recorded := precedes_recordFault e f pc allowed
  obtain ⟨reaped, ok'⟩ := turns_reap _ (sound_recordFault ok (fun _ => nofun) pc fault)
  exact ⟨recorded.trans reaped, ok'⟩

/-- A continuation that is gone is passed over. -/
lemma fire_of_gone {id} (gone : e.agenda.get? id = none) (rest : List ContinuationId) :
    fire (id :: rest) e = .running (.fire rest e) := by
  simp only [fire, gone]

/-- A continuation whose fiber does not exist is cancelled. -/
lemma fire_of_unmanned {id k} (registered : e.agenda.get? id = some k)
    (missing : e.fiber? k.fiber = none) (rest : List ContinuationId) :
    fire (id :: rest) e =
      .running (.fire rest ({ e with agenda := (e.agenda.cancel id).2 }.releaseAll
        (e.agenda.cancel id).1)) := by
  simp only [fire, registered, missing]

/-- A continuation that is registered for a fiber that exists begins to run, or fails to. -/
lemma fire_of_registered {id k x} (registered : e.agenda.get? id = some k)
    (present : e.fiber? k.fiber = some x) (rest : List ContinuationId) :
    fire (id :: rest) e = match Activation.begin k.fiber (some id) 0 k.pc e with
      | .ok a e => .running (.run ⟨e, a, .update id rest⟩)
      | .error fault e => .running (.fire rest (e.recordFault k.fiber k.pc fault).2.reap) := by
  cases begun : Activation.begin k.fiber (some id) 0 k.pc e with
  | ok a e => simp only [fire, registered, present, begun]
  | error fault e => simp only [fire, registered, present, begun]

/-- A run begins only for the first continuation that is due, and only if it is registered. -/
lemma fire_eq_run {due s} (fired : fire due e = .running (.run s)) :
    ∃ id rest k, due = id :: rest ∧ e.agenda.get? id = some k ∧ s.callers = .update id rest ∧
      Activation.begin k.fiber (some id) 0 k.pc e = .ok s.current s.engine := by
  cases due with
  | nil => cases fired
  | cons id rest =>
    cases registered : e.agenda.get? id with
    | none =>
      rw [fire_of_gone registered] at fired
      cases fired
    | some k =>
      cases present : e.fiber? k.fiber with
      | none =>
        simp only [fire, registered, present] at fired
        cases fired
      | some x =>
        rw [fire_of_registered registered present] at fired
        cases run : Activation.begin k.fiber (some id) 0 k.pc e with
        | ok a e' =>
          rw [run] at fired
          cases fired
          exact ⟨id, rest, k, rfl, registered, rfl, run⟩
        | error fault e' =>
          rw [run] at fired
          cases fired

/-- Between runs the host is not called. -/
lemma fire_ne_awaiting (due : List ContinuationId) (e : Engine) (call : HostCall) (s : Session) :
    fire due e ≠ .awaiting call s := by
  cases due with
  | nil => exact nofun
  | cons id rest =>
    unfold fire
    simp only
    split
    · exact nofun
    · split
      · exact nofun
      · split <;> exact nofun

/-- Looking at the first continuation that is due keeps an engine sound. -/
lemma sound_fire (due : List ContinuationId) (ok : e.Sound c ⟨[], []⟩ H 0) :
    (fire due e).Sound c H ∧ e.Evolves c (fire due e).engine := by
  cases due with
  | nil =>
    obtain ⟨related, ok'⟩ := turns_reap e ok
    exact ⟨ok', related.toEvolves⟩
  | cons id rest =>
    cases registered : e.agenda.get? id with
    | none =>
      rw [fire_of_gone registered]
      exact ⟨ok, .refl c e⟩
    | some k =>
      cases present : e.fiber? k.fiber with
      | none =>
        obtain ⟨cancelled, ok₁⟩ := ok.sheds (.call (.cancel id) _) (e.agenda.sheds_cancel id)
        obtain ⟨released, ok₂⟩ := turns_releaseAll (e.agenda.cancel id).1 _ ok₁
        simp only [fire, registered, present]
        exact ⟨ok₂, (cancelled.trans released).toEvolves⟩
      | some x =>
        have startable := startable_of_bond ok (Agenda.bond?_of_get? registered)
        have begun := Activation.runs_begin k.fiber (some id) 0 k.pc e ⟨ok, startable⟩
        rw [fire_of_registered registered present]
        cases run : Activation.begin k.fiber (some id) 0 k.pc e with
        | ok a e' =>
          rw [run] at begun
          exact ⟨sound_begun begun.2 (.update id rest) rfl rfl trivial, begun.1.toEvolves⟩
        | error fault e' =>
          rw [run] at begun
          obtain ⟨related, allowed, ok₁⟩ := begun
          obtain ⟨recorded, ok₂⟩ := turns_recordFault (f := k.fiber) k.pc allowed e' ok₁
          exact ⟨ok₂, (related.trans recorded).toEvolves⟩

/-- Settling a continuation is sound. -/
lemma turns_settle {scene K L} (id : ContinuationId) :
    Turns (Precedes c) (Engine.Sound c scene K L) (settle id) (Engine.Sound c scene K L) := by
  intro e ok
  unfold settle
  split
  case h_1 => exact ⟨.refl c e, ok⟩
  case h_2 cell agenda settled =>
    obtain ⟨related, ok'⟩ := ok.sheds (Agenda.evolves_rearmOrRetire settled)
      (Agenda.sheds_rearmOrRetire settled)
    obtain ⟨released, ok''⟩ := turns_releaseAll cell.toList _ ok'
    exact ⟨related.trans released, ok''⟩

/-! ## The end of a run -/

/-- Answering a launch is sound. -/
lemma follows_answerLaunch (ok : e.Sound c ⟨[(f, r)], []⟩ ({r} + H) 0)
    (rootless : c ≠ .free → e.roots.find? f = none) :
    (answerLaunch f r e).Follows c H origin e := by
  unfold answerLaunch
  split
  case h_1 =>
    have cell : c ≠ .free → e.cellOf? f = some (some r) := fun hc =>
      (ok.consistent hc).crew _ List.mem_cons_self
    have rooted := ok.root cell rootless
    obtain ⟨reaped, ok'⟩ := turns_reap _ (rooted.crew_subset nofun)
    -- Roots have been added, so only the agenda and the faults are as before.
    have added : e.Evolves c
        { e with roots := e.roots.insert f r, main := e.main <|> some f } :=
      .of_agenda (.refl _) rfl
    exact ⟨ok', added.trans reaped.toEvolves, trivial⟩
  case h_2 =>
    obtain ⟨released, ok'⟩ := turns_release r e ok
    obtain ⟨reaped, ok''⟩ := turns_reap _ (ok'.crew_subset nofun)
    exact .done (released.trans reaped) ok'' _

/-- Callers go on after a failure above them. -/
def Recovers (c : Conduct) (H : Multiset Ref) (callers : Callers) : Prop :=
  ∀ (e : Engine) (err : ExecutionError), e.Sound c ⟨callers.crew, []⟩ (callers.refs + H) 0 →
    (c ≠ .free → callers.Stacked e) →
      (conclude callers (.error err) e).Follows c H callers.firing? e

/-- An activation that fails gives up what it holds, and its fiber ends. -/
lemma Recovers.follows_fail (recovers : Recovers c H callers)
    (ok : e.Sound c ⟨(a.fiber, a.cell) :: callers.crew, []⟩ (a.refs + (callers.refs + H)) 0)
    (fits : c ≠ .free → callers.Fits e a.fiber a.cell)
    {fault : Fault} (allowed : fault.Allowed c) :
    (fail a callers fault e).Follows c H callers.firing? e := by
  obtain ⟨finished, ok₁⟩ := a.turns_finish e ok
  have ok₂ := ok₁.crew_subset fun x hx => List.mem_cons_of_mem (a.fiber, a.cell) hx
  have recorded := precedes_recordFault (a.finish e) a.fiber a.pc allowed
  have ok₃ := sound_recordFault ok₂ (fun hc => (fits hc).idle) a.pc fault
  have related := finished.trans recorded
  exact .trans related (recovers _ _ ok₃ fun hc => (fits hc).stacked.precedes related)

/-- A launcher goes on with a value for the fiber that it has launched. -/
lemma Recovers.follows_push {launcher : Activation} (recovers : Recovers c H callers) {v : Value}
    (other : c ≠ .free → v.instance? = none)
    (ok : e.Sound c ⟨(launcher.fiber, launcher.cell) :: callers.crew, []⟩
      (v.refs + (launcher.refs + (callers.refs + H))) 0)
    (fits : c ≠ .free → callers.Fits e launcher.fiber launcher.cell) :
    Progress.Follows c H callers.firing? e
      (match Operand.pushValue launcher.fiber v e with
      | .ok _ e => .running (.run ⟨e, { launcher with next := launcher.pc + 1 }, callers⟩)
      | .error fault e => fail launcher callers fault e) := by
  have pushed := Operand.runs_pushValue (List.mem_map.2 ⟨_, List.mem_cons_self, rfl⟩) other e ok
  split
  case h_1 e' run =>
    rw [run] at pushed
    exact .run pushed.1 pushed.2 fun hc => (fits hc).precedes pushed.1
  case h_2 fault e' run =>
    rw [run] at pushed
    obtain ⟨related, allowed, ok'⟩ := pushed
    exact .trans related (recovers.follows_fail ok' (fun hc => (fits hc).precedes related) allowed)

/-- All callers go on after a failure. The failure of a launcher is one for those below it. -/
lemma recovers (c : Conduct) (H : Multiset Ref) (callers : Callers) : Recovers c H callers := by
  induction callers with
  | launch g cell =>
    intro e err ok _
    obtain ⟨released, ok'⟩ := turns_release cell e ok
    exact .done released ok' _
  | update id rest =>
    intro e err ok _
    obtain ⟨reaped, ok'⟩ := turns_reap e (ok.cast (zero_add H) rfl)
    exact .fire reaped ok' rest
  | resume =>
    intro e err ok _
    obtain ⟨reaped, ok'⟩ := turns_reap e (ok.cast (zero_add H) rfl)
    exact .done reaped ok' _
  | nested cell launcher below ih =>
    intro e err ok stacked
    obtain ⟨released, ok'⟩ := turns_release cell e (ok.cast (add_assoc _ _ _) rfl)
    refine .trans released (ih.follows_push (v := .nil) (fun _ => rfl) (ok'.cast ?_ rfl) fun hc =>
      Callers.Fits.precedes (stacked hc) released)
    simp [Value.refs, add_assoc]

/-- Callers go on after a run has ended. -/
lemma follows_conclude (how : RunEnd)
    (ok : e.Sound c ⟨(f, r) :: callers.crew, []⟩ (callers.refs + H) 0)
    (fits : c ≠ .free → callers.Fits e f r) :
    (conclude callers (.ok how) e).Follows c H callers.firing? e := by
  have below := ok.crew_subset fun x hx => List.mem_cons_of_mem (f, r) hx
  cases callers with
  | launch g cell =>
    have rootless : c ≠ .free → e.roots.find? g = none := fun hc => by
      obtain ⟨rfl, -, rootless⟩ := fits hc
      exact rootless
    refine follows_answerLaunch (below.crew_cons fun hc => ?_) rootless
    obtain ⟨rfl, rfl, -⟩ := fits hc
    exact (ok.consistent hc).crew _ List.mem_cons_self
  | update id rest =>
    obtain ⟨settled, ok₁⟩ := turns_settle id e (below.cast (zero_add H) rfl)
    obtain ⟨reaped, ok₂⟩ := turns_reap _ ok₁
    exact .fire (settled.trans reaped) ok₂ rest
  | resume =>
    obtain ⟨reaped, ok'⟩ := turns_reap e (below.cast (zero_add H) rfl)
    exact .done reaped ok' _
  | nested cell launcher below' =>
    refine (recovers c H below').follows_push (v := .fiber cell) (fun _ => rfl) (below.cast ?_ rfl)
      fun hc => (fits hc).2
    simp [Value.refs, Callers.refs, add_assoc]

lemma follows_fail
    (ok : e.Sound c ⟨(a.fiber, a.cell) :: callers.crew, []⟩ (a.refs + (callers.refs + H)) 0)
    (fits : c ≠ .free → callers.Fits e a.fiber a.cell)
    {fault : Fault} (allowed : fault.Allowed c) :
    (fail a callers fault e).Follows c H callers.firing? e :=
  (recovers c H callers).follows_fail ok fits allowed

lemma follows_finish
    (ok : e.Sound c ⟨(a.fiber, a.cell) :: callers.crew, []⟩ (a.refs + (callers.refs + H)) 0)
    (fits : c ≠ .free → callers.Fits e a.fiber a.cell) (how : RunEnd) :
    (finish a callers how e).Follows c H callers.firing? e := by
  obtain ⟨finished, ok'⟩ := a.turns_finish e ok
  exact .trans finished (follows_conclude how ok' fun hc => (fits hc).precedes finished)

/-! ## Steps -/

/-- A run of a fiber that fits what is below it. -/
lemma follows_start {depth pc} (ok : e.Sound c ⟨(f, r) :: callers.crew, []⟩ (callers.refs + H) 0)
    (startable : Activation.Startable c f e) (fits : c ≠ .free → callers.Fits e f r) :
    (start f depth pc callers e).Follows c H callers.firing? e := by
  have begun := Activation.runs_begin f none depth pc e ⟨ok, startable⟩
  unfold start
  split
  case h_1 a e' run =>
    rw [run] at begun
    obtain ⟨related, begun⟩ := begun
    have below := begun.sound.crew_subset fun x hx => List.mem_cons_of_mem (f, r) hx
    refine .run related (below.crew_cons fun _ => ?_) fun hc => ?_
    · rw [begun.fiber]
      exact begun.cell
    · have cell : e'.cellOf? f = some (some r) :=
        (begun.sound.consistent hc).crew _ List.mem_cons_self
      rw [begun.cell] at cell
      cases cell
      rw [begun.fiber]
      exact (fits hc).precedes related
  case h_2 fault e' run =>
    rw [run] at begun
    obtain ⟨related, allowed, ok'⟩ := begun
    have below := ok'.crew_subset fun x hx => List.mem_cons_of_mem (f, r) hx
    have recorded := related.trans (precedes_recordFault e' f pc allowed)
    refine .trans recorded (recovers c H callers _ _ ?_ fun hc =>
      (fits hc).stacked.precedes recorded)
    exact sound_recordFault below (fun hc => (fits hc).idle) pc fault

/-- A fiber that was made has its cell. -/
lemma startable_of_ready {s : Spawned} {crew K L} (ready : s.Ready c crew K L e) :
    Activation.Startable c s.fiber e := by
  rintro rfl
  refine ⟨s.cell, (ready.sound.consistent Heap.owning_ne_free).crew _ List.mem_cons_self, ?_⟩
  exact ready.sound.live_of_mem (by simp) rfl

/-- A fiber that was made is run. -/
lemma follows_start_spawned (callers : Callers) {s : Spawned} {crew K}
    (ready : s.Ready c crew K 0 e) (below : callers.crew = crew)
    (held : callers.refs + H = {s.cell} + K) (fits : c ≠ .free → callers.Fits e s.fiber s.cell)
    (depth : Nat) :
    (start s.fiber depth s.entry callers e).Follows c H callers.firing? e := by
  have ok : e.Sound c ⟨(s.fiber, s.cell) :: callers.crew, []⟩ (callers.refs + H) 0 := by
    rw [below, held]
    exact ready.sound
  exact follows_start ok (startable_of_ready ready) fits

/-- Going on with a loop is sound. -/
lemma follows_iterate {l : Loop} (outer : l.outer = a.frame)
    (ok : e.Sound c ⟨(a.fiber, a.cell) :: callers.crew, []⟩
      (l.rest.refs + (a.refs + (callers.refs + H))) 0)
    (fits : c ≠ .free → callers.Fits e a.fiber a.cell) :
    (iterate a callers l e).Follows c H callers.firing? e := by
  have iterated := a.runs_iterate l outer e ok
  unfold iterate
  split
  case h_1 a' e' run =>
    rw [run] at iterated
    obtain ⟨related, sound, fiber, cell, -⟩ := iterated
    rw [← fiber, ← cell] at sound fits
    exact .run related sound fun hc => (fits hc).precedes related
  case h_2 fault e' run =>
    rw [run] at iterated
    obtain ⟨related, allowed, ok'⟩ := iterated
    exact .trans related (follows_fail ok' (fun hc => (fits hc).precedes related) allowed)

/-- A session goes on as an instruction says. -/
lemma follows_proceed {op control}
    (after : Activation.After c ((a.fiber, a.cell) :: callers.crew)
      (a.refs + (callers.refs + H)) 0 a.fiber control e)
    (fits : c ≠ .free → callers.Fits e a.fiber a.cell) :
    (proceed a callers op e control).Follows c H callers.firing? e := by
  cases control with
  | advance => exact .run (.refl c e) after fits
  | jump address => exact .run (.refl c e) after fits
  | enter address =>
    obtain ⟨related, ok⟩ := Activation.turns_leaveLoops after.1
    exact .run related ok fun hc => (fits hc).precedes related
  | loop elements exit =>
    exact follows_iterate (l := ⟨elements, a.frame, a.pc + 2, exit⟩) rfl after fits
  | endBody =>
    unfold proceed
    cases inside : a.loops with
    | nil => exact follows_finish after fits .bodyEnd
    | cons l loops =>
      have hand : a.refs + (callers.refs + H) = a.frame + (l.rest.refs +
          (({ a with frame := l.outer, loops } : Activation).refs + (callers.refs + H))) := by
        simp only [Activation.refs, inside, Activation.loopRefs_cons, Loop.refs]
        abel
      obtain ⟨released, ok⟩ := turns_releaseAll a.frame e (Engine.Sound.cast after hand rfl)
      exact .trans released (follows_iterate (a := { a with frame := l.outer, loops }) rfl ok
        fun hc =>
        (fits hc).precedes released)
  | finish how => exact follows_finish after fits how
  | launch s =>
    refine follows_start_spawned (.nested s.cell a callers) after rfl ?_ ?_ _
    · simp [Callers.refs, add_assoc]
    · exact fun hc => ⟨after.latest hc _ List.mem_cons_self, fits hc⟩
  | await call =>
    obtain ⟨rfl, indexed⟩ := after
    exact ⟨⟨rfl, .of_indexed indexed, absurd rfl⟩, .refl _ e, rfl⟩

/-- Fetching an instruction does not touch cells. -/
lemma fetch_allowed {fault} (failed : a.fetch = .error fault) :
    fault.isDangling = false := by
  unfold Activation.fetch at failed
  split at failed
  case h_1 => cases failed; rfl
  case h_2 =>
    split at failed
    case h_1 => cases failed; rfl
    case h_2 => split at failed <;> cases failed; rfl

/-- The activation that executes the next instruction, with what is left of its budget. -/
def executing (s : Session) (budget : Option Nat) : Activation :=
  { s.current with pc := s.current.next, budget }

lemma step_of_fetch_error {s : Session} {fault} (failed : s.current.fetch = .error fault) :
    s.step = fail { s.current with pc := s.current.next } s.callers fault s.engine := by
  have fetched : ({ s.current with pc := s.current.next } : Activation).fetch = .error fault :=
    failed
  simp only [step, fetched]

/-- What a step is, given the instruction. -/
lemma step_of_fetch {s : Session} {op inline budget}
    (fetched : s.current.fetch = .ok (op, inline, budget)) :
    s.step = match (s.executing budget).execute op inline s.engine with
      | .error fault e => fail (s.executing budget) s.callers fault e
      | .ok control e => proceed (s.executing budget) s.callers op e control := by
  have fetched' : ({ s.current with pc := s.current.next } : Activation).fetch =
    .ok (op, inline, budget) := fetched
  simp only [step, fetched']
  rfl

/-- The next instruction of a sound session leaves the hand as it is, but for what it takes
along. -/
lemma Sound.executed {s : Session} (ok : s.Sound c H) (op : Opcode) (inline : Nat)
    (budget : Option Nat) :
    Outcome (Precedes c) (Fault.Allowed c)
      (Activation.After c s.crew (s.current.refs + (s.callers.refs + H)) 0 s.current.fiber)
      (Engine.Sound c ⟨s.crew, []⟩ (s.current.refs + (s.callers.refs + H)) 0) s.engine
      ((s.executing budget).execute op inline s.engine) := by
  refine Activation.runs_execute (a := s.executing budget) List.mem_cons_self ?_ ?_ op inline
    s.engine (ok.engine.cast (add_assoc _ _ _) rfl)
  · exact Multiset.mem_add.2 (.inl s.current.cell_mem_refs)
  · exact fun r hr => Multiset.mem_add.2 (.inl (s.current.frame_mem_refs hr))

/-- Every step keeps a session sound. -/
lemma Sound.follows_step {s : Session} (ok : s.Sound c H) :
    s.step.Follows c H s.callers.firing? s.engine := by
  cases fetched : s.current.fetch with
  | error fault =>
    rw [step_of_fetch_error fetched]
    exact follows_fail (a := { s.current with pc := s.current.next })
      (ok.engine.cast (add_assoc _ _ _) rfl) ok.fits fun _ => fetch_allowed fetched
  | ok instruction =>
    obtain ⟨op, inline, budget⟩ := instruction
    have executed := ok.executed op inline budget
    rw [step_of_fetch fetched]
    cases run : (s.executing budget).execute op inline s.engine with
    | error fault e =>
      rw [run] at executed
      obtain ⟨related, allowed, ok'⟩ := executed
      exact .trans related (follows_fail (a := s.executing budget) ok'
        (fun hc => (ok.fits hc).precedes related) allowed)
    | ok control e =>
      rw [run] at executed
      obtain ⟨related, after⟩ := executed
      exact .trans related (follows_proceed (a := s.executing budget) after fun hc =>
        (ok.fits hc).precedes related)

/-- Whatever a host returns is checked. -/
lemma runs_checkResults {scene K} (f : Native) (results : Except Fault (List Value)) :
    Runs .free (Engine.Sound .free scene K 0)
      (match results with
      | .error fault => throw fault
      | .ok results => EngineM.onHeap (f.checkResults results))
      (fun vs e => (e.Sound .free scene (Value.refsAll vs + K) 0 ∧
        (Conduct.free ≠ .free → ∀ v ∈ vs, v.instance? = none)) ∧
          (Conduct.free = .owning → vs.length ≤ 1)) (Engine.Sound .free scene K 0) := by
  cases results with
  | error fault => exact .throw nofun fun _ ok => ok
  | ok vs =>
    intro e ok
    dsimp only [EngineM.onHeap]
    cases f.checkResults vs e.heap with
    | ok checked h => exact ⟨.of_same rfl rfl rfl, ⟨.of_indexed ok.indexed, absurd rfl⟩, nofun⟩
    | error fault h => exact ⟨.of_same rfl rfl rfl, nofun, .of_indexed ok.indexed⟩

/-- A session goes on after a call whose results are on the stack, or that has failed. -/
lemma follows_finishCall (s : Session) {scene} (result : EStateM.Result Fault Engine Unit) :
    Outcome (Precedes .free) (Fault.Allowed .free) (fun _ => Engine.Sound .free scene 0 0)
      (Engine.Sound .free scene 0 0) s.engine result →
    Progress.Follows .free H s.callers.firing? s.engine (match result with
      | .ok _ e => .running (.run ⟨e, { s.current with next := s.current.pc + 1 }, s.callers⟩)
      | .error fault e => fail s.current s.callers fault e) := by
  intro finished
  cases result with
  | ok x e => exact .run finished.1 (.of_indexed finished.2.indexed) (absurd rfl)
  | error fault e =>
    exact .trans finished.1
      (follows_fail (.of_indexed finished.2.2.indexed) (absurd rfl) finished.2.1)

/-- A session goes on after the answer of any host. -/
lemma follows_answer {s : Session} (known : s.engine.agenda.Indexed) (call : HostCall)
    (results : Except Fault (List Value)) :
    (s.answer call results).Follows .free H s.callers.firing? s.engine := by
  have member : call.fiber ∈ (⟨[(call.fiber, s.current.cell)], []⟩ : Scene).crew.map (·.1) :=
    List.mem_cons_self
  exact follows_finishCall s _ (Activation.runs_finishCall member (absurd rfl)
    (runs_checkResults call.native results) s.engine (.of_indexed known))

end Session

/-- Every step keeps an engine at work sound. -/
lemma Turn.Sound.next {t : Turn} (ok : t.Sound c H) :
    t.next.Sound c H ∧ t.engine.Evolves c t.next.engine := by
  cases t with
  | run s =>
    have follows := Session.Sound.follows_step ok
    exact ⟨follows.sound, follows.evolves⟩
  | fire due e => exact Session.sound_fire due ok

end FiberVM
