import FiberVM.Proofs.World

/-!
# Orphans

A fiber whose cell has lost its last strong reference is an orphan, and is to end. Reaping ends all
orphans, and those that become orphans by it. Requests that are answered with success, and runs that
have failed, end with it (`orphans_reaped`). A launch that fails does not: what its fiber alone
referred to stays behind (`orphan_of_failed_launch`).
-/

namespace FiberVM

open Engine

namespace Engine

variable {c : Conduct} {scene : Scene} {e : Engine} {f : FiberId} {x : Fiber}

/-! ## Rounds of reaping -/

/-- The number of fibers. -/
def population (e : Engine) : Nat := e.fibers.total fun _ => 1

lemma population_teardown (present : e.fiber? f = some x) :
    (e.teardown f).population < e.population := by
  have counted := Arena.total_erase (fun _ : Fiber => 1) present
  rw [teardown_eq present]
  change (e.fibers.erase f.id).total (fun _ => 1) < e.fibers.total fun _ => 1
  omega

/-- Ending fibers changes nothing, or fibers become fewer. -/
private lemma teardowns (lost : List FiberId) (e : Engine) :
    lost.foldl teardown e = e ∨ (lost.foldl teardown e).population < e.population := by
  induction lost generalizing e with
  | nil => exact .inl rfl
  | cons f rest ih =>
    rw [List.foldl_cons]
    cases present : e.fiber? f with
    | none =>
      rw [teardown_of_none present]
      exact ih e
    | some x =>
      have fewer := population_teardown present
      rcases ih (e.teardown f) with same | fewer'
      · rw [same]
        exact .inr fewer
      · exact .inr (fewer'.trans fewer)

private lemma reapRounds_of_none (n : Nat) (none_left : e.heap.orphans = []) :
    reapRounds n e = e := by
  cases n with
  | zero => rfl
  | succ n => rw [reapRounds, if_pos none_left]

/-- More rounds than there are fibers leave no orphans. -/
private lemma orphans_reapRounds (n : Nat) (enough : e.population < n) :
    (reapRounds n e).heap.orphans = [] := by
  induction n generalizing e with
  | zero => exact absurd enough (Nat.not_lt_zero _)
  | succ n ih =>
    rw [reapRounds]
    split
    case isTrue none_left => exact none_left
    case isFalse =>
      -- A round in which no fiber ends leaves no orphans.
      rcases teardowns e.heap.orphans { e with heap := e.heap.takeOrphans.2 } with same | fewer
      · have reaped : e.reapOrphans = { e with heap := e.heap.takeOrphans.2 } := same
        have none_left : e.reapOrphans.heap.orphans = [] := by
          rw [reaped]
          rfl
        rw [reapRounds_of_none n none_left]
        exact none_left
      · have fewer' : e.reapOrphans.population < e.population := fewer
        exact ih (Nat.lt_of_lt_of_le fewer' (Nat.le_of_lt_succ enough))

/-- Reaping leaves no orphans. -/
lemma orphans_reap (e : Engine) : e.reap.heap.orphans = [] :=
  orphans_reapRounds _ (Nat.lt_succ_of_le (e.fibers.total_le_size _ fun _ => Nat.le_refl 1))

/-- A fiber that is not about to end has a cell with strong references, unless it is an orphan. -/
lemma Consistent.referenced_iff (ok : e.Consistent scene) (present : e.fiber? f = some x)
    (stays : f ∉ scene.lost) :
    (∃ r, x.cell = some r ∧ 0 < e.heap.strong r) ↔ f ∉ e.heap.orphans := by
  have cell := cellOf?_of_fiber? present
  constructor
  · rintro ⟨r, celled, counted⟩ orphan
    rw [celled] at cell
    obtain ⟨v, value⟩ := ok.tidy.get?_of_strong_pos counted
    rw [(ok.orphans f (.inl orphan)).2 r cell] at value
    cases value
  · intro kept
    cases celled : x.cell with
    | none =>
      rw [celled] at cell
      exact absurd (ok.complete f cell) stays
    | some r =>
      rw [celled] at cell
      refine ⟨r, rfl, ?_⟩
      rcases (ok.celled f r cell).2 with held | ⟨-, ends⟩
      · exact ok.tidy.strong_pos_of_get? held
      · exact absurd ends (not_or.2 ⟨kept, stays⟩)

/-- No orphan is left, so that every fiber is referred to, if the host leaves the heap alone. -/
structure Reaped (c : Conduct) (e : Engine) : Prop where
  orphans : e.heap.orphans = []
  referenced : c ≠ .free → ∀ f x, e.fiber? f = some x → ∃ r, x.cell = some r ∧ 0 < e.heap.strong r

lemma Sound.reaped {crew K L} (ok : e.Sound c ⟨crew, []⟩ K L) (orphans : e.heap.orphans = []) :
    e.Reaped c where
  orphans := orphans
  referenced hc f x present := by
    refine ((ok.consistent hc).referenced_iff present List.not_mem_nil).2 ?_
    rw [orphans]
    exact List.not_mem_nil

end Engine

/-! ## Requests that are answered -/

/-- Whether orphans are reaped before the host is answered: after a success, and after a run that
has failed, unless the run was to be launched. -/
def Reply.reaps : Reply → Bool
  | launched (.ok _) => true
  | updated _ => true
  | resumed (.ok _) => true
  | resumed (.error (.execution _)) => true
  | _ => false

/-- Orphans are reaped before the host is answered so. -/
def Progress.Reaped : Progress → Prop
  | done e reply => reply.reaps → e.heap.orphans = []
  | _ => True

namespace Session

/-- A launcher goes on, or fails. -/
private lemma reaped_push (launcher : Activation) (below : Callers) (v : Value) (e : Engine)
    (failed : ∀ err e, (conclude below (.error err) e).Reaped) :
    Progress.Reaped (match Operand.pushValue launcher.fiber v e with
      | .ok _ e => .running (.run ⟨e, { launcher with next := launcher.pc + 1 }, below⟩)
      | .error fault e => fail launcher below fault e) := by
  split
  · exact trivial
  · exact failed _ _

/-- The failure of a launcher is one for those below it, so the answer is given at the bottom. -/
private lemma reaped_conclude (callers : Callers) (result : Except ExecutionError RunEnd)
    (e : Engine) :
    (conclude callers result e).Reaped := by
  induction callers generalizing result e with
  | launch f cell =>
    cases result with
    | error err => exact fun reaps => absurd reaps Bool.false_ne_true
    | ok how => exact fun _ => orphans_reap _
  | update id rest => cases result <;> exact trivial
  | resume => cases result <;> exact fun _ => orphans_reap _
  | nested cell launcher below ih =>
    cases result with
    | ok how => exact reaped_push launcher below _ _ fun err => ih (.error err)
    | error err => exact reaped_push launcher below _ _ fun err => ih (.error err)

private lemma reaped_start (f : FiberId) (depth pc : Nat) (callers : Callers) (e : Engine) :
    (start f depth pc callers e).Reaped := by
  unfold start
  split
  · exact trivial
  · exact reaped_conclude callers _ _

private lemma reaped_iterate (a : Activation) (callers : Callers) (l : Loop) (e : Engine) :
    (iterate a callers l e).Reaped := by
  unfold iterate
  split
  · exact trivial
  · exact reaped_conclude callers _ _

/-- An instruction leaves no orphans where it answers. -/
private lemma reaped_proceed (a : Activation) (callers : Callers) (op : Opcode) (e : Engine)
    (control : Control) : (proceed a callers op e control).Reaped := by
  cases control with
  | advance => exact trivial
  | jump address => exact trivial
  | enter address => exact trivial
  | loop elements exit => exact reaped_iterate _ _ _ _
  | endBody =>
    unfold proceed
    cases a.loops with
    | nil => exact reaped_conclude callers _ _
    | cons l loops => exact reaped_iterate _ _ _ _
  | finish how => exact reaped_conclude callers _ _
  | launch s => exact reaped_start _ _ _ _ _
  | await call => exact trivial

/-- Neither does a step. -/
private lemma reaped_step (s : Session) : s.step.Reaped := by
  cases fetched : s.current.fetch with
  | error fault =>
    rw [step_of_fetch_error fetched]
    exact reaped_conclude s.callers _ _
  | ok instruction =>
    obtain ⟨op, inline, budget⟩ := instruction
    rw [step_of_fetch fetched]
    split
    · exact reaped_conclude s.callers _ _
    · exact reaped_proceed _ _ _ _ _

private lemma reaped_answer (s : Session) (call : HostCall) (results : Except Fault (List Value)) :
    (s.answer call results).Reaped := by
  unfold answer
  dsimp only
  split
  · exact trivial
  · exact reaped_conclude s.callers _ _

private lemma reaped_fire (due : List ContinuationId) (e : Engine) : (fire due e).Reaped := by
  cases due with
  | nil => exact fun _ => orphans_reap e
  | cons id rest =>
    unfold fire
    dsimp only
    split
    · exact trivial
    · split
      · exact trivial
      · split <;> exact trivial

end Session

lemma Turn.reaped_next (t : Turn) : t.next.Reaped := by
  cases t with
  | run s => exact s.reaped_step
  | fire due e => exact Session.reaped_fire due e

/-- Neither does a request. -/
lemma Request.reaped_start (q : Request) (e : Engine) : (q.start e).Reaped := by
  cases q with
  | launch name =>
    change (e.launch name).Reaped
    unfold Engine.launch
    split
    · exact fun reaps => absurd reaps Bool.false_ne_true
    · exact Session.reaped_start _ _ _ _ _
  | update dt => exact trivial
  | resume f =>
    change (e.resume f).Reaped
    unfold Engine.resume
    split
    · exact fun reaps => absurd reaps Bool.false_ne_true
    · split
      · exact fun reaps => absurd reaps Bool.false_ne_true
      · exact Session.reaped_start _ _ _ _ _

namespace World

variable {c : Conduct} {source : String → Option Image} {config : Config} {w : World}

/-- A request of the host is answered next. -/
inductive Answers : World → Engine → Reply → Prop
  | request {e e' calls H reply} (q : Request) (done : q.start e = .done e' reply) :
      Answers (host e calls H) e' reply
  | answer {e e' : Engine} {call : HostCall} {s : Session} {calls : List (HostCall × Session)}
      {H : Multiset Ref} {reply : Reply} (results : Except Fault (List Value))
      (done : { s with engine := e }.answer call results = .done e' reply) :
    Answers (host e ((call, s) :: calls) H) e' reply
  | step {t : Turn} {e' calls H reply} (done : t.next = .done e' reply) :
      Answers (work t calls H) e' reply

/-- An answer is a move. -/
private lemma Answers.move {e' reply} (answered : w.Answers e' reply) :
    ∃ calls H, Move c w (host e' calls H) := by
  cases answered with
  | @request e _ calls H _ q done =>
    have move : Move c (host e calls H) (after calls H (q.start e)) := .request q
    rw [done] at move
    exact ⟨calls, H, move⟩
  | @answer e _ call s calls H _ results done =>
    have move : Move c (host e ((call, s) :: calls) H)
      (after calls H ({ s with engine := e }.answer call results)) := .answer call s results
    rw [done] at move
    exact ⟨calls, H, move⟩
  | @step t _ calls H _ done =>
    have move : Move c (work t calls H) (after calls H t.next) := .step t
    rw [done] at move
    exact ⟨calls, H, move⟩

/-- So there are no orphans after an answer that reaps. -/
private lemma Answers.orphans {e' reply} (answered : w.Answers e' reply) (reaps : reply.reaps) :
    e'.heap.orphans = [] := by
  cases answered with
  | @request e _ _ _ _ q done =>
    have reaped := q.reaped_start e
    rw [done] at reaped
    exact reaped reaps
  | @answer e _ call s _ _ _ results done =>
    have reaped := Session.reaped_answer { s with engine := e } call results
    rw [done] at reaped
    exact reaped reaps
  | @step t _ _ _ _ done =>
    have reaped := t.reaped_next
    rw [done] at reaped
    exact reaped reaps

/-- Whenever a request succeeds, and whenever the run of a resumed fiber fails, all orphans have
ended once the host is answered; so they have when continuations were cancelled. A fiber that cannot
be resumed and a continuation that cannot be cancelled leave the engine as it is. -/
theorem orphans_reaped (reached : Reachable c source config w) :
    (∀ e' reply, w.Answers e' reply → reply.reaps → e'.Reaped c) ∧
      ∀ e calls H, w = host e calls H →
        (∀ id e', e.cancel id = (.ok (), e') → e'.Reaped c) ∧
          (∀ id err e', e.cancel id = (.error err, e') → e' = e) ∧
            ∀ f err e', e.resume f = .done e' (.resumed (.error err)) →
              (Reply.resumed (.error err)).reaps ∨ e' = e := by
  refine ⟨fun e' reply answered reaps => ?_, ?_⟩
  · obtain ⟨calls, H, move⟩ := answered.move (c := c)
    have ok := Reachable.sound (reached.tail move)
    exact ok.1.reaped (answered.orphans reaps)
  · rintro e calls H rfl
    refine ⟨fun id e' cancelled => ?_, fun id err e' refused => ?_, fun f err e' refused => ?_⟩
    · have ok := (Engine.sound_cancel (Reachable.sound reached).1 id).1
      rw [cancelled] at ok
      refine ok.reaped ?_
      unfold Engine.cancel at cancelled
      split at cancelled
      · cases cancelled
      · cases cancelled
        exact orphans_reap _
    · unfold Engine.cancel at refused
      split at refused
      · cases refused
        rfl
      · cases refused
    · rcases e.resume_eq f with ⟨err', same⟩ | ⟨x, pc, -, -, started⟩
      · rw [same] at refused
        cases refused
        exact .inr rfl
      · rw [started] at refused
        unfold Session.start at refused
        split at refused
        · cases refused
        · cases refused
          exact .inl rfl

/-- The continuation of an idle fiber is cancelled. -/
theorem orphans_reaped_suspendedWithContinuation :
    ∃ e', suspendedWithContinuation.cancel ⟨0⟩ = (.ok (), e') ∧ e'.Reaped .owning := by
  have reached : Reachable .owning (fun _ => some gotoAfterSuspend) {}
      (host suspendedWithContinuation [] 0) := reachable_suspendedWithContinuation
  obtain ⟨cancelled, -⟩ := (orphans_reaped reached).2 suspendedWithContinuation [] 0 rfl
  have accepted : (suspendedWithContinuation.cancel ⟨0⟩).1.isOk := by decide +kernel
  cases done : suspendedWithContinuation.cancel ⟨0⟩ with
  | mk result e' =>
    cases result with
    | ok answer => exact ⟨e', rfl, cancelled ⟨0⟩ e' done⟩
    | error err =>
      rw [done] at accepted
      cases accepted

/-! ## A launch that fails -/

/-- A machine that does nothing. -/
def emptyMachine : Image where
  name := "child"
  words := #[.plain .endState]
  states := [⟨0, 0⟩]
  locals := []
  shared := []
  strings := ⟨#[99, 104, 105, 108, 100, 0], #[0]⟩

/-- A machine that launches the other one, keeps it in a variable, and fails. -/
def launchAndFail : Image where
  name := "parent"
  words := #[.plain .paramsStart, .plain .paramsEnd, .plain .pushString, .plain .launch,
    .plain .pushString, .plain .setSelf, .plain .pop, .plain .endState]
  states := [⟨0, 0⟩]
  locals := [⟨0, 1⟩]
  shared := []
  strings := ⟨#[99, 104, 105, 108, 100, 0, 102, 105, 98, 101, 114, 0], #[0, 6]⟩

/-- The images of both machines. -/
def deserters (name : String) : Option Image :=
  some (if name = "child" then emptyMachine else launchAndFail)

/-- Whether a launch has failed and left behind a fiber whose cell has lost its last strong
reference. -/
def strands (f : FiberId) : Progress → Bool
  | .done e (.launched (.error _)) =>
    (e.fiber? f).any fun x => x.cell.any fun r => decide (f ∈ e.heap.orphans ∧ e.heap.strong r = 0)
  | _ => false

/-- What the test of a stranded fiber means. -/
private lemma of_strands {f p} (left : strands f p) :
    ∃ e err x r, p = .done e (.launched (.error err)) ∧ e.fiber? f = some x ∧ x.cell = some r ∧
      f ∈ e.heap.orphans ∧ e.heap.strong r = 0 := by
  unfold strands at left
  split at left
  case h_1 e err =>
    obtain ⟨x, present, left⟩ := (Option.any_eq_true _ _).1 left
    obtain ⟨r, cell, left⟩ := (Option.any_eq_true _ _).1 left
    exact ⟨e, err, x, r, rfl, present, cell, of_decide_eq_true left⟩
  case h_2 => cases left

/-- A launch fails, and the fiber that was launched from it stays behind although nothing refers to
it. -/
theorem orphan_of_failed_launch :
    ∃ e err x r, ((create deserters {}).launch "parent").run 9 = .done e (.launched (.error err)) ∧
      e.fiber? ⟨1⟩ = some x ∧ x.cell = some r ∧ ⟨1⟩ ∈ e.heap.orphans ∧ e.heap.strong r = 0 := by
  apply of_strands
  decide +kernel

end World

end FiberVM
