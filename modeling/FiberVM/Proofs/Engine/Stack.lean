import FiberVM.Proofs.Engine.Execution
import FiberVM.Proofs.Engine.Session

/-!
# Stacks of runs

A session is a stack of runs. The one on top executes an instruction (`Session.Goes`): it goes on
itself, or another run begins above it, or it ends and the session goes on below (`Unwinds`). There
a run that waits goes on with the instruction after the launch, or it fails in turn; at the bottom
an update goes on with the continuations that are left, or the host is answered.
-/

namespace FiberVM

open Engine

variable {P : Permit} {e e' e'' : Engine} {a a' : Activation} {callers : Callers} {p : Progress}
  {op : Opcode} {id : ContinuationId}

namespace Activation

/-! ## Beginnings, loops and ends -/

/-- A run that has just begun at an address. -/
structure Fresh (start : Nat) (a : Activation) : Prop where
  pc : a.pc = start
  next : a.next = start
  loops : a.loops = []

/-- A run at a depth, with the whole budget that the configuration allows. -/
structure Endowed (depth : Nat) (config : Config) (a : Activation) : Prop where
  base : a.base = depth
  budget : a.budget = config.stepBudget

/-- A run begins fresh and with its budget. -/
lemma does_begin (fiber : FiberId) (continuation : Option ContinuationId) (depth start : Nat) :
    Does P (fun _ => True) (begin fiber continuation depth start) fun a e =>
      a.Fresh start ∧ a.Endowed depth e.config := by
  refine Makes.bind (.of_does (does_fiber fiber)) fun f => ?_
  refine Makes.bind (.of_does (does_orFault rfl)) fun cell => ?_
  refine (makes_onHeap (Heap.tame_retain cell)).bind fun _ => ?_
  refine ((makes_onHeap (Heap.tame_retainAll [] f.arguments)).onFault (aside_release cell)).bind
    fun _ => ?_
  refine Triple.get.bind fun seen => .pure fun e same => ?_
  exact ⟨⟨rfl, rfl, rfl⟩, rfl, congrArg (·.config.stepBudget) same.2⟩

/-- A run of a fiber that exists, with the image of that fiber. -/
def Portrays (a : Activation) (e : Engine) : Prop :=
  ∃ x, e.fiber? a.fiber = some x ∧ x.image = a.image

lemma portrays_of_begin {fiber continuation depth start}
    (begun : begin fiber continuation depth start e = .ok a e') : a.Portrays e' := by
  obtain ⟨x, found, rfl, -, -, same, image⟩ := begin_ok begun
  refine ⟨x, ?_, image.symm⟩
  rw [fiber?, same]
  exact found

/-- A run that goes on after an instruction. It is in a loop more than before only where there is
room for it. -/
structure GoesOn (a : Activation) (op : Opcode) (config : Config) (a' : Activation) : Prop where
  image : a'.image = a.image
  fiber : a'.fiber = a.fiber
  base : a'.base = a.base
  budget : a'.budget = a.budget
  next : a.Leads op a'.next
  loops : ∀ l ∈ a'.loops, a.Leads op l.body ∧ a.Leads op l.exit
  depth : a'.depth ≤ a.depth ∨ a'.depth ≤ config.maxDepth

/-- The loops that are being run lead where they led. -/
lemma leads_loops (a : Activation) (op : Opcode) :
    ∀ l ∈ a.loops, a.Leads op l.body ∧ a.Leads op l.exit :=
  fun _ inside => ⟨.body inside, .exit inside⟩

lemma goesOn_of_next {address config} (leads : a.Leads op address) :
    a.GoesOn op config { a with next := address } :=
  ⟨rfl, rfl, rfl, rfl, leads, a.leads_loops op, .inl le_rfl⟩

/-- Going on with the next element of a loop, inside the loops around it, leads to the body or past
it. -/
lemma does_iterate (frame : List Ref) {l : Loop} {loops} (around : loops <:+ a.loops)
    (body : a.Leads op l.body) (exit : a.Leads op l.exit) :
    Does P (fun _ => True) ({ a with frame, loops }.iterate l) fun a' e =>
      a.GoesOn op e.config a' := by
  have within : ∀ l ∈ loops, a.Leads op l.body ∧ a.Leads op l.exit :=
    fun l inside => a.leads_loops op l (around.subset inside)
  have past : ∀ config, a.GoesOn op config { a with frame, loops, next := l.exit } :=
    fun _ => ⟨rfl, rfl, rfl, rfl, exit, within, .inl (Nat.add_le_add_left around.length_le a.base)⟩
  have enter : ∀ (r : Ref) (rest : Generator), Does P (fun _ => True) (do
      if (← get).config.maxDepth ≤ { a with frame, loops }.depth then
        modify fun e => (e.release r).releaseAll rest.refs
        throw .stackOverflow
      return { a with frame := [r], loops := { l with rest } :: loops, next := l.body })
      fun a' e => a.GoesOn op e.config a' := by
    intro r rest
    refine Triple.get.bind fun seen => ?_
    split
    case isTrue =>
      refine Triple.bind (Q := fun _ _ => True) ?_ fun _ => makes_throw rfl
      have given : Aside fun e => (e.release r).releaseAll rest.refs :=
        (aside_release r).comp (aside_releaseAll _)
      exact .modify fun e _ => ⟨given.changes e, trivial⟩
    case isFalse room =>
      refine .pure fun e same => ⟨rfl, rfl, rfl, rfl, body, fun l' inside => ?_, .inr ?_⟩
      · rcases List.mem_cons.1 inside with rfl | inside
        · exact ⟨body, exit⟩
        · exact within l' inside
      · rw [← same.2]
        exact Nat.lt_of_not_le room
  unfold iterate
  dsimp only
  split
  case h_1 => exact .pure fun e _ => past e.config
  case h_2 r refs _ => exact enter r (.elements refs)
  case h_3 n limit _ =>
    split
    · exact (makes_onHeap (Heap.tame_allocTemporary _)).bind fun r => enter r _
    · exact .pure fun e _ => past e.config

lemma aside_unwindLoops (loops : List Loop) (frame : List Ref) :
    Aside fun e => (unwindLoops loops frame e).2 := by
  induction loops generalizing frame with
  | nil => exact fun e => .refl e
  | cons l loops ih =>
    have given : Aside fun e => (e.releaseAll frame).releaseAll l.rest.refs :=
      (aside_releaseAll frame).comp (aside_releaseAll _)
    exact given.comp (ih l.outer)

lemma changes_finish (a : Activation) (e : Engine) : Changes P e (a.finish e) := by
  have unwound := aside_unwindLoops a.loops a.frame e
  exact ((unwound.trans (aside_releaseAll _ _)).trans (aside_release a.cell _)).changes

end Activation

/-! ## Unwinding -/

/-- A continuation may be settled while changes are made. -/
def Settles (P : Permit) (id : ContinuationId) (e e' : Engine) : Prop :=
  Changes P e e' ∨ ∃ e₁, Changes P e e₁ ∧ Changes P (Session.settle id e₁) e'

lemma Settles.trans (changes : Changes P e e') (settles : Settles P id e' e'') :
    Settles P id e e'' := by
  rcases settles with more | ⟨e₁, before, after⟩
  · exact .inl (changes.trans more)
  · exact .inr ⟨e₁, changes.trans before, after⟩

lemma Settles.config (settles : Settles P id e e') : e'.config = e.config := by
  rcases settles with changes | ⟨e₁, before, after⟩
  · exact changes.config
  · have settled : (Session.settle id e₁).config = e₁.config := by
      unfold Session.settle
      split <;> rfl
    rw [after.config, settled, before.config]

/-- What callers come to once the run above them has ended. -/
inductive Unwinds (P : Permit) (e : Engine) : Callers → Progress → Prop
  | answer {callers : Callers} {e' reply} (bottom : callers.firing? = none)
      (changes : Changes P e e') : Unwinds P e callers (.done e' reply)
  | fire {id rest e'} (settles : Settles P id e e') :
    Unwinds P e (.update id rest) (.running (.fire rest e'))
  | resume {cell launcher below} {e'} (changes : Changes P e e') :
    Unwinds P e (.nested cell launcher below)
      (.running (.run ⟨e', { launcher with next := launcher.pc + 1 }, below⟩))
  /-- A run that has waited fails as well. -/
  | fail {cell launcher} {below p} (unwinds : Unwinds P e below p) :
    Unwinds P e (.nested cell launcher below) p

lemma Unwinds.trans (changes : Changes P e e') (unwinds : Unwinds P e' callers p) :
    Unwinds P e callers p := by
  induction unwinds with
  | answer bottom more => exact .answer bottom (changes.trans more)
  | fire settles => exact .fire (settles.trans changes)
  | resume more => exact .resume (changes.trans more)
  | fail _ ih => exact .fail ih

namespace Session

/-- The host is answered once the fiber that it has launched is a root, or has ended. -/
lemma changes_answerLaunch (fiber : FiberId) (cell : Ref) (e : Engine) :
    Changes P e (answerLaunch fiber cell e).engine := by
  unfold answerLaunch
  dsimp only
  split
  case h_1 x found =>
    have issued : fiber.id < e.fibers.next := lt_next_of_isSome (found ▸ rfl)
    have rooted : Changes P e
        { e with roots := e.roots.insert fiber cell, main := e.main <|> some fiber } := by
      refine .single (.aside ⟨rfl, rfl, rfl, rfl, rfl, rfl, rfl, fun rooted f named => ?_⟩)
      by_cases same : f = fiber
      · exact same ▸ issued
      · refine rooted f (named.imp (fun root => ?_) fun main => ?_)
        · change ((e.roots.insert fiber cell).find? f).isSome at root
          rwa [Table.find?_insert, if_neg same] at root
        · change (e.main <|> some fiber) = some f at main
          cases first : e.main with
          | some g =>
            rw [first] at main
            exact main
          | none =>
            rw [first] at main
            cases main
            exact absurd rfl same
    exact rooted.trans (changes_reap _)
  case h_2 => exact ((aside_release cell).changes e).trans (changes_reap _)

/-- A launcher gets a value for the fiber that it has launched, or fails because there is no room
for it. -/
private lemma unwinds_push (cell : Ref) (launcher : Activation) {below} (v : Value)
    (begun : Changes P e e') (unwinds : ∀ result e, Unwinds P e below (conclude below result e)) :
    Unwinds P e (.nested cell launcher below)
      (match Operand.pushValue launcher.fiber v e' with
      | .ok _ e => .running (.run ⟨e, { launcher with next := launcher.pc + 1 }, below⟩)
      | .error fault e =>
        conclude below (.error ((launcher.finish e).recordFault launcher.fiber launcher.pc fault).1)
          ((launcher.finish e).recordFault launcher.fiber launcher.pc fault).2) := by
  have made := Operand.makes_pushValue (P := P) launcher.fiber v e' trivial
  split
  case h_1 e₁ run =>
    rw [run] at made
    exact .resume (begun.trans made.1)
  case h_2 fault e₁ run =>
    rw [run] at made
    have failed := (begun.trans made.1).trans (launcher.changes_finish e₁)
    exact .fail (.trans (failed.trans (changes_recordFault _ _ _ fault)) (unwinds _ _))

/-- Callers unwind whether the run above them has failed or not. -/
lemma unwinds_conclude (callers : Callers) (result : Except ExecutionError RunEnd) (e : Engine) :
    Unwinds P e callers (conclude callers result e) := by
  induction callers generalizing result e with
  | launch fiber cell =>
    cases result with
    | error err => exact .answer rfl ((aside_release cell).changes e)
    | ok how => exact .answer rfl (changes_answerLaunch fiber cell e)
  | update id rest =>
    cases result with
    | error err => exact .fire (.inl (changes_reap e))
    | ok how => exact .fire (.inr ⟨e, .refl, changes_reap _⟩)
  | resume =>
    cases result with
    | error err => exact .answer rfl (changes_reap e)
    | ok how => exact .answer rfl (changes_reap e)
  | nested cell launcher below ih =>
    cases result with
    | ok how => exact unwinds_push cell launcher _ .refl ih
    | error err => exact unwinds_push cell launcher _ ((aside_release cell).changes e) ih

lemma unwinds_fail (a : Activation) (callers : Callers) (fault : Fault) (e : Engine) :
    Unwinds P e callers (fail a callers fault e) :=
  .trans ((a.changes_finish e).trans (changes_recordFault _ _ _ fault))
    (unwinds_conclude callers _ _)

lemma unwinds_finish (a : Activation) (callers : Callers) (how : RunEnd) (e : Engine) :
    Unwinds P e callers (finish a callers how e) :=
  .trans (a.changes_finish e) (unwinds_conclude callers _ _)

/-! ## Steps -/

/-- What a session comes to after an instruction of the run on top. -/
inductive Goes (P : Permit) (a : Activation) (op : Opcode) (callers : Callers) (e : Engine) :
    Progress → Prop
  | on {a' : Activation} {e' : Engine} (goesOn : a.GoesOn op e'.config a')
      (changes : Changes P e e') :
    Goes P a op callers e (.running (.run ⟨e', a', callers⟩))
  | launch {b : Activation} {cell} {start} {e' : Engine} (fresh : b.Fresh start)
      (endowed : b.Endowed (a.depth + 1) e'.config) (room : a.depth < e'.config.maxDepth)
      (width : op.width = 1) (changes : Changes P e e') (own : b.Portrays e') :
    Goes P a op callers e (.running (.run ⟨e', b, .nested cell a callers⟩))
  /-- A run that was launched fails to begin. -/
  | back {cell p} (width : op.width = 1) (unwinds : Unwinds P e (.nested cell a callers) p) :
    Goes P a op callers e p
  | await {call} {e'} (width : op.width = 1) (changes : Changes P e e') :
    Goes P a op callers e (.awaiting call ⟨e', a, callers⟩)
  | unwind {p : Progress} (unwinds : Unwinds P e callers p) : Goes P a op callers e p

lemma Goes.trans (changes : Changes P e e') (goes : Goes P a op callers e' p) :
    Goes P a op callers e p := by
  cases goes with
  | on goesOn more => exact .on goesOn (changes.trans more)
  | launch fresh endowed room width more own =>
    exact .launch fresh endowed room width (changes.trans more) own
  | back width unwinds => exact .back width (unwinds.trans changes)
  | await width more => exact .await width (changes.trans more)
  | unwind unwinds => exact .unwind (unwinds.trans changes)

/-- A run begins, or what is below it unwinds. -/
lemma start_cases (fiber : FiberId) (depth pc : Nat) (callers : Callers) (e : Engine) :
    (∃ a e', start fiber depth pc callers e = .running (.run ⟨e', a, callers⟩) ∧
        (a.Fresh pc ∧ a.Endowed depth e'.config ∧ a.Portrays e') ∧ Changes P e e') ∨
      Unwinds P e callers (start fiber depth pc callers e) := by
  have begun := Activation.does_begin (P := P) fiber none depth pc e trivial
  unfold start
  cases run : Activation.begin fiber none depth pc e with
  | ok a e' =>
    rw [run] at begun
    exact .inl ⟨a, e', rfl, ⟨begun.2.1, begun.2.2, Activation.portrays_of_begin run⟩, begun.1⟩
  | error fault e' =>
    rw [run] at begun
    exact .inr (.trans (begun.1.trans (changes_recordFault e' fiber pc fault))
      (unwinds_conclude callers _ _))

/-- A run goes on with the next element of a loop, or fails. -/
lemma goes_iterate (frame : List Ref) {l : Loop} {loops : List Loop} (around : loops <:+ a.loops)
    (body : a.Leads op l.body) (exit : a.Leads op l.exit) (callers : Callers) (e : Engine) :
    Goes P a op callers e (iterate { a with frame, loops } callers l e) := by
  have iterated := Activation.does_iterate (P := P) frame around body exit e trivial
  unfold iterate
  cases run : { a with frame, loops }.iterate l e with
  | ok a' e' =>
    rw [run] at iterated
    exact .on iterated.2 iterated.1
  | error fault e' =>
    rw [run] at iterated
    exact .unwind (.trans iterated.1 (unwinds_fail _ callers fault e'))

/-- A session goes on as an instruction says. -/
lemma goes_proceed {control : Control} (callers : Callers) (e : Engine)
    (directs : a.Directs op e.config control) :
    Goes P a op callers e (proceed a callers op e control) := by
  cases control with
  | advance => exact .on (Activation.goesOn_of_next .next) .refl
  | jump address => exact .on (Activation.goesOn_of_next directs) .refl
  | enter address =>
    refine .on ⟨rfl, rfl, rfl, rfl, directs.2, fun l inside => absurd inside List.not_mem_nil,
      .inl ?_⟩ ((Activation.aside_unwindLoops a.loops a.frame).changes e)
    exact Nat.le_add_right a.base a.loops.length
  | loop elements exit =>
    obtain ⟨rfl, past⟩ := directs
    exact goes_iterate a.frame List.suffix_rfl (Activation.leads_of_width rfl) past callers e
  | endBody =>
    unfold proceed
    cases inside : a.loops with
    | nil => exact .unwind (unwinds_finish a callers .bodyEnd e)
    | cons l loops =>
      have around : l :: loops <:+ a.loops := inside ▸ List.suffix_rfl
      obtain ⟨body, exit⟩ := a.leads_loops op l (around.subset List.mem_cons_self)
      refine .trans ((aside_releaseAll a.frame).changes e) ?_
      exact goes_iterate l.outer ((List.suffix_cons l loops).trans around) body exit callers _
  | finish how => exact .unwind (unwinds_finish a callers how e)
  | launch s =>
    obtain ⟨rfl, room⟩ := directs
    rcases start_cases (P := P) s.fiber (a.depth + 1) s.entry (.nested s.cell a callers) e with
      ⟨b, e', started, ⟨fresh, endowed, own⟩, changes⟩ | unwinds
    · rw [proceed, started]
      exact .launch fresh endowed (changes.config ▸ room) rfl changes own
    · exact .back rfl unwinds
  | await call => exact .await directs .refl

/-- An instruction that cannot be fetched ends the run. -/
lemma unwinds_step {s : Session} {fault} (failed : s.current.fetch = .error fault) :
    Unwinds P s.engine s.callers s.step := by
  rw [step_of_fetch_error failed]
  exact unwinds_fail _ _ _ _

/-- A session goes on as the instruction that is fetched says, or the run fails. What changes may be
said from any engine on through which the instruction goes. -/
lemma goes_of_executed {s : Session} {inline : Nat} {budget : Option Nat}
    (fetched : s.current.fetch = .ok (op, inline, budget))
    (executed : Outcome (Changes P) ((s.executing budget).Fails op)
      (fun control e => (s.executing budget).Directs op e.config control) (fun _ => True) e
      ((s.executing budget).execute op inline s.engine)) :
    Goes P (s.executing budget) op s.callers e s.step := by
  rw [step_of_fetch fetched]
  cases run : (s.executing budget).execute op inline s.engine with
  | error fault e' =>
    rw [run] at executed
    exact .unwind (.trans executed.1 (unwinds_fail _ _ fault e'))
  | ok control e' =>
    rw [run] at executed
    exact .trans executed.1 (goes_proceed s.callers e' executed.2)

lemma goes_step {s : Session} {inline : Nat} {budget : Option Nat}
    (fetched : s.current.fetch = .ok (op, inline, budget))
    (permitted : (s.executing budget).Permitted P op inline) :
    Goes P (s.executing budget) op s.callers s.engine s.step :=
  goes_of_executed fetched (Activation.executes permitted s.engine trivial)

/-- A session goes on after a call as it does after a launch. -/
private lemma unwinds_finishCall (s : Session) (cell : Ref)
    (result : EStateM.Result Fault Engine Unit) :
    Outcome (Changes P) (fun _ => True) (fun _ _ => True) (fun _ => True) s.engine result →
    Unwinds P s.engine (.nested cell s.current s.callers) (match result with
      | .ok _ e => .running (.run ⟨e, { s.current with next := s.current.pc + 1 }, s.callers⟩)
      | .error fault e => fail s.current s.callers fault e) := by
  intro finished
  cases result with
  | ok x e => exact .resume finished.1
  | error fault e => exact .fail (.trans finished.1 (unwinds_fail s.current s.callers fault e))

/-- What the host returns is checked. Only the host can say that execution has gone astray. -/
lemma makes_checkResults (call : HostCall) (results : Except Fault (List Value)) :
    Triple (Changes P) (fun fault => fault.isAstray → results = .error fault) (fun _ => True)
      (match results with
      | .error fault => throw fault
      | .ok results => EngineM.onHeap (call.native.checkResults results))
      (fun _ _ => True) fun _ => True := by
  cases results with
  | error fault => exact .throw (fun _ => rfl) fun _ _ => trivial
  | ok results =>
    refine (makes_onHeap (call.native.tame_checkResults results)).allow fun fault tame astray => ?_
    cases tame.symm.trans astray

lemma unwinds_answer (s : Session) (e : Engine) (call : HostCall)
    (results : Except Fault (List Value)) :
    Unwinds P e (.nested s.current.cell s.current s.callers)
      ({ s with engine := e }.answer call results) := by
  have checked := (makes_checkResults (P := P) call results).allow fun _ _ => trivial
  exact unwinds_finishCall { s with engine := e } s.current.cell _
    (Activation.makes_finishCall call.fiber call.receiver call.args
      (fun _ _ => trivial) checked e trivial)

end Session

end FiberVM
