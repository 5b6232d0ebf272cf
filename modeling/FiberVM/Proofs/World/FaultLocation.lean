import FiberVM.Proofs.World.Limits
import FiberVM.Proofs.World.Runs

/-!
# Where faults are located

Each loop of a run belongs to a loop instruction of its image (`Loop.BelongsTo`), a run that waits
for a fiber waits at a launch, and one that waits for the host waits at a call (`World.Anchored`).
So for each fault of a run that has begun there is an instruction that raises it. The address that
is recorded is the one of that instruction, but for one case: a loop instruction that cannot go on
with its next element after a body is blamed on the end of the body (`World.faults_located`).
-/

namespace FiberVM

open Engine

variable {c : Conduct} {source : String → Option Image} {config : Config} {P : Permit}
  {e e' : Engine} {a x : Activation} {callers : Callers} {p : Progress} {s : Session} {w w' : World}
  {calls : List (HostCall × Session)} {H : Multiset Ref} {y z : Failure} {l : Loop} {address : Nat}
  {op : Opcode} {inline : Nat} {budget : Option Nat}

/-- The operation of the instruction at an address. -/
def Image.opcodeAt? (i : Image) (address : Nat) : Option Opcode :=
  i.words[address]?.bind Word.opcode?

/-- A loop belongs to the loop instruction at an address: the body is behind the instruction, and
the operand word says where the loop is left. -/
structure Loop.BelongsTo (l : Loop) (i : Image) (address : Nat) : Prop where
  opcode : i.opcodeAt? address = some .forEach
  body : l.body = address + 2
  exit : i.words[address + 1]?.map (·.toNat) = some l.exit

namespace Activation

/-- The instruction that is fetched is the one at which the run goes on. -/
lemma opcodeAt?_of_fetch (fetched : a.fetch = .ok (op, inline, budget)) :
    a.image.opcodeAt? a.next = some op := by
  unfold fetch at fetched
  rw [Image.opcodeAt?]
  split at fetched
  case h_1 => cases fetched
  case h_2 word found =>
    rw [found, Option.bind_some]
    split at fetched
    case h_1 => cases fetched
    case h_2 op' known =>
      rw [known]
      split at fetched <;> cases fetched <;> rfl

/-- Each loop of a run belongs to a loop instruction. -/
def Anchored (a : Activation) : Prop := ∀ l ∈ a.loops, ∃ address, l.BelongsTo a.image address

/-- A loop goes on as the loop that it was. -/
lemma Iterates.anchored (iterates : a.Iterates l e (.ok x e')) (anchored : a.Anchored)
    (belongs : l.BelongsTo a.image address) : x.Anchored := by
  cases iterates with
  | past => exact anchored
  | @body r rest _ yields =>
    intro l' inside
    rcases List.mem_cons.1 inside with rfl | inside
    · exact ⟨address, belongs.opcode, belongs.body, belongs.exit⟩
    · exact anchored l' inside

lemma anchored_of_loops (outside : a.loops = []) : a.Anchored := by
  intro l inside
  rw [outside] at inside
  cases inside

/-! ## Calls of the host -/

/-- The host is not called. -/
private def Alone (m : EngineM Control) : Prop := ∀ e call e', m e ≠ .ok (.await call) e'

private lemma Alone.bind {α : Type} {m} {k : α → EngineM Control} (next : ∀ x, Alone (k x)) :
    Alone (m >>= k) := by
  intro e call e' executed
  obtain ⟨x, e₁, -, returned⟩ := ok_of_bind executed
  exact next x e₁ call e' returned

private lemma Alone.pure {control} (other : ∀ call, control ≠ .await call) :
    Alone (Pure.pure control) := by
  intro e call e' returned
  cases returned
  exact other call rfl

private lemma Alone.ite {P : Prop} [Decidable P] {m m'} (yes : Alone m) (no : Alone m') :
    Alone (if P then m else m') := by
  split
  · exact yes
  · exact no

private lemma alone_throw {fault} : Alone (throw fault) := by
  intro e call e' returned
  cases returned

private lemma alone_advance {m} : Alone (do m; return .advance) :=
  .bind fun _ => .pure fun _ => Control.noConfusion

/-- Only calls are left to the host. -/
lemma call_of_await {call} (executed : a.execute op inline e = .ok (.await call) e') :
    op = .call ∨ op = .callDynamic := by
  by_contra other
  refine absurd executed ?_
  suffices alone : Alone (a.execute op inline) from alone e call e'
  cases op with
  | call => exact absurd (.inl rfl) other
  | callDynamic => exact absurd (.inr rfl) other
  | nop => exact .pure fun _ => Control.noConfusion
  | pushInt | pushReal | pushString | pop | getFrame => exact .bind fun _ => alone_advance
  | gotoState | goto | launch => exact .bind fun _ => .pure fun _ => Control.noConfusion
  | forEach => exact .bind fun _ => .bind fun _ => .pure fun _ => Control.noConfusion
  | ifEqual | ifZero | ifNonzero | ifNegative | ifPositive | ifAtMostZero | ifAtLeastZero =>
    exact .bind fun _ =>
      .ite (.pure fun _ => Control.noConfusion) (.pure fun _ => Control.noConfusion)
  | on => exact .bind fun _ => .bind fun _ => alone_advance
  | wait =>
    exact .ite alone_throw (.bind fun _ => .bind fun _ => .pure fun _ => Control.noConfusion)
  | suspend => exact .ite alone_throw (.bind fun _ => .pure fun _ => Control.noConfusion)
  | endState | endBody => exact .pure fun _ => Control.noConfusion
  | _ => exact alone_advance

end Activation

/-! ## Runs wait at launches and calls -/

/-- Runs that wait for fibers that they have launched wait at launches. -/
def Callers.Anchored : Callers → Prop
  | nested _ launcher below =>
    (launcher.Anchored ∧ launcher.image.opcodeAt? launcher.pc = some .launch) ∧ below.Anchored
  | _ => True

lemma Callers.nested_ne (cell : Ref) (launcher : Activation) (below : Callers) :
    nested cell launcher below ≠ below := by
  intro same
  cases same

/-- The run on top of a session waits for the host, at a call. -/
structure Session.Calling (s : Session) : Prop where
  current : s.current.Anchored
  callers : s.callers.Anchored
  opcode : s.current.image.opcodeAt? s.current.pc = some .call ∨
    s.current.image.opcodeAt? s.current.pc = some .callDynamic

def Progress.Anchored : Progress → Prop
  | running (.run s) => s.current.Anchored ∧ s.callers.Anchored
  | running (.fire ..) => True
  | awaiting _ s => s.Calling
  | done .. => True

/-- Once a run has ended, those below it wait where they have waited. -/
lemma Unwinds.anchored (unwinds : Unwinds P e callers p) (anchored : callers.Anchored) :
    p.Anchored := by
  induction unwinds with
  | answer => exact trivial
  | fire => exact trivial
  | resume => exact ⟨anchored.1.1, anchored.2⟩
  | fail _ ih => exact ih anchored.2

namespace Session

/-- A request begins outside of loops. -/
lemma Opens.anchored (opens : Session.Opens config p) : p.Anchored := by
  cases opens with
  | @run e a callers bottom loops =>
    refine ⟨Activation.anchored_of_loops loops, ?_⟩
    cases callers with
    | nested => exact bottom.elim
    | _ => exact trivial
  | none empty =>
    cases p with
    | running t =>
      cases t with
      | run s => cases empty
      | fire => exact trivial
    | awaiting => cases empty
    | done => exact trivial

/-- A run that launches a fiber waits at the launch. -/
private lemma anchored_launcher (current : s.current.Anchored) (callers : s.callers.Anchored) {cell}
    (fetched : s.current.fetch = .ok (.launch, inline, budget)) :
    (Callers.nested cell (s.executing budget) s.callers).Anchored :=
  ⟨⟨current, Activation.opcodeAt?_of_fetch (a := s.current) fetched⟩, callers⟩

/-- What is below a run that fails waits where it has waited. -/
private lemma Faults.anchored (faults : s.Faults z) (current : s.current.Anchored)
    (callers : s.callers.Anchored) :
    z.callers.Anchored := by
  cases faults with
  | fetch | execute | loop | body => exact callers
  | begin fetched executed =>
    obtain ⟨rfl, -⟩ := Activation.directs_of_ok executed
    exact anchored_launcher current callers fetched
  | ended fetched executed ends below =>
    rw [below] at callers
    exact callers.2

/-- Where the run on top fails, it fails at the instruction at which it goes on. -/
lemma Faults.own (faults : s.Faults z) (own : z.callers = s.callers) :
    z.fiber = s.current.fiber ∧ z.pc = s.current.next := by
  cases faults with
  | fetch | execute | loop | body => exact ⟨rfl, rfl⟩
  | begin => exact absurd own (Callers.nested_ne _ _ _)
  | ended fetched executed ends callers =>
    exact absurd (callers.symm.trans own.symm) (Callers.nested_ne _ _ _)

/-- Where the run below the one on top fails, it fails at the instruction at which it waits. -/
lemma Faults.launched {cell launcher} (faults : s.Faults z)
    (callers : s.callers = .nested cell launcher z.callers) :
    z.fiber = launcher.fiber ∧ z.pc = launcher.pc := by
  cases faults with
  | fetch | execute | loop | body => exact absurd callers.symm (Callers.nested_ne _ _ _)
  | begin =>
    have deeper := congrArg (·.activations.length) callers
    simp only [Callers.activations, List.length_cons] at deeper
    omega
  | ended fetched executed ends callers' =>
    cases callers.symm.trans callers'
    exact ⟨rfl, rfl⟩

/-- A loop that begins belongs to the instruction with which it begins. -/
lemma belongsTo_of_forEach {exit elements}
    (fetched : s.current.fetch = .ok (.forEach, inline, budget))
    (executed : (s.executing budget).execute .forEach inline s.engine =
      .ok (.loop elements exit) e) :
    Loop.BelongsTo ⟨elements, s.current.frame, s.current.next + 2, exit⟩ s.current.image
      s.current.next := by
  refine ⟨Activation.opcodeAt?_of_fetch fetched, rfl, ?_⟩
  obtain ⟨v, elements', exit', same, loopsOver⟩ := Activation.loopsOver_of_forEach executed
  cases same
  cases loopsOver with
  | intro found top holds generates operand =>
    rw [show s.current.image.words[s.current.next + 1]? = some _ from operand]
    rfl

/-- A step leaves all runs where they can wait. -/
lemma anchored_step (current : s.current.Anchored) (callers : s.callers.Anchored) :
    s.step.Anchored := by
  generalize stepped : s.step = p
  cases show s.Steps p from stepped ▸ s.steps with
  | on => exact ⟨current, callers⟩
  | enter => exact ⟨Activation.anchored_of_loops rfl, callers⟩
  | @loop inline exit budget elements e e' x fetched executed iterated =>
    have iterates := (s.executing budget).iterates ⟨elements, s.current.frame, s.current.next + 2,
      exit⟩ e
    rw [iterated] at iterates
    exact ⟨iterates.anchored current (belongsTo_of_forEach fetched executed), callers⟩
  | @again inline budget l loops e x fetched inside iterated =>
    have iterates := { s.executing budget with frame := l.outer, loops }.iterates l
      (s.engine.releaseAll s.current.frame)
    rw [iterated] at iterates
    obtain ⟨address, belongs⟩ := current l (inside ▸ List.mem_cons_self)
    have outside : ({ s.executing budget with frame := l.outer, loops } : Activation).Anchored :=
      fun l' member => current l' (inside ▸ List.mem_cons_of_mem l member)
    exact ⟨iterates.anchored outside belongs, callers⟩
  | launch fetched executed begun =>
    obtain ⟨x, -, -, -, loops, -⟩ := Activation.begin_ok begun
    exact ⟨Activation.anchored_of_loops loops, anchored_launcher current callers fetched⟩
  | @await op inline budget call e fetched other executed =>
    have fetched' := Activation.opcodeAt?_of_fetch fetched
    rcases Activation.call_of_await executed with rfl | rfl
    · exact ⟨current, callers, .inl fetched'⟩
    · exact ⟨current, callers, .inr fetched'⟩
  | finish => exact (unwinds_finish (P := .nothing) _ _ _ _).anchored callers
  | fault faults =>
    exact (unwinds_conclude (P := .nothing) _ _ _).anchored (faults.anchored current callers)

end Session

/-- A fault is recorded after those that were recorded before. -/
lemma Failure.faults_recorded (z : Failure) :
    z.recorded.faults = z.engine.faults.push (z.engine.recordFault z.fiber z.pc z.fault).1 := by
  have kept : ∀ e : Engine, (e.teardown z.fiber).faults = e.faults := by
    intro e
    cases present : e.fiber? z.fiber with
    | none => rw [teardown_of_none present]
    | some x => rw [teardown_eq present]
  exact kept _

namespace World

/-- All runs wait at launches and calls, and all their loops belong to loop instructions. -/
def Anchored : World → Prop
  | host _ calls _ => ∀ x ∈ calls, x.2.Calling
  | work t calls _ => (Progress.running t).Anchored ∧ ∀ x ∈ calls, x.2.Calling

/-- Sessions that wait for the host are at calls. -/
private lemma anchored_after (anchored : p.Anchored) (calling : ∀ x ∈ calls, x.2.Calling) :
    (after calls H p).Anchored := by
  cases p with
  | running t => exact ⟨anchored, calling⟩
  | done => exact calling
  | awaiting call s =>
    intro x member
    rcases List.mem_cons.1 member with rfl | member
    · exact anchored
    · exact calling x member

/-- So does every move. -/
lemma Move.anchored (move : Move c w w') (anchored : w.Anchored) : w'.Anchored := by
  cases move with
  | act => exact anchored
  | @request e H calls q => exact anchored_after (q.opens e).anchored anchored
  | @answer e H calls call s results =>
    have calling : s.Calling := anchored (call, s) List.mem_cons_self
    refine anchored_after ?_ fun x member => anchored x (List.mem_cons_of_mem _ member)
    cases run : Activation.finishCall call.fiber call.receiver call.args
      (call.checked results) e with
    | ok _ e' =>
      rw [Session.answer_of_ok (s := { s with engine := e }) run]
      exact ⟨calling.current, calling.callers⟩
    | error fault e' =>
      rw [Session.answer_of_error (s := { s with engine := e }) run]
      exact (Session.unwinds_fail (P := .nothing) _ _ _ _).anchored calling.callers
  | @step H calls t =>
    refine anchored_after ?_ anchored.2
    cases t with
    | run s => exact Session.anchored_step anchored.1.1 anchored.1.2
    | fire due e => exact (Session.opens_fire due e).anchored

lemma Reachable.anchored (reached : Reachable c source config w) : w.Anchored := by
  induction reached with
  | refl => exact List.forall_mem_nil _
  | tail _ move ih => exact move.anchored ih

/-! ## What raises a fault -/

/-- A run is about to begin at an address, and cannot begin. -/
inductive Unbegun : World → Failure → Prop
  /-- A run has launched the fiber. -/
  | nested {s : Session} {calls H} {inline budget made fault e e'}
      (fetched : s.current.fetch = .ok (.launch, inline, budget))
      (executed : (s.executing budget).execute .launch inline s.engine = .ok (.launch made) e)
      (failed : Activation.begin made.fiber none (s.current.depth + 1) made.entry e =
        .error fault e') :
    Unbegun (work (.run s) calls H)
      ⟨made.fiber, made.entry, fault, .nested made.cell (s.executing budget) s.callers, e'⟩
  /-- A continuation has fired. -/
  | fire {e : Engine} {e' id k rest calls H} {fault} (registered : e.agenda.get? id = some k)
      (present : (e.fiber? k.fiber).isSome)
      (failed : Activation.begin k.fiber (some id) 0 k.pc e = .error fault e') :
    Unbegun (work (.fire (id :: rest) e) calls H) ⟨k.fiber, k.pc, fault, .update id rest, e'⟩
  /-- The host has launched the fiber. -/
  | launch {e e₁ e' name made calls H} {fault} (spawned : spawn name [] e = .ok made e₁)
      (failed : Activation.begin made.fiber none 0 made.entry e₁ = .error fault e') :
    Unbegun (host e calls H) ⟨made.fiber, made.entry, fault, .launch made.fiber made.cell, e'⟩
  /-- The host has resumed the fiber. -/
  | resume {e : Engine} {e' f x pc calls H} {fault} (found : e.fiber? f = some x)
      (suspended : x.suspended = some pc)
      (failed : Activation.begin f none 0 pc (e.awaken f x) = .error fault e') :
    Unbegun (host e calls H) ⟨f, pc, fault, .resume, e'⟩

/-- The instruction at an address raises the fault with which a run fails. A run that waits goes on
with the instruction after the one at which it waits. -/
inductive Raises : World → Failure → Activation → Nat → Prop
  /-- There is no instruction, or none that can be decoded, or no budget for it. -/
  | fetch {s : Session} {calls H} {z} (faults : s.Faults z) (own : z.callers = s.callers)
      (failed : s.current.fetch = .error z.fault) :
    Raises (work (.run s) calls H) z s.current s.current.next
  /-- The instruction fails. -/
  | execute {s : Session} {calls H} {z op inline budget e} (faults : s.Faults z)
      (own : z.callers = s.callers) (fetched : s.current.fetch = .ok (op, inline, budget))
      (failed : (s.executing budget).execute op inline s.engine = .error z.fault e) :
    Raises (work (.run s) calls H) z s.current s.current.next
  /-- A loop instruction cannot begin with the first element. -/
  | first {s : Session} {calls H} {z inline exit budget elements e e'} (faults : s.Faults z)
      (own : z.callers = s.callers) (fetched : s.current.fetch = .ok (.forEach, inline, budget))
      (executed : (s.executing budget).execute .forEach inline s.engine =
        .ok (.loop elements exit) e)
      (failed : (s.executing budget).iterate ⟨elements, s.current.frame, s.current.next + 2,
        exit⟩ e = .error z.fault e') :
    Raises (work (.run s) calls H) z s.current s.current.next
  /-- The fiber that a run has launched has run, and the launch cannot push it. -/
  | launched {s : Session} {calls H} {z cell launcher address e e'} (faults : s.Faults z)
      (callers : s.callers = .nested cell launcher z.callers)
      (opcode : launcher.image.opcodeAt? address = some .launch)
      (waits : launcher.waiting.next = address + 1)
      (failed : Operand.pushValue launcher.fiber (.fiber cell) e = .error z.fault e') :
    Raises (work (.run s) calls H) z launcher address
  /-- The fiber that a run has launched has failed, and the launch cannot push anything in its
  place. -/
  | unlaunched {w : World} {y z cell launcher address e} (faults : w.Faults y) (next : y.Next z)
      (callers : y.callers = .nested cell launcher z.callers)
      (opcode : launcher.image.opcodeAt? address = some .launch)
      (waits : launcher.waiting.next = address + 1)
      (failed : Operand.pushValue launcher.fiber .nil (y.recorded.release cell) =
        .error z.fault e) :
    Raises w z launcher address
  /-- A call of the host fails, or its results cannot be pushed. -/
  | call {e e' : Engine} {call : HostCall} {s : Session} {calls : List (HostCall × Session)}
      {H : Multiset Ref} {results : Except Fault (List Value)} {fault : Fault} {address : Nat}
      (opcode : s.current.image.opcodeAt? address = some .call ∨
        s.current.image.opcodeAt? address = some .callDynamic)
      (waits : s.current.waiting.next = address + 1)
      (failed : Activation.finishCall call.fiber call.receiver call.args (call.checked results) e =
        .error fault e') :
    Raises (host e ((call, s) :: calls) H) ⟨s.current.fiber, s.current.pc, fault, s.callers,
      s.current.finish e'⟩ s.current address

/-- The body of a loop has ended, and the loop instruction at an address cannot go on with the next
element. -/
inductive Stalls : World → Failure → Activation → Nat → Prop
  | intro {s : Session} {calls : List (HostCall × Session)} {H : Multiset Ref} {z : Failure}
      {inline address : Nat}
      {budget : Option Nat} {l : Loop} {loops : List Loop} {e : Engine} (faults : s.Faults z)
      (own : z.callers = s.callers) (fetched : s.current.fetch = .ok (.endBody, inline, budget))
      (inside : s.current.loops = l :: loops)
      (failed : { s.executing budget with frame := l.outer, loops }.iterate l
        (s.engine.releaseAll s.current.frame) = .error z.fault e)
      (belongs : l.BelongsTo s.current.image address) :
        Stalls (work (.run s) calls H) z s.current address

/-- What is below a run that fails waits at launches. -/
private lemma Faults.anchored (faults : w.Faults z) (anchored : w.Anchored) :
    z.callers.Anchored := by
  induction faults with
  | step faults => exact faults.anchored anchored.1.1 anchored.1.2
  | @answer e e' call s => exact (anchored (call, s) List.mem_cons_self).callers
  | fire | launch | resume => exact trivial
  | above first next ih =>
    cases next with
    | launcher callers =>
      have below := ih anchored
      rw [callers] at below
      exact below.2

/-- A step fails before a run has begun, or some instruction raises the fault. -/
private lemma raises_of_step (faults : s.Faults z) (current : s.current.Anchored)
    (callers : s.callers.Anchored) :
    (work (.run s) calls H).Unbegun z ∨ (∃ x address, (work (.run s) calls H).Raises z x address) ∨
      ∃ x address, (work (.run s) calls H).Stalls z x address := by
  have raised := faults
  cases faults with
  | fetch failed => exact .inr (.inl ⟨_, _, .fetch raised rfl failed⟩)
  | execute fetched failed => exact .inr (.inl ⟨_, _, .execute raised rfl fetched failed⟩)
  | loop fetched executed failed =>
    obtain ⟨rfl, -⟩ := Activation.directs_of_ok executed
    exact .inr (.inl ⟨_, _, .first raised rfl fetched executed failed⟩)
  | @body op inline budget l loops fault e e' fetched executed inside failed =>
    obtain rfl : op = .endBody := Activation.directs_of_ok executed
    cases executed
    obtain ⟨address, belongs⟩ := current l (inside ▸ List.mem_cons_self)
    exact .inr (.inr ⟨_, address, .intro raised rfl fetched inside failed belongs⟩)
  | begin fetched executed failed =>
    obtain ⟨rfl, -⟩ := Activation.directs_of_ok executed
    exact .inl (.nested fetched executed failed)
  | ended fetched executed ends nested failed =>
    rw [nested] at callers
    exact .inr (.inl ⟨_, _, .launched raised nested callers.1.2 rfl failed⟩)

/-- A run fails before it has begun, or some instruction raises the fault. -/
lemma raises_of_faults (faults : w.Faults z) (anchored : w.Anchored) :
    w.Unbegun z ∨ (∃ x address, w.Raises z x address) ∨ ∃ x address, w.Stalls z x address := by
  cases faults with
  | step faults => exact raises_of_step faults anchored.1.1 anchored.1.2
  | @answer e e' call s calls H results fault failed =>
    have calling := anchored (call, s) List.mem_cons_self
    exact .inr (.inl ⟨_, _, .call calling.opcode rfl failed⟩)
  | fire registered present failed => exact .inl (.fire registered present failed)
  | launch spawned failed => exact .inl (.launch spawned failed)
  | resume found suspended failed => exact .inl (.resume found suspended failed)
  | above first next =>
    have failing := next
    cases next with
    | launcher callers failed =>
      have below := first.anchored anchored
      rw [callers] at below
      exact .inr (.inl ⟨_, _, .unlaunched first failing callers below.1.2 rfl failed⟩)

lemma Unbegun.faults (unbegun : w.Unbegun z) : w.Faults z := by
  cases unbegun with
  | nested fetched executed failed => exact .step (.begin fetched executed failed)
  | fire registered present failed => exact .fire registered present failed
  | launch spawned failed => exact .launch spawned failed
  | resume found suspended failed => exact .resume found suspended failed

lemma Raises.faults (raises : w.Raises z x address) : w.Faults z := by
  cases raises with
  | fetch faults => exact .step faults
  | execute faults => exact .step faults
  | first faults => exact .step faults
  | launched faults => exact .step faults
  | unlaunched first next => exact .above first next
  | call opcode waits failed => exact .answer failed

lemma Stalls.faults (stalls : w.Stalls z x address) : w.Faults z := by
  cases stalls with
  | intro faults => exact .step faults

/-- The address of a failure is the one of the instruction that raises it. -/
lemma Raises.pc_eq (raises : w.Raises z x address) : z.fiber = x.fiber ∧ z.pc = address := by
  cases raises with
  | fetch faults own => exact faults.own own
  | execute faults own => exact faults.own own
  | first faults own => exact faults.own own
  | launched faults callers opcode waits =>
    obtain ⟨fiber, pc⟩ := faults.launched callers
    exact ⟨fiber, pc.trans (Nat.succ.inj waits)⟩
  | unlaunched faults next callers opcode waits =>
    cases next with
    | launcher callers' =>
      cases callers.symm.trans callers'
      exact ⟨rfl, Nat.succ.inj waits⟩
  | call opcode waits => exact ⟨rfl, Nat.succ.inj waits⟩

/-- After a body, the address of a failure is the one of the end of the body. -/
lemma Stalls.pc_ne (stalls : w.Stalls z x address) :
    z.fiber = x.fiber ∧ x.image.opcodeAt? address = some .forEach ∧
      x.image.opcodeAt? z.pc = some .endBody := by
  cases stalls with
  | intro faults own fetched inside failed belongs =>
    obtain ⟨fiber, pc⟩ := faults.own own
    exact ⟨fiber, belongs.opcode, pc ▸ Activation.opcodeAt?_of_fetch fetched⟩

/-- The fault of a run that fails is recorded with the address of the instruction that raises it:
the one that cannot be fetched or decoded, or that fails, in the body of a loop as elsewhere; the
loop instruction that cannot begin with its first element; the launch or the call at which the run
waits. The only exception is a loop instruction that cannot go on with its next element after a
body, which is recorded with the address of the end of the body. Where a run fails that has not
begun, there is no such instruction. -/
theorem faults_located (reached : Reachable c source config w) (z : Failure) :
    (w.Faults z ↔
      w.Unbegun z ∨ (∃ x address, w.Raises z x address) ∨ ∃ x address, w.Stalls z x address) ∧
    ∃ err, z.recorded.faults = z.engine.faults.push err ∧ err.fiber = z.fiber ∧
      err.fault = z.fault ∧
      (∀ x address, w.Raises z x address → err.fiber = x.fiber ∧ err.pc = address) ∧
      ∀ x address, w.Stalls z x address → err.fiber = x.fiber ∧ err.pc ≠ address ∧
        x.image.opcodeAt? address = some .forEach ∧ x.image.opcodeAt? err.pc = some .endBody := by
  refine ⟨⟨fun faults => raises_of_faults faults reached.anchored, ?_⟩, ?_⟩
  · rintro (unbegun | ⟨x, address, raises⟩ | ⟨x, address, stalls⟩)
    · exact unbegun.faults
    · exact raises.faults
    · exact stalls.faults
  · refine ⟨_, z.faults_recorded, rfl, rfl, fun x address raises => raises.pc_eq,
      fun x address stalls => ?_⟩
    obtain ⟨fiber, loop, body⟩ := stalls.pc_ne
    refine ⟨fiber, ?_, loop, body⟩
    rintro rfl
    cases loop.symm.trans body

/-- A machine that pops from an empty stack in the body of a loop. -/
def popInLoopBody : Image where
  name := "popInLoopBody"
  words := #[.plain .pushInt, ⟨1⟩, .plain .forEach, ⟨6⟩, .plain .pop, .plain .endBody,
    .plain .endState]
  states := [⟨0, 0⟩]
  locals := []
  shared := []
  strings := ⟨#[97, 0], #[0]⟩

/-- A fiber of that machine is in the body. -/
def beforeEmptyPop : Session where
  engine := (((Engine.create (fun _ => some popInLoopBody) {}).launch "popInLoopBody").run 2).engine
  current :=
    { fiber := ⟨0⟩
      machine := "popInLoopBody"
      image := popInLoopBody
      cell := ⟨0⟩
      continuation := none
      frame := [⟨2⟩]
      loops := [⟨.count 1 1, [], 4, 6⟩]
      base := 0
      budget := none
      pc := 2
      next := 4 }
  callers := .launch ⟨0⟩ ⟨0⟩

lemma reachable_beforeEmptyPop :
    Reachable c (fun _ => some popInLoopBody) {} (work (.run beforeEmptyPop) [] 0) :=
  Reaches.request .refl (.launch "popInLoopBody") 2

/-- The fault is located at the instruction in the body. -/
theorem faults_located_beforeEmptyPop :
    Reachable .owning (fun _ => some popInLoopBody) {} (work (.run beforeEmptyPop) [] 0) ∧
      ∃ z err, (work (.run beforeEmptyPop) [] 0).Faults z ∧
        z.recorded.faults = z.engine.faults.push err ∧
        err.fiber = ⟨0⟩ ∧ err.fault = .stackUnderflow ∧ err.pc = 4 := by
  have reached : Reachable .owning (fun _ => some popInLoopBody) {}
      (work (.run beforeEmptyPop) [] 0) := reachable_beforeEmptyPop
  have fetched : beforeEmptyPop.current.fetch = .ok (.pop, 0, none) := by decide +kernel
  obtain ⟨e, failed⟩ : ∃ e, (beforeEmptyPop.executing none).execute .pop 0 beforeEmptyPop.engine =
      .error .stackUnderflow e :=
    ⟨_, rfl⟩
  have faults := Session.Faults.execute fetched failed
  obtain ⟨located, err, recorded, -, fault, raised, -⟩ := faults_located reached
    ⟨⟨0⟩, 4, .stackUnderflow, .launch ⟨0⟩ ⟨0⟩, beforeEmptyPop.current.finish e⟩
  obtain ⟨fiber, pc⟩ := raised beforeEmptyPop.current 4 (.execute faults rfl fetched failed)
  exact ⟨reached, _, err, .step faults, recorded, fiber, fault, pc⟩

/-- A machine that keeps each element of a loop. -/
def keepEveryElement : Image where
  name := "keepEveryElement"
  words := #[.plain .pushInt, ⟨2⟩, .plain .forEach, ⟨6⟩, .plain .getFrame, .plain .endBody,
    .plain .endState]
  states := [⟨0, 0⟩]
  locals := []
  shared := []
  strings := ⟨#[97, 0], #[0]⟩

/-- A fiber of that machine is at the end of the body, and there is no room for another element. -/
def noRoomForNextElement : Session where
  engine :=
    (((Engine.create (fun _ => some keepEveryElement) { heapCapacity := some 2 }).launch
    "keepEveryElement").run 3).engine
  current :=
    { fiber := ⟨0⟩
      machine := "keepEveryElement"
      image := keepEveryElement
      cell := ⟨0⟩
      continuation := none
      frame := [⟨2⟩]
      loops := [⟨.count 1 2, [], 4, 6⟩]
      base := 0
      budget := none
      pc := 4
      next := 5 }
  callers := .launch ⟨0⟩ ⟨0⟩

lemma reachable_noRoomForNextElement :
    Reachable c (fun _ => some keepEveryElement) { heapCapacity := some 2 }
      (work (.run noRoomForNextElement) [] 0) :=
  Reaches.request .refl (.launch "keepEveryElement") 3

/-- The loop instruction at 2 runs out of memory for its second element, and the end of the body at
5 is blamed. -/
theorem stalled_loop_misplaced :
    Reachable .owning (fun _ => some keepEveryElement) { heapCapacity := some 2 }
      (work (.run noRoomForNextElement) [] 0) ∧
      ∃ z err, (work (.run noRoomForNextElement) [] 0).Stalls z noRoomForNextElement.current 2 ∧
        z.fault = .heapExhausted ∧ z.recorded.faults = z.engine.faults.push err ∧ err.pc = 5 := by
  have fetched : noRoomForNextElement.current.fetch = .ok (.endBody, 0, none) := by decide +kernel
  have opcode : keepEveryElement.opcodeAt? 2 = some .forEach := by decide +kernel
  have belongs : Loop.BelongsTo ⟨.count 1 2, [], 4, 6⟩ noRoomForNextElement.current.image 2 :=
    ⟨opcode, rfl, rfl⟩
  obtain ⟨e, failed⟩ : ∃ e,
      { noRoomForNextElement.executing none with frame := [], loops := [] }.iterate
        ⟨.count 1 2, [], 4, 6⟩
        (noRoomForNextElement.engine.releaseAll noRoomForNextElement.current.frame) =
        .error .heapExhausted e := ⟨_, rfl⟩
  have faults := Session.Faults.body fetched rfl rfl failed
  exact ⟨reachable_noRoomForNextElement, _, _, .intro faults rfl fetched rfl failed belongs, rfl,
    Failure.faults_recorded _, rfl⟩

end World

end FiberVM
