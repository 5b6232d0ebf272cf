import FiberVM.Engine.Activation

/-!
# Sessions

A session is a request of the host that is being carried out by running fibers. It is a machine with
an explicit stack: the activation that runs, and below it the activations that wait for a fiber that
they have launched, down to the request of the host. One step executes one instruction.

Between the runs of an update there is no activation: one step looks at one continuation that is
due.

A session can pause for a call of a host function. The host may use the engine as it likes before it
answers, which includes further requests.
-/

namespace FiberVM

/-- What is below a running activation. -/
inductive Callers where
  /-- The host has launched the fiber, and holds a strong reference to its cell. -/
  | launch (fiber : FiberId) (cell : Ref)
  /-- The host has advanced the clock: a continuation has fired, and others are to fire after it. -/
  | update (fired : ContinuationId) (rest : List ContinuationId)
  /-- The host has resumed the fiber. -/
  | resume
  /-- Another activation has launched the fiber, and holds a strong reference to its cell. -/
  | nested (cell : Ref) (launcher : Activation) (below : Callers)
  deriving DecidableEq, Repr

/-- A request that is being carried out. -/
structure Session where
  /-- The engine. -/
  engine : Engine
  /-- The activation that runs. -/
  current : Activation
  /-- What is below it. -/
  callers : Callers

/-- What is to be done next for a request. -/
inductive Turn where
  /-- The next instruction of a session is to be executed. -/
  | run (s : Session)
  /-- Continuations are due, and the first of them is to be fired. -/
  | fire (due : List ContinuationId) (engine : Engine)

/-- What the host is answered. -/
inductive Reply where
  /-- The fiber that was launched. -/
  | launched (result : Except EngineError FiberId)
  /-- Whether any continuation is registered after the clock was advanced. -/
  | updated (running : Bool)
  /-- How the run of a resumed fiber has ended. -/
  | resumed (result : Except EngineError RunEnd)

/-- How far a request has come. -/
inductive Progress where
  /-- The engine is at work. -/
  | running (t : Turn)
  /-- The host is asked to carry out a function. -/
  | awaiting (call : HostCall) (s : Session)
  /-- The request is answered. -/
  | done (engine : Engine) (reply : Reply)

namespace Session

/-- Fires the first of the continuations that are due, if it is still registered. -/
def fire : List ContinuationId → Engine → Progress
  | [], e =>
    let e := e.reap
    .done e (.updated (e.agenda.size ≠ 0))
  | id :: rest, e =>
    match e.agenda.get? id with
    | none => .running (.fire rest e)
    | some c =>
      match e.fiber? c.fiber with
      | none =>
        let (cells, agenda) := e.agenda.cancel id
        .running (.fire rest ({ e with agenda }.releaseAll cells))
      | some _ =>
        match Activation.begin c.fiber (some id) 0 c.pc e with
        | .ok a e => .running (.run ⟨e, a, .update id rest⟩)
        | .error fault e => .running (.fire rest (e.recordFault c.fiber c.pc fault).2.reap)

/-- Arms a continuation that has fired and run again, or retires it. -/
def settle (id : ContinuationId) (e : Engine) : Engine :=
  match e.agenda.rearmOrRetire id with
  | .error _ => e
  | .ok (cell, agenda) => { e with agenda }.releaseAll cell.toList

/-- Answers the launch of a fiber that has run. -/
def answerLaunch (fiber : FiberId) (cell : Ref) (e : Engine) : Progress :=
  let e :=
    match e.fiber? fiber with
    | some _ =>
      { e with roots := e.roots.insert fiber cell, main := e.main <|> some fiber }
    | none => e.release cell
  .done e.reap (.launched (.ok fiber))

/-- Goes on below an activation that has ended. -/
def conclude : Callers → Except ExecutionError RunEnd → Engine → Progress
  | .launch _ cell, .error err, e => .done (e.release cell) (.launched (.error (.execution err)))
  | .launch fiber cell, .ok _, e => answerLaunch fiber cell e
  | .update _ rest, .error _, e => .running (.fire rest e.reap)
  | .update id rest, .ok _, e => .running (.fire rest (settle id e).reap)
  | .resume, .error err, e => .done e.reap (.resumed (.error (.execution err)))
  | .resume, .ok how, e => .done e.reap (.resumed (.ok how))
  | .nested cell launcher below, result, e =>
    let (v, e) :=
      match result with
      | .ok _ => (Value.fiber cell, e)
      | .error _ => (Value.nil, e.release cell)
    match Operand.pushValue launcher.fiber v e with
    | .ok _ e => .running (.run ⟨e, { launcher with next := launcher.pc + 1 }, below⟩)
    | .error fault e =>
      let (err, e) := (launcher.finish e).recordFault launcher.fiber launcher.pc fault
      conclude below (.error err) e

/-- Ends the running activation with a fault. -/
def fail (a : Activation) (callers : Callers) (fault : Fault) (e : Engine) : Progress :=
  let (err, e) := (a.finish e).recordFault a.fiber a.pc fault
  conclude callers (.error err) e

/-- Ends the running activation. -/
def finish (a : Activation) (callers : Callers) (how : RunEnd) (e : Engine) : Progress :=
  conclude callers (.ok how) (a.finish e)

/-- Starts a run of a fiber. -/
def start (fiber : FiberId) (depth pc : Nat) (callers : Callers) (e : Engine) : Progress :=
  match Activation.begin fiber none depth pc e with
  | .ok a e => .running (.run ⟨e, a, callers⟩)
  | .error fault e =>
    let (err, e) := e.recordFault fiber pc fault
    conclude callers (.error err) e

/-- Goes on with the next element of a loop. -/
def iterate (a : Activation) (callers : Callers) (l : Loop) (e : Engine) : Progress :=
  match a.iterate l e with
  | .ok a e => .running (.run ⟨e, a, callers⟩)
  | .error fault e => fail a callers fault e

/-- Goes on as an instruction says. -/
def proceed (a : Activation) (callers : Callers) (op : Opcode) (e : Engine) : Control → Progress
  | .advance => .running (.run ⟨e, { a with next := a.pc + op.width }, callers⟩)
  | .jump address => .running (.run ⟨e, { a with next := address }, callers⟩)
  | .enter address =>
    let (a, e) := a.leaveLoops e
    .running (.run ⟨e, { a with next := address, continuation := none }, callers⟩)
  | .loop elements exit => iterate a callers ⟨elements, a.frame, a.pc + 2, exit⟩ e
  | .endBody =>
    match a.loops with
    | [] => finish a callers .bodyEnd e
    | l :: loops => iterate { a with frame := l.outer, loops } callers l (e.releaseAll a.frame)
  | .finish how => finish a callers how e
  | .launch s => start s.fiber (a.depth + 1) s.entry (.nested s.cell a callers) e
  | .await call => .awaiting call ⟨e, a, callers⟩

/-- Executes one instruction. -/
def step (s : Session) : Progress :=
  let a := { s.current with pc := s.current.next }
  match a.fetch with
  | .error fault => fail a s.callers fault s.engine
  | .ok (op, inline, budget) =>
    let a := { a with budget }
    match a.execute op inline s.engine with
    | .error fault e => fail a s.callers fault e
    | .ok control e => proceed a s.callers op e control

/-- Goes on after the host has carried out a call. The engine of the session is the one that the
host leaves behind. -/
def answer (s : Session) (call : HostCall) (results : Except Fault (List Value)) : Progress :=
  let checked : EngineM (List Value) :=
    match results with
    | .error fault => throw fault
    | .ok results => EngineM.onHeap (call.native.checkResults results)
  match Activation.finishCall call.fiber call.receiver call.args checked s.engine with
  | .ok _ e => .running (.run ⟨e, { s.current with next := s.current.pc + 1 }, s.callers⟩)
  | .error fault e => fail s.current s.callers fault e

end Session

/-- Takes one step. -/
def Turn.next : Turn → Progress
  | run s => s.step
  | fire due e => Session.fire due e

namespace Progress

/-- Takes so many steps at most, and stops where the host is needed. -/
def run : Nat → Progress → Progress
  | n + 1, .running t => run n t.next
  | _, p => p

end Progress

end FiberVM
