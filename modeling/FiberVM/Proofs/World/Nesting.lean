import FiberVM.Proofs.World.Runs

/-!
# Runs inside of runs

An interpreter can carry out a loop by calling itself: the body of the loop is a run of its own,
with the element as its frame, and so is a fiber that is launched. It counts the loops that it is
in, and how deep its runs are nested.

A change of the state inside of loops takes such an interpreter several steps. The innermost run
ends as if its body were over, and leaves behind where the state begins (`Interpreter.unwinding`).
Every loop that it comes back to is over as well. The outermost run takes the address back and goes
on there.

A session has a stack of loops in place of the runs inside of each other, and leaves all of them at
once. Both come to the same, whatever the host does: a run inside of loops corresponds to the part
of a session until the body is over (`Interpreter.faithful_run`), and what is still to be done by
all runs inside of each other corresponds to the rest of a session (`Interpreter.mirrors_resume`).
-/

namespace FiberVM

open Engine

variable {σ α β : Type} {e : Engine} {a : Activation} {callers : Callers} {x : σ} {base : Nat}
  {loops : List Loop} {fuel next : Nat}

/-- A host with a state of its own. Before it answers a call, it may do with the engine as it
likes. -/
abbrev Host (σ : Type) := HostCall → Engine → σ → Except Fault (List Value) × Engine × σ

/-- One run of a fiber that carries out loops by further runs. -/
structure Interpreter (σ : Type) where
  engine : Engine
  host : σ
  fiber : FiberId
  machine : String
  image : Image
  cell : Ref
  continuation : Option ContinuationId
  frame : List Ref
  /-- How deep loops and launches are nested. -/
  depth : Nat
  /-- The number of loops that are being run. -/
  loops : Nat
  /-- Where to go on once all loops are left, if the fiber has changed its state in a loop. -/
  unwinding : Option Nat
  budget : Option Nat
  pc : Nat

namespace Interpreter

/-- What a run comes to, if it ends in time. -/
abbrev Ending (σ α : Type) := Option (Except Fault α × Interpreter σ)

/-- The innermost of the runs that an activation stands for. -/
def ofActivation (a : Activation) (e : Engine) (x : σ) : Interpreter σ where
  engine := e
  host := x
  fiber := a.fiber
  machine := a.machine
  image := a.image
  cell := a.cell
  continuation := a.continuation
  frame := a.frame
  depth := a.depth
  loops := a.loops.length
  unwinding := none
  budget := a.budget
  pc := a.pc

/-- The activation that runs inside of each other stand for. -/
def inside (i : Interpreter σ) (base : Nat) (loops : List Loop) (next : Nat) : Activation where
  fiber := i.fiber
  machine := i.machine
  image := i.image
  cell := i.cell
  continuation := i.continuation
  frame := i.frame
  loops := loops
  base := base
  budget := i.budget
  pc := i.pc
  next := next

/-! ## Loops -/

/-- The run around one that is nested in it. -/
def ascend (i : Interpreter σ) : Interpreter σ := { i with depth := i.depth - 1 }

/-- Runs the body of a loop one level deeper. -/
def nested (body : Interpreter σ → Ending σ RunEnd) (i : Interpreter σ) : Ending σ RunEnd :=
  if i.engine.config.maxDepth ≤ i.depth then some (.error .stackOverflow, i)
  else (body { i with depth := i.depth + 1 }).map (Prod.map id ascend)

/-- Comes back from the body of a loop to the frame outside of it. -/
def endLap (outer : List Ref) (i : Interpreter σ) : Interpreter σ :=
  { i with frame := outer, loops := i.loops - 1, engine := i.engine.releaseAll i.frame }

/-- Runs the body of a loop for an element. -/
def lap (body : Interpreter σ → Ending σ RunEnd) (r : Ref) (i : Interpreter σ) : Ending σ RunEnd :=
  (nested body { i with frame := [r], loops := i.loops + 1 }).map (Prod.map id (endLap i.frame))

/-- Gives up the elements that are left. -/
def abandon (i : Interpreter σ) (rest : Generator) : Interpreter σ :=
  { i with engine := i.engine.releaseAll rest.refs }

/-- Goes on with a loop after the body has run for an element, or ends it. -/
def settleLap (rest : Generator) (more : Interpreter σ → Ending σ (Option RunEnd)) :
    Except Fault RunEnd × Interpreter σ → Ending σ (Option RunEnd)
  | (.ok .bodyEnd, i) =>
    match i.unwinding with
    | none => more i
    | some _ => some (.ok none, i.abandon rest)
  | (.ok .stateEnd, i) => some (.ok (some .stateEnd), i.abandon rest)
  | (.ok .suspended, i) => some (.error .suspendInLoop, i.abandon rest)
  | (.error fault, i) => some (.error fault, i.abandon rest)

/-- Runs the body of a loop once for each element. -/
def forEach (body : Interpreter σ → Ending σ RunEnd) : Generator → Interpreter σ →
    Ending σ (Option RunEnd)
  | .elements [], i => some (.ok none, i)
  | .elements (r :: refs), i =>
    (lap body r i).bind (settleLap (.elements refs) (forEach body (.elements refs)))
  | .count n limit, i =>
    if n < limit then
      match Heap.allocTemporary (.int (Int64.ofNat n)) i.engine.heap with
      | .ok r heap =>
        (lap body r { i with engine := { i.engine with heap } }).bind
          (settleLap (.count (n + 1) limit) (forEach body (.count (n + 1) limit)))
      | .error fault heap => some (.error fault, { i with engine := { i.engine with heap } })
    else some (.ok none, i)
termination_by elements => elements.size
decreasing_by all_goals simp only [Generator.size, List.length_cons]; omega

/-- Goes on after a loop, or ends the run with it. -/
def settleLoop (again : Nat → Interpreter σ → Ending σ RunEnd) (exit : Nat) :
    Except Fault (Option RunEnd) × Interpreter σ → Ending σ RunEnd
  | (.ok none, i) =>
    match i.unwinding with
    | none => again exit i
    | some entrance =>
      if 0 < i.loops then some (.ok .bodyEnd, i)
      else again entrance { i with unwinding := none }
  | (.ok (some how), i) => some (.ok how, i)
  | (.error fault, i) => some (.error fault, i)

/-! ## Launches and calls -/

/-- Gives up what the run holds. -/
def finish (i : Interpreter σ) : Engine := (i.engine.releaseAll i.frame).release i.cell

/-- Ends the outermost run of a fiber. A fiber that fails is torn down. -/
def close : Except Fault RunEnd × Interpreter σ → Except ExecutionError RunEnd × Engine × σ
  | (.ok how, i) => (.ok how, i.finish, i.host)
  | (.error fault, i) =>
    let (err, e) := i.finish.recordFault i.fiber i.pc fault
    (.error err, e, i.host)

/-- Runs a fiber. -/
def runFiber (again : Nat → Interpreter σ → Ending σ RunEnd) (fiber : FiberId) (depth pc : Nat)
    (e : Engine) (x : σ) : Option (Except ExecutionError RunEnd × Engine × σ) :=
  match Activation.begin fiber none depth pc e with
  | .ok a e => (again pc (ofActivation a e x)).map close
  | .error fault e =>
    let (err, e) := e.recordFault fiber pc fault
    some (.error err, e, x)

/-- Goes on after an operation with the next instruction, or fails. -/
def onward (again : Nat → Interpreter σ → Ending σ RunEnd) (i : Interpreter σ) :
    EStateM.Result Fault Engine Unit → Ending σ RunEnd
  | .ok _ e => again (i.pc + 1) { i with engine := e }
  | .error fault e => some (.error fault, { i with engine := e })

/-- What is pushed after a fiber that was launched has run: the fiber, or nil if it has failed. -/
def launched (cell : Ref) (e : Engine) : Except ExecutionError RunEnd → Value × Engine
  | .ok _ => (.fiber cell, e)
  | .error _ => (.nil, e.release cell)

/-- Goes on after a fiber that was launched has run. -/
def settleLaunch (again : Nat → Interpreter σ → Ending σ RunEnd) (cell : Ref) (i : Interpreter σ)
    (y : Except ExecutionError RunEnd × Engine × σ) : Ending σ RunEnd :=
  let (v, e) := launched cell y.2.1 y.1
  onward again { i with host := y.2.2 } (Operand.pushValue i.fiber v e)

/-! ## Instructions -/

/-- Executes the instruction at `i.pc`. In a loop a fiber cannot suspend. -/
def execute (i : Interpreter σ) (op : Opcode) (inline : Nat) : EngineM Control :=
  if 0 < i.loops ∧ (op = .wait ∨ op = .suspend) then throw .suspendInLoop
  else (i.inside i.depth [] i.pc).execute op inline

/-- Goes on as an instruction tells. -/
def proceed (host : Host σ) (again : Nat → Interpreter σ → Ending σ RunEnd) (op : Opcode)
    (i : Interpreter σ) : Control → Ending σ RunEnd
  | .advance => again (i.pc + op.width) i
  | .jump address => again address i
  | .enter address =>
    if 0 < i.loops then
      some (.ok .bodyEnd, { i with continuation := none, unwinding := some address })
    else again address { i with continuation := none }
  | .loop elements exit => (forEach (again (i.pc + 2)) elements i).bind (settleLoop again exit)
  | .endBody => some (.ok .bodyEnd, i)
  | .finish how => some (.ok how, i)
  | .launch s =>
    (runFiber again s.fiber (i.depth + 1) s.entry i.engine i.host).bind
      (settleLaunch again s.cell i)
  | .await call =>
    let (results, e, x) := host call i.engine i.host
    onward again { i with host := x }
      (Activation.finishCall call.fiber call.receiver call.args (call.checked results) e)

/-- Executes the instruction at an address and goes on. -/
def turn (host : Host σ) (again : Nat → Interpreter σ → Ending σ RunEnd) (next : Nat)
    (i : Interpreter σ) : Ending σ RunEnd :=
  match (i.inside i.depth [] next).fetch with
  | .error fault => some (.error fault, { i with pc := next })
  | .ok (op, inline, budget) =>
    match { i with pc := next, budget }.execute op inline i.engine with
    | .error fault e => some (.error fault, { i with pc := next, budget, engine := e })
    | .ok control e => proceed host again op { i with pc := next, budget, engine := e } control

/-- Executes instructions from an address on until the end of a state or of a body, or until the
fiber suspends. The fuel bounds the number of instructions of each run. -/
def run (host : Host σ) : Nat → Nat → Interpreter σ → Ending σ RunEnd
  | 0 => fun _ _ => none
  | fuel + 1 => turn host (run host fuel)

/-- What is done after the innermost run has ended: the loops around it go on, from the inside to
the outside. -/
def comeBack (again : Nat → Interpreter σ → Ending σ RunEnd) :
    List Loop → Except Fault RunEnd × Interpreter σ → Ending σ RunEnd
  | [], y => some y
  | l :: loops, y =>
    let y := Prod.map id (endLap l.outer ∘ ascend) y
    ((settleLap l.rest (forEach (again l.body) l.rest) y).bind (settleLoop again l.exit)).bind
      (comeBack again loops)

/-- What is done by all runs inside of each other that an activation stands for. -/
def resume (host : Host σ) (fuel : Nat) (a : Activation) (e : Engine) (x : σ) : Ending σ RunEnd :=
  (run host fuel a.next (ofActivation a e x)).bind (comeBack (run host fuel) a.loops)

end Interpreter

/-! ## Sessions under a host -/

namespace Progress

/-- Takes one step for a request. The host answers what it is asked. -/
def under (host : Host σ) : Progress × σ → Progress × σ
  | (.running t, x) => (t.next, x)
  | (.awaiting call s, x) =>
    let (results, e, x) := host call s.engine x
    ({ s with engine := e }.answer call results, x)
  | (.done e reply, x) => (.done e reply, x)

/-- The request is not answered yet. -/
def Open : Progress → Prop
  | done .. => False
  | _ => True

end Progress

/-- A computation and a request come to the same: where the computation ends, the request gets to
where the result leads, and where it runs out of fuel, the request has been under way for as many
steps. -/
def Mirrors (host : Host σ) (fuel : Nat) (p : Progress × σ) (good : α → Prop)
    (land : α → Progress × σ) : Option α → Prop
  | none => ∃ n, fuel ≤ n ∧ ((Progress.under host)^[n] p).1.Open
  | some y => good y ∧ ∃ n, (Progress.under host)^[n] p = land y

namespace Mirrors

variable {host : Host σ} {p : Progress × σ} {good : α → Prop} {land : α → Progress × σ}
  {good' : β → Prop} {land' : β → Progress × σ} {out : Option α} {y : α}

lemma here (ok : good y) (arrived : p = land y) : Mirrors host fuel p good land (some y) :=
  ⟨ok, 0, arrived⟩

/-- A step of the request takes fuel. -/
lemma step (mirrors : Mirrors host fuel (Progress.under host p) good land out) :
    Mirrors host (fuel + 1) p good land out := by
  cases out with
  | none =>
    obtain ⟨n, least, unanswered⟩ := mirrors
    exact ⟨n + 1, Nat.succ_le_succ least, unanswered⟩
  | some y =>
    obtain ⟨ok, n, arrived⟩ := mirrors
    exact ⟨ok, n + 1, arrived⟩

/-- A computation goes on where the one before it leads. -/
lemma bind {k : α → Option β} (first : Mirrors host fuel p good land out)
    (rest : ∀ y, good y → Mirrors host fuel (land y) good' land' (k y)) :
    Mirrors host fuel p good' land' (out.bind k) := by
  cases out with
  | none => exact first
  | some y =>
    obtain ⟨ok, n, arrived⟩ := first
    have second := rest y ok
    rw [← arrived] at second
    change Mirrors host fuel p good' land' (k y)
    cases result : k y with
    | none =>
      rw [result] at second
      obtain ⟨m, least, unanswered⟩ := second
      rw [← Function.iterate_add_apply] at unanswered
      exact ⟨m + n, least.trans (Nat.le_add_right m n), unanswered⟩
    | some z =>
      rw [result] at second
      obtain ⟨ok', m, arrived'⟩ := second
      rw [← Function.iterate_add_apply] at arrived'
      exact ⟨ok', m + n, arrived'⟩

/-- Less fuel suffices as well. -/
lemma less (mirrors : Mirrors host (fuel + 1) p good land out) :
    Mirrors host fuel p good land out := by
  cases out with
  | none =>
    obtain ⟨n, least, unanswered⟩ := mirrors
    exact ⟨n, Nat.le_of_succ_le least, unanswered⟩
  | some y => exact mirrors

lemma map {f : α → β} (mirrors : Mirrors host fuel p good land out)
    (kept : ∀ y, good y → good' (f y)) (same : ∀ y, good y → land y = land' (f y)) :
    Mirrors host fuel p good' land' (out.map f) := by
  cases out with
  | none => exact mirrors
  | some y =>
    obtain ⟨ok, n, arrived⟩ := mirrors
    exact ⟨kept y ok, n, arrived.trans (same y ok)⟩

/-- A request that is answered stays so. -/
lemma answered_of_le {m n} (answered : ¬ ((Progress.under host)^[n] p).1.Open) (later : n ≤ m) :
    ¬ ((Progress.under host)^[m] p).1.Open := by
  induction m, later using Nat.le_induction with
  | base => exact answered
  | succ m _ ih =>
    rw [Function.iterate_succ_apply']
    generalize (Progress.under host)^[m] p = q at ih
    obtain ⟨q, x⟩ := q
    cases q with
    | running t => exact absurd trivial ih
    | awaiting call s => exact absurd trivial ih
    | done e reply => exact ih

/-- The computation ends if the request is answered within as many steps as there is fuel. -/
lemma ends_of_answered (mirrors : Mirrors host fuel p good land out)
    (answered : ¬ ((Progress.under host)^[fuel] p).1.Open) : ∃ y, out = some y ∧ good y := by
  cases out with
  | none =>
    obtain ⟨n, least, unanswered⟩ := mirrors
    exact absurd unanswered (answered_of_le answered least)
  | some y => exact ⟨y, rfl, mirrors.1⟩

end Mirrors

namespace Interpreter

variable {host : Host σ} {again : Nat → Interpreter σ → Ending σ RunEnd} {i : Interpreter σ}

/-! ## Levels -/

/-- So many loops are counted, inside of what is nested so deep already. -/
structure Level (i : Interpreter σ) (base n : Nat) : Prop where
  depth : i.depth = base + n
  loops : i.loops = n

/-- What holds where a run inside of loops has ended. The counters are as before. An address is left
behind only inside of loops, at the end of a body. -/
structure Returned (base : Nat) (loops : List Loop) (y : Except Fault RunEnd × Interpreter σ) :
    Prop where
  level : y.2.Level base loops.length
  unwinding : y.2.unwinding ≠ none → loops ≠ [] ∧ y.1 = .ok .bodyEnd ∧ y.2.continuation = none
  suspended : y.1 = .ok .suspended → loops = []

/-- A run that fails leaves no address behind. -/
lemma Returned.error {fault} (level : i.Level base loops.length) (calm : i.unwinding = none) :
    Returned base loops (.error fault, i) :=
  ⟨level, fun left => absurd calm left, nofun⟩

/-- What a session does where the innermost run has come to the end of its body. -/
def pending (i : Interpreter σ) : Control := i.unwinding.elim .endBody .enter

/-- What a session has come to where the innermost run has ended. -/
def land (base : Nat) (loops : List Loop) (callers : Callers) :
    Except Fault RunEnd × Interpreter σ → Progress × σ
  | (.error fault, i) => (Session.fail (i.inside base loops i.pc) callers fault i.engine, i.host)
  | (.ok .bodyEnd, i) =>
    (Session.proceed (i.inside base loops i.pc) callers .endBody i.engine i.pending, i.host)
  | (.ok how, i) => (Session.finish (i.inside base loops i.pc) callers how i.engine, i.host)

/-- What holds where a loop is over. -/
structure LoopReturned (base : Nat) (loops : List Loop)
    (y : Except Fault (Option RunEnd) × Interpreter σ) : Prop where
  level : y.2.Level base loops.length
  unwinding : y.2.unwinding ≠ none → y.1 = .ok none ∧ y.2.continuation = none
  state : ∀ how, y.1 = .ok (some how) → how = .stateEnd

/-- A loop that fails leaves no address behind. -/
lemma LoopReturned.error {fault} (level : i.Level base loops.length) (calm : i.unwinding = none) :
    LoopReturned base loops (.error fault, i) :=
  ⟨level, fun left => absurd calm left, nofun⟩

/-- A loop has come to the end of its elements. -/
lemma LoopReturned.exhausted (level : i.Level base loops.length) (calm : i.unwinding = none) :
    LoopReturned base loops (.ok none, i) :=
  ⟨level, fun left => absurd calm left, nofun⟩

/-- What a session has come to where a loop is over. -/
def landLoop (base : Nat) (loops : List Loop) (callers : Callers) (exit : Nat) :
    Except Fault (Option RunEnd) × Interpreter σ → Progress × σ
  | (.error fault, i) => (Session.fail (i.inside base loops i.pc) callers fault i.engine, i.host)
  | (.ok (some how), i) => (Session.finish (i.inside base loops i.pc) callers how i.engine, i.host)
  | (.ok none, i) =>
    (Session.proceed (i.inside base loops i.pc) callers .forEach i.engine
      (i.unwinding.elim (.jump exit) .enter), i.host)

/-- Runs inside of any loops correspond to the part of a session until the body is over. -/
def Faithful (host : Host σ) (fuel : Nat) (again : Nat → Interpreter σ → Ending σ RunEnd) : Prop :=
  ∀ (base : Nat) (loops : List Loop) (callers : Callers) (next : Nat) (i : Interpreter σ),
    i.Level base loops.length → i.unwinding = none →
    Mirrors host fuel (.running (.run ⟨i.engine, i.inside base loops next, callers⟩), i.host)
      (Returned base loops) (land base loops callers) (again next i)

/-- What an instruction does depends on how many loops there are, but not on what is in them. -/
lemma execute_inside (level : i.Level base loops.length) (op : Opcode) (inline : Nat) :
    (i.inside base loops next).execute op inline = i.execute op inline := by
  have deep : (i.inside base loops next).depth = (i.inside i.depth [] i.pc).depth :=
    level.depth.symm
  unfold execute
  by_cases suspends : op = .wait ∨ op = .suspend
  · cases loops with
    | nil =>
      rw [if_neg fun both => (level.loops ▸ both.1).false]
      rcases suspends with rfl | rfl <;> rfl
    | cons l loops =>
      rw [if_pos ⟨level.loops ▸ Nat.succ_pos _, suspends⟩]
      rcases suspends with rfl | rfl <;> rfl
  · rw [if_neg fun both => suspends both.2]
    cases op with
    | wait => exact absurd (.inl rfl) suspends
    | suspend => exact absurd (.inr rfl) suspends
    | launch =>
      change (do return Control.launch (← (i.inside base loops next).spawn) : EngineM Control) =
        (do return Control.launch (← (i.inside i.depth [] i.pc).spawn))
      unfold Activation.spawn
      rw [deep]
      rfl
    | _ => rfl

/-! ## Loops correspond -/

/-- At the end of a body the loop goes on. -/
lemma settleLap_of_calm {rest} {more : Interpreter σ → Ending σ (Option RunEnd)}
    (calm : i.unwinding = none) : settleLap rest more (.ok .bodyEnd, i) = more i := by
  rw [settleLap, calm]

/-- A loop is over where the fiber has changed its state. -/
lemma settleLap_of_unwinding {rest} {more : Interpreter σ → Ending σ (Option RunEnd)} {address}
    (left : i.unwinding = some address) :
    settleLap rest more (.ok .bodyEnd, i) = some (.ok none, i.abandon rest) := by
  rw [settleLap, left]

/-- Going on with a loop corresponds to what a session does with it. -/
def GoesOn (host : Host σ) (fuel base : Nat) (loops : List Loop) (callers : Callers) (l : Loop)
    (more : Interpreter σ → Ending σ (Option RunEnd)) : Prop :=
  ∀ j : Interpreter σ, j.Level base loops.length → j.unwinding = none → j.frame = l.outer →
    Mirrors host fuel (Session.iterate (j.inside base loops j.pc) callers l j.engine, j.host)
      (LoopReturned base loops) (landLoop base loops callers l.exit) (more j)

/-- After the body of a loop has run for an element, the loop goes on or is over. -/
lemma GoesOn.settleLap {l} {more : Interpreter σ → Ending σ (Option RunEnd)} {y}
    (goesOn : GoesOn host fuel base loops callers l more)
    (returned : Returned base (l :: loops) y) :
    Mirrors host fuel (land base (l :: loops) callers y) (LoopReturned base loops)
      (landLoop base loops callers l.exit)
      (settleLap l.rest more (Prod.map id (endLap l.outer ∘ ascend) y)) := by
  obtain ⟨result, i⟩ := y
  have depth : i.depth - 1 = base + loops.length := Nat.sub_eq_of_eq_add returned.level.depth
  have counted : i.loops - 1 = loops.length := Nat.sub_eq_of_eq_add returned.level.loops
  -- only at the end of the body can an address be left behind
  have calm : result ≠ .ok .bodyEnd → i.unwinding = none := by
    intro other
    by_contra left
    exact other (returned.unwinding left).2.1
  cases result with
  | error fault => exact .here (.error ⟨depth, counted⟩ (calm nofun)) rfl
  | ok how =>
    cases how with
    | stateEnd =>
      refine .here ⟨⟨depth, counted⟩, fun left => absurd (calm nofun) left, fun how is => ?_⟩ rfl
      cases is
      rfl
    | suspended => exact absurd (returned.suspended rfl) (List.cons_ne_nil _ _)
    | bodyEnd =>
      change Mirrors host fuel (land base (l :: loops) callers (.ok .bodyEnd, i)) _ _
        (Interpreter.settleLap l.rest more (.ok .bodyEnd, endLap l.outer i.ascend))
      cases left : i.unwinding with
      | none =>
        have left' : (endLap l.outer i.ascend).unwinding = none := left
        rw [settleLap_of_calm left', land, pending, left]
        exact goesOn (endLap l.outer i.ascend) ⟨depth, counted⟩ left rfl
      | some address =>
        have left' : (endLap l.outer i.ascend).unwinding = some address := left
        rw [settleLap_of_unwinding left']
        refine .here ⟨⟨depth, counted⟩, fun some => ⟨rfl, (returned.unwinding some).2.2⟩, nofun⟩ ?_
        have left'' : ((endLap l.outer i.ascend).abandon l.rest).unwinding = some address := left
        rw [land, landLoop, pending, left, left'']
        rfl

/-- The body of a loop runs for an element. -/
lemma Faithful.lap (faithful : Faithful host fuel again) {l : Loop} {r rest}
    {more : Interpreter σ → Ending σ (Option RunEnd)} (yields : l.rest.Yields e r rest i.engine)
    (outer : l.outer = i.frame) (level : i.Level base loops.length) (calm : i.unwinding = none)
    (goesOn : GoesOn host fuel base loops callers { l with rest } more) :
    Mirrors host fuel (Session.iterate (i.inside base loops i.pc) callers l e, i.host)
      (LoopReturned base loops) (landLoop base loops callers l.exit)
      ((lap (again l.body) r i).bind (settleLap rest more)) := by
  have deep : (i.inside base loops i.pc).depth = i.depth := level.depth.symm
  rw [Session.iterate, Activation.iterate_of_yields yields, deep, Interpreter.lap, nested]
  by_cases full : i.engine.config.maxDepth ≤ i.depth
  · rw [if_pos full, if_pos full]
    exact .here (.error ⟨level.depth, level.loops⟩ calm) rfl
  · rw [if_neg full, if_neg full, Option.map_map, Option.bind_map]
    have level' : ({ i with frame := [r], loops := i.loops + 1, depth := i.depth + 1 } :
        Interpreter σ).Level base ({ l with rest } :: loops).length :=
      ⟨congrArg (· + 1) level.depth, congrArg (· + 1) level.loops⟩
    refine (faithful base ({ l with rest } :: loops) callers l.body _ level' calm).bind
      fun y returned => ?_
    rw [← outer]
    exact goesOn.settleLap returned

/-- A loop corresponds to the part of a session until it is over. -/
lemma Faithful.forEach (faithful : Faithful host fuel again) (body exit : Nat)
    (elements : Generator) (level : i.Level base loops.length) (calm : i.unwinding = none) :
    Mirrors host fuel
      (Session.iterate (i.inside base loops i.pc) callers ⟨elements, i.frame, body, exit⟩ i.engine,
        i.host)
      (LoopReturned base loops) (landLoop base loops callers exit)
      (forEach (again body) elements i) := by
  -- a loop without elements is over
  have exhausted : ∀ {elements : Generator} {i : Interpreter σ}, elements.size = 0 →
      i.Level base loops.length → i.unwinding = none → Mirrors host fuel
        (Session.iterate (i.inside base loops i.pc) callers
          ⟨elements, i.frame, body, exit⟩ i.engine, i.host)
        (LoopReturned base loops) (landLoop base loops callers exit) (some (.ok none, i)) := by
    intro elements i exhausted level calm
    refine .here (.exhausted level calm) ?_
    rw [landLoop, calm, Session.iterate, Activation.iterate_of_exhausted exhausted]
    rfl
  generalize size : elements.size = n
  induction n using Nat.strong_induction_on generalizing elements i with
  | _ n ih =>
    subst size
    -- after an element the loop goes on with those that are left
    have onward : ∀ {rest : Generator}, rest.size < elements.size → GoesOn host fuel base loops
        callers ⟨rest, i.frame, body, exit⟩ (Interpreter.forEach (again body) rest) := by
      intro rest fewer j level' calm' frame
      rw [← show j.frame = i.frame from frame]
      exact ih _ fewer rest level' calm' rfl
    rw [Interpreter.forEach.eq_def]
    cases elements with
    | elements refs =>
      cases refs with
      | nil => exact exhausted rfl level calm
      | cons r refs =>
        exact faithful.lap (l := ⟨.elements (r :: refs), i.frame, body, exit⟩) .element rfl level
          calm (onward (Nat.lt_succ_self _))
    | count next limit =>
      dsimp only
      by_cases more : next < limit
      · rw [if_pos more]
        cases made : Heap.allocTemporary (.int (Int64.ofNat next)) i.engine.heap with
        | ok r heap =>
          exact faithful.lap (i := { i with engine := { i.engine with heap } })
            (l := ⟨.count next limit, i.frame, body, exit⟩) (.number more made) rfl
            ⟨level.depth, level.loops⟩ calm
            (onward (Nat.sub_lt_sub_left more (Nat.lt_succ_self next)))
        | error fault heap =>
          refine .here (.error ⟨level.depth, level.loops⟩ calm) ?_
          rw [Session.iterate, Activation.iterate_of_full rfl more made]
          rfl
      · rw [if_neg more]
        exact exhausted (Nat.sub_eq_zero_of_le (Nat.le_of_not_lt more)) level calm

/-- After a loop the run goes on or is over. -/
lemma Faithful.settleLoop (faithful : Faithful host fuel again) (exit : Nat) {y}
    (returned : LoopReturned base loops y) :
    Mirrors host fuel (landLoop base loops callers exit y) (Returned base loops)
      (land base loops callers) (settleLoop again exit y) := by
  obtain ⟨result, i⟩ := y
  have calm : result ≠ .ok none → i.unwinding = none := by
    intro other
    by_contra left
    exact other (returned.unwinding left).1
  cases result with
  | error fault => exact .here (.error returned.level (calm nofun)) rfl
  | ok how =>
    cases how with
    | some how =>
      obtain rfl := returned.state how rfl
      exact .here ⟨returned.level, fun left => absurd (calm nofun) left, nofun⟩ rfl
    | none =>
      cases left : i.unwinding with
      | none =>
        rw [Interpreter.settleLoop, landLoop, left]
        exact faithful base loops callers exit i returned.level left
      | some address =>
        rw [Interpreter.settleLoop, landLoop, left]
        have departed : i.continuation = none :=
          (returned.unwinding (left ▸ Option.some_ne_none address)).2
        cases loops with
        | nil =>
          have outermost : ¬ 0 < i.loops := returned.level.loops ▸ Nat.lt_irrefl 0
          dsimp only
          rw [if_neg outermost]
          have same : ({ i with unwinding := none } : Interpreter σ).inside base [] address =
              { i.inside base [] i.pc with next := address, continuation := none } := by
            rw [inside, departed]
            rfl
          have goes := faithful base [] callers address { i with unwinding := none }
            ⟨returned.level.depth, returned.level.loops⟩ rfl
          rw [same] at goes
          exact goes
        | cons l loops =>
          have inner : 0 < i.loops := returned.level.loops ▸ Nat.succ_pos _
          dsimp only
          rw [if_pos inner]
          refine .here ⟨returned.level, fun _ => ⟨List.cons_ne_nil _ _, rfl, departed⟩, nofun⟩ ?_
          rw [land, pending, left]
          rfl

/-! ## Launches and calls correspond -/

/-- The outermost run of a fiber ends as the session does. -/
lemma land_outermost {y : Except Fault RunEnd × Interpreter σ} (returned : Returned base [] y) :
    land base [] callers y =
      (Session.conclude callers (close y).1 (close y).2.1, (close y).2.2) := by
  obtain ⟨result, i⟩ := y
  have calm : i.unwinding = none := by
    by_contra left
    exact (returned.unwinding left).1 rfl
  cases result with
  | error fault => rfl
  | ok how =>
    cases how with
    | bodyEnd =>
      rw [land, pending, calm]
      rfl
    | _ => rfl

/-- A fiber runs as it does in a session. -/
lemma Faithful.runFiber (faithful : Faithful host fuel again) (fiber : FiberId) (depth pc : Nat)
    (callers : Callers) (e : Engine) (x : σ) :
    Mirrors host fuel (Session.start fiber depth pc callers e, x) (fun _ => True)
      (fun y => (Session.conclude callers y.1 y.2.1, y.2.2))
        (runFiber again fiber depth pc e x) := by
  rw [Session.start, Interpreter.runFiber]
  cases begun : Activation.begin fiber none depth pc e with
  | error fault e' => exact .here trivial rfl
  | ok a e' =>
    have begins := Activation.does_begin (P := .nothing) fiber none depth pc e trivial
    rw [begun] at begins
    obtain ⟨-, next, outermost⟩ := begins.2.1
    have runs := faithful a.base [] callers pc (ofActivation a e' x)
      ⟨congrArg (fun loops : List Loop => a.base + loops.length) outermost,
        congrArg List.length outermost⟩ rfl
    have same : (ofActivation a e' x).inside a.base [] pc = a := by
      rw [← next, ← outermost]
      rfl
    rw [same] at runs
    exact runs.map (fun _ _ => trivial) fun y returned => land_outermost returned

/-- After an operation a run goes on as a session does. -/
lemma Faithful.onward (faithful : Faithful host fuel again) (level : i.Level base loops.length)
    (calm : i.unwinding = none) {p result}
    (ok : ∀ e, result = .ok () e → p = .running (.run ⟨e, i.inside base loops (i.pc + 1), callers⟩))
    (error : ∀ fault e, result = .error fault e →
      p = Session.fail (i.inside base loops i.pc) callers fault e) :
    Mirrors host fuel (p, i.host) (Returned base loops) (land base loops callers)
      (onward again i result) := by
  cases result with
  | ok _ e =>
    rw [ok e rfl]
    exact faithful base loops callers (i.pc + 1) { i with engine := e }
      ⟨level.depth, level.loops⟩ calm
  | error fault e =>
    rw [error fault e rfl]
    exact .here (.error ⟨level.depth, level.loops⟩ calm) rfl

/-- Below a fiber that was launched the session goes on where its launcher can push the outcome. -/
lemma conclude_of_pushed {cell result e'}
    (pushed : Operand.pushValue a.fiber (launched cell e result).1 (launched cell e result).2 =
      .ok () e') :
    Session.conclude (.nested cell a callers) result e =
      .running (.run ⟨e', { a with next := a.pc + 1 }, callers⟩) := by
  cases result with
  | ok how =>
    rw [launched] at pushed
    simp only [Session.conclude, pushed]
  | error err =>
    rw [launched] at pushed
    simp only [Session.conclude, pushed]

/-- The launcher fails where it cannot push the outcome. -/
lemma conclude_of_unpushed {cell result fault e'}
    (pushed : Operand.pushValue a.fiber (launched cell e result).1 (launched cell e result).2 =
      .error fault e') :
    Session.conclude (.nested cell a callers) result e = Session.fail a callers fault e' := by
  cases result with
  | ok how =>
    rw [launched] at pushed
    simp only [Session.conclude, Session.fail, pushed]
  | error err =>
    rw [launched] at pushed
    simp only [Session.conclude, Session.fail, pushed]

/-- After a launch a run goes on as a session does. -/
lemma Faithful.settleLaunch (faithful : Faithful host fuel again)
    (level : i.Level base loops.length) (calm : i.unwinding = none) (cell : Ref)
    (y : Except ExecutionError RunEnd × Engine × σ) :
    Mirrors host fuel
      (Session.conclude (.nested cell (i.inside base loops i.pc) callers) y.1 y.2.1, y.2.2)
      (Returned base loops) (land base loops callers) (settleLaunch again cell i y) :=
  faithful.onward (i := { i with host := y.2.2 }) ⟨level.depth, level.loops⟩ calm
    (fun _ pushed => conclude_of_pushed (a := i.inside base loops i.pc) pushed)
    (fun _ _ pushed => conclude_of_unpushed (a := i.inside base loops i.pc) pushed)

/-! ## Runs correspond -/

/-- Whatever an instruction tells, a run goes on as a session does. -/
lemma Faithful.proceed (faithful : Faithful host fuel again) (level : i.Level base loops.length)
    (calm : i.unwinding = none) (op : Opcode) (control : Control)
    (ends : ∀ how, control = .finish how → how = .stateEnd ∨ how = .suspended ∧ loops = []) :
    Mirrors host fuel
      (Session.proceed (i.inside base loops i.pc) callers op i.engine control, i.host)
      (Returned base loops) (land base loops callers) (proceed host again op i control) := by
  have deep : (i.inside base loops i.pc).depth = i.depth := level.depth.symm
  cases control with
  | advance => exact faithful base loops callers (i.pc + op.width) i level calm
  | jump address => exact faithful base loops callers address i level calm
  | enter address =>
    cases loops with
    | nil =>
      have outermost : ¬ 0 < i.loops := level.loops ▸ Nat.lt_irrefl 0
      rw [Interpreter.proceed, if_neg outermost]
      exact faithful base [] callers address { i with continuation := none }
        ⟨level.depth, level.loops⟩ calm
    | cons l loops =>
      have inner : 0 < i.loops := level.loops ▸ Nat.succ_pos _
      rw [Interpreter.proceed, if_pos inner]
      exact .here ⟨⟨level.depth, level.loops⟩, fun _ => ⟨List.cons_ne_nil _ _, rfl, rfl⟩, nofun⟩ rfl
  | loop elements exit =>
    exact (faithful.forEach (i.pc + 2) exit elements level calm).bind
      fun y returned => faithful.settleLoop exit returned
  | endBody =>
    refine .here ⟨level, fun left => absurd calm left, nofun⟩ ?_
    rw [land, pending, calm]
    rfl
  | finish how =>
    rcases ends how rfl with rfl | ⟨rfl, outermost⟩
    · exact .here ⟨level, fun left => absurd calm left, nofun⟩ rfl
    · exact .here ⟨level, fun left => absurd calm left, fun _ => outermost⟩ rfl
  | launch s =>
    have started := faithful.runFiber s.fiber (i.depth + 1) s.entry
      (.nested s.cell (i.inside base loops i.pc) callers) i.engine i.host
    rw [← deep] at started
    rw [Interpreter.proceed, ← deep]
    exact started.bind fun y _ => faithful.settleLaunch level calm s.cell y
  | await call =>
    -- the host answers in a step of its own
    refine .less (.step ?_)
    rw [Session.proceed, Progress.under, Interpreter.proceed]
    generalize answered : host call i.engine i.host = answer
    obtain ⟨results, e, x⟩ := answer
    exact faithful.onward (i := { i with host := x }) ⟨level.depth, level.loops⟩ calm
      (fun _ finished => Session.answer_of_ok finished)
      (fun _ _ finished => Session.answer_of_error finished)

/-- A run fails where there is no instruction. -/
lemma turn_of_fetch_error {fault} (failed : (i.inside i.depth [] next).fetch = .error fault) :
    turn host again next i = some (.error fault, { i with pc := next }) := by
  rw [turn, failed]

/-- A run fails with its instruction. -/
lemma turn_of_error {op : Opcode} {inline : Nat} {budget : Option Nat} {fault : Fault}
    (fetched : (i.inside i.depth [] next).fetch = .ok (op, inline, budget))
    (failed : { i with pc := next, budget }.execute op inline i.engine = .error fault e) :
    turn host again next i = some (.error fault, { i with pc := next, budget, engine := e }) := by
  simp only [turn, fetched, failed]

/-- A run goes on as its instruction tells. -/
lemma turn_of_ok {op : Opcode} {inline : Nat} {budget : Option Nat} {control : Control}
    (fetched : (i.inside i.depth [] next).fetch = .ok (op, inline, budget))
    (executed : { i with pc := next, budget }.execute op inline i.engine = .ok control e) :
    turn host again next i =
      proceed host again op { i with pc := next, budget, engine := e } control := by
  simp only [turn, fetched, executed]

/-- One instruction, with what comes after it, corresponds to a step of a session and what comes
after that. -/
lemma Faithful.turn (faithful : Faithful host fuel again) :
    Faithful host (fuel + 1) (turn host again) := by
  intro base loops callers next i level calm
  refine .step ?_
  let s : Session := ⟨i.engine, i.inside base loops next, callers⟩
  change Mirrors host fuel (s.step, i.host) _ _ _
  cases fetched : s.current.fetch with
  | error fault =>
    rw [Session.step_of_fetch_error fetched, turn_of_fetch_error fetched]
    exact .here (.error ⟨level.depth, level.loops⟩ calm) rfl
  | ok instruction =>
    obtain ⟨op, inline, budget⟩ := instruction
    let j : Interpreter σ := { i with pc := next, budget }
    have executing : (s.executing budget).execute op inline = j.execute op inline :=
      execute_inside (i := j) ⟨level.depth, level.loops⟩ op inline
    rw [Session.step_of_fetch fetched, executing]
    cases executed : j.execute op inline s.engine with
    | error fault e =>
      rw [turn_of_error fetched executed]
      exact .here (.error ⟨level.depth, level.loops⟩ calm) rfl
    | ok control e =>
      rw [turn_of_ok fetched executed]
      refine faithful.proceed (i := { j with engine := e })
        ⟨level.depth, level.loops⟩ calm op control ?_
      rintro how rfl
      have directs := Activation.directs_of_ok ((congrFun executing s.engine).trans executed)
      exact directs.imp_left And.right

/-- Runs inside of any loops correspond to the part of a session until the body is over, whatever
the host does and however long they take. -/
lemma faithful_run (host : Host σ) (fuel : Nat) : Faithful host fuel (run host fuel) := by
  induction fuel with
  | zero => exact fun base loops callers next i level calm => ⟨0, le_rfl, trivial⟩
  | succ fuel ih => exact ih.turn

/-! ## Coming back -/

/-- The loops around a run that has ended correspond to the rest of a session. -/
lemma Faithful.comeBack (faithful : Faithful host fuel again) {y}
    (returned : Returned base loops y) :
    Mirrors host fuel (land base loops callers y) (Returned base []) (land base [] callers)
      (comeBack again loops y) := by
  induction loops generalizing y with
  | nil => exact .here returned rfl
  | cons l loops ih =>
    have goesOn : GoesOn host fuel base loops callers l
        (Interpreter.forEach (again l.body) l.rest) := by
      intro j level calm frame
      obtain ⟨rest, outer, body, exit⟩ := l
      obtain rfl : j.frame = outer := frame
      exact faithful.forEach body exit rest level calm
    exact ((goesOn.settleLap returned).bind fun z left => faithful.settleLoop l.exit left).bind
      fun z => ih

/-- What is still to be done by the runs inside of each other corresponds to the rest of a session,
whatever the host does. -/
theorem mirrors_resume (host : Host σ) (fuel : Nat) (s : Session) (x : σ) :
    Mirrors host fuel (.running (.run s), x) (Returned s.current.base [])
      (fun y => (Session.conclude s.callers (close y).1 (close y).2.1, (close y).2.2))
      (resume host fuel s.current s.engine x) := by
  have inner := faithful_run host fuel s.current.base s.current.loops s.callers s.current.next
    (ofActivation s.current s.engine x) ⟨rfl, rfl⟩ rfl
  have outer := inner.bind fun y => (faithful_run host fuel).comeBack
  have ended : Mirrors host fuel (.running (.run s), x) (Returned s.current.base [])
      (fun y => (Session.conclude s.callers (close y).1 (close y).2.1, (close y).2.2))
      ((resume host fuel s.current s.engine x).map id) :=
    outer.map (fun y returned => returned) fun y returned => land_outermost returned
  rw [Option.map_id] at ended
  exact ended

/-- Where a session is answered, the runs inside of each other end, with no address left behind. -/
theorem resume_of_answered {host s}
    (answered : ¬ ((Progress.under host)^[fuel] (.running (.run s), x)).1.Open) :
    ∃ y, resume host fuel s.current s.engine x = some y ∧ Returned s.current.base [] y :=
  (mirrors_resume host fuel s x).ends_of_answered answered

/-- Where a fiber has changed its state, all loops are left, and nothing else is done before the run
goes on in the state. -/
lemma comeBack_of_unwinding {address} (level : i.Level base loops.length)
    (unwinding : i.unwinding = some address) (inner : loops ≠ []) :
    comeBack again loops (.ok .bodyEnd, i) =
      again address { i with
        engine := (Activation.unwindLoops loops i.frame i.engine).2
        frame := (Activation.unwindLoops loops i.frame i.engine).1
        depth := base, loops := 0, unwinding := none } := by
  induction loops generalizing i with
  | nil => exact absurd rfl inner
  | cons l loops ih =>
    let j := (endLap l.outer i.ascend).abandon l.rest
    have depth : j.depth = base + loops.length := Nat.sub_eq_of_eq_add level.depth
    have counted : j.loops = loops.length := Nat.sub_eq_of_eq_add level.loops
    have left : (endLap l.outer i.ascend).unwinding = some address := unwinding
    have left' : j.unwinding = some address := unwinding
    have gone : comeBack again (l :: loops) (.ok .bodyEnd, i) =
        (settleLoop again l.exit (.ok none, j)).bind (comeBack again loops) := by
      rw [comeBack]
      exact congrArg (fun o : Ending σ (Option RunEnd) =>
        (o.bind (settleLoop again l.exit)).bind (comeBack again loops))
          (settleLap_of_unwinding left)
    rw [gone, settleLoop, left']
    dsimp only
    cases loops with
    | nil =>
      rw [if_neg (counted ▸ Nat.lt_irrefl 0)]
      change Option.bind _ some = _
      rw [Option.bind_fun_some, depth, counted]
      rfl
    | cons l' loops =>
      rw [if_pos (counted ▸ Nat.succ_pos _)]
      exact ih ⟨depth, counted⟩ left' (List.cons_ne_nil _ _)

/-- The runs inside of each other that a session stands for go on with the first instruction of a
state, like the one run that another session stands for. -/
structure Enters (host : Host σ) (s : Session) (x : σ) (address : Nat) (entered : Session) :
    Prop where
  /-- In loops the innermost run ends as if its body were over, and leaves the address behind. No
  loop does anything but to come to its end, and the outermost run takes the address back. -/
  inside : s.current.loops ≠ [] → ∃ i : Interpreter σ, i.unwinding = some address ∧
    (∀ fuel, run host (fuel + 1) s.current.next (ofActivation s.current s.engine x) =
      some (.ok .bodyEnd, i)) ∧
    ∀ again, comeBack again s.current.loops (.ok .bodyEnd, i) =
      again address (ofActivation entered.current entered.engine x)
  /-- Outside of loops the run goes on at once. -/
  outside : s.current.loops = [] → ∀ fuel,
    run host (fuel + 1) s.current.next (ofActivation s.current s.engine x) =
      run host fuel address (ofActivation entered.current entered.engine x)
  /-- What is done from then on corresponds to the rest of the session. -/
  mirrors : ∀ fuel, Mirrors host fuel (.running (.run s), x) (Returned s.current.base [])
    (fun y => (Session.conclude s.callers (close y).1 (close y).2.1, (close y).2.2))
    (resume host fuel s.current s.engine x)

/-- A change of the state leads the runs inside of each other to the same place as the session. -/
lemma enters_of_executed {s : Session} {inline address budget}
    (fetched : s.current.fetch = .ok (.gotoState, inline, budget))
    (executed : (s.executing budget).execute .gotoState inline s.engine = .ok (.enter address) e)
    (host : Host σ) (x : σ) :
    Enters host s x address ⟨(Activation.unwindLoops s.current.loops s.current.frame e).2,
      { s.executing budget with
        frame := (Activation.unwindLoops s.current.loops s.current.frame e).1
        loops := [], continuation := none, next := address }, s.callers⟩ := by
  let i : Interpreter σ := ofActivation (s.executing budget) s.engine x
  have executed' : i.execute .gotoState inline s.engine = .ok (.enter address) e :=
    (congrFun (execute_inside (i := i) ⟨rfl, rfl⟩ .gotoState inline) s.engine).symm.trans executed
  have turned : ∀ fuel, run host (fuel + 1) s.current.next (ofActivation s.current s.engine x) =
      proceed host (run host fuel) .gotoState { i with engine := e } (.enter address) :=
    fun fuel => turn_of_ok fetched executed'
  constructor
  case inside =>
    intro inner
    have counted : 0 < i.loops := List.length_pos_iff.2 inner
    refine ⟨{ i with engine := e, continuation := none, unwinding := some address }, rfl, ?_, ?_⟩
    · exact fun fuel => (turned fuel).trans (if_pos counted)
    · exact fun again => comeBack_of_unwinding ⟨rfl, rfl⟩ rfl inner
  case outside =>
    intro outermost fuel
    have counted : s.current.loops.length = 0 := congrArg List.length outermost
    have kept : Activation.unwindLoops s.current.loops s.current.frame e =
        (s.current.frame, e) := by
      rw [outermost]
      rfl
    have outside : ¬ 0 < s.current.loops.length := counted ▸ Nat.lt_irrefl 0
    refine (turned fuel).trans ((if_neg outside).trans (congrArg (run host fuel address) ?_))
    rw [kept]
    change ({ ofActivation (s.executing budget) e x with
      depth := s.current.base + s.current.loops.length
      loops := s.current.loops.length
      continuation := none } : Interpreter σ) = _
    rw [counted]
    rfl
  case mirrors => exact fun fuel => mirrors_resume host fuel s x

end Interpreter

end FiberVM
