import FiberVM.Proofs.World.Brackets
import FiberVM.Proofs.World.Nesting

/-!
# Changes of state

The frame outside of all loops of a run is what its fiber was launched with (`Activation.Rooted`),
whatever happens to the run. So a run that changes its state inside of loops goes on as it would
outside of them (`World.gotoState_leaves_loops`), be it a session that leaves all loops at once or
runs inside of each other that end one after the other (`Interpreter.Enters`).
-/

namespace FiberVM

open Engine

variable {c : Conduct} {source : String → Option Image} {config : Config} {e e' : Engine}
  {a a' : Activation} {callers : Callers} {p : Progress} {s : Session} {w w' : World}
  {calls : List (HostCall × Session)} {H : Multiset Ref} {y : Failure} {closes : FiberId → Prop}

namespace Activation

/-- The frame outside of all loops is what the fiber was launched with. -/
structure Rooted (e : Engine) (a : Activation) : Prop where
  issued : a.fiber.id < e.fibers.next
  arguments : ∀ x, e.fiber? a.fiber = some x → frameOutside a.loops a.frame = x.arguments

/-- It is the same run, with the same frame outside of all loops. -/
structure SameRoot (a a' : Activation) : Prop where
  fiber : a'.fiber = a.fiber
  frame : frameOutside a'.loops a'.frame = frameOutside a.loops a.frame

lemma Rooted.same (rooted : a.Rooted e) (same : a.SameRoot a') : a'.Rooted e where
  issued := same.fiber ▸ rooted.issued
  arguments x found := same.frame.trans (rooted.arguments x (same.fiber ▸ found))

/-- Fibers keep their arguments. -/
lemma Rooted.guards (rooted : a.Rooted e) (guards : Guards closes e e') : a.Rooted e' where
  issued := rooted.issued.trans_le guards.next
  arguments y found := by
    obtain ⟨x, found', same, -⟩ := guards.kept rooted.issued found
    exact (rooted.arguments x found').trans same.symm

lemma rooted_of_begin {f continuation depth start}
    (begun : begin f continuation depth start e = .ok a e') : a.Rooted e' := by
  obtain ⟨x, found, rfl, frame, loops, same, -⟩ := begin_ok begun
  have found' : e'.fiber? a.fiber = some x := fiber?_congr same a.fiber ▸ found
  refine ⟨lt_next_of_isSome (found' ▸ rfl), fun y there => ?_⟩
  cases found'.symm.trans there
  rw [loops, frame]
  rfl

/-- Whether a loop goes on or is over, the frame outside of it is kept. -/
lemma Iterates.sameRoot {l} (iterates : a.Iterates l e (.ok a' e')) (outer : l.outer = a.frame) :
    a.SameRoot a' := by
  cases iterates with
  | past => exact ⟨rfl, rfl⟩
  | body => exact ⟨rfl, congrArg (frameOutside a.loops) outer⟩

end Activation

namespace World

/-- All runs have the arguments of their fibers outside of their loops. -/
def Rooted (w : World) : Prop := ∀ a ∈ w.activations, a.Rooted w.engine

end World

/-! ## Runs keep their arguments -/

namespace Session

/-- What is below a run that fails in a step was there before. -/
lemma Faults.activations (faults : s.Faults y) :
    ∃ budget, y.progress.activations <:+ (s.executing budget).waiting :: s.callers.activations := by
  have left : y.progress.activations <:+ y.callers.activations :=
    (unwinds_conclude (P := .nothing) _ _ _).activations
  cases faults with
  | fetch | execute | loop | body => exact ⟨none, left.trans (List.suffix_cons _ _)⟩
  | begin => exact ⟨_, left⟩
  | ended fetched executed ends callers failed =>
    refine ⟨none, left.trans ?_⟩
    rw [callers]
    exact (List.suffix_cons _ _).trans (List.suffix_cons _ _)

/-- Each run after a step is a new one, or it was there before. -/
lemma Steps.rooted (steps : s.Steps p) :
    ∀ a ∈ p.activations, a.Rooted p.engine ∨ ∃ b ∈ s.current :: s.callers.activations,
      b.SameRoot a := by
  have old : ∀ {a : Activation}, a ∈ s.callers.activations →
      ∃ b ∈ s.current :: s.callers.activations, b.SameRoot a :=
    fun {a} member => ⟨a, List.mem_cons_of_mem _ member, rfl, rfl⟩
  have own : ∀ {a : Activation}, s.current.SameRoot a → ∃ b ∈ s.current :: s.callers.activations,
      b.SameRoot a :=
    fun same => ⟨s.current, List.mem_cons_self, same⟩
  -- the run that executes the instruction, with those below it
  have waiting : ∀ {b : Activation}, s.current.SameRoot b → ∀ a ∈ b :: s.callers.activations,
      a.Rooted p.engine ∨ ∃ b ∈ s.current :: s.callers.activations, b.SameRoot a := by
    intro b same a member
    rcases List.mem_cons.1 member with rfl | member
    · exact .inr (own same)
    · exact .inr (old member)
  cases steps with
  | on => exact waiting ⟨rfl, rfl⟩
  | await => exact waiting ⟨rfl, rfl⟩
  | @enter inline address budget e fetched executed =>
    exact waiting ⟨rfl, Activation.unwindLoops_fst s.current.loops s.current.frame e⟩
  | @loop inline exit budget elements e e' a fetched executed iterated =>
    have iterates := (s.executing budget).iterates ⟨elements, s.current.frame, s.current.next + 2,
      exit⟩ e
    rw [iterated] at iterates
    have same := iterates.sameRoot rfl
    exact waiting ⟨same.fiber, same.frame⟩
  | @again inline budget l loops e a fetched inside iterated =>
    have iterates := { s.executing budget with frame := l.outer, loops }.iterates l
      (s.engine.releaseAll s.current.frame)
    rw [iterated] at iterates
    have same := iterates.sameRoot rfl
    refine waiting ⟨same.fiber, same.frame.trans ?_⟩
    rw [inside]
    rfl
  | @launch inline budget made e e' b fetched executed begun =>
    intro a member
    rcases List.mem_cons.1 member with rfl | member
    · exact .inl (Activation.rooted_of_begin begun)
    · have same : s.current.SameRoot (s.executing budget).waiting := ⟨rfl, rfl⟩
      exact waiting same a member
  | @finish op inline budget control how e fetched executed ends state =>
    intro a member
    have left := (unwinds_finish (P := .nothing)
      (s.executing budget) s.callers how e).activations.subset member
    exact .inr (old left)
  | fault faults =>
    obtain ⟨budget, left⟩ := faults.activations
    have same : s.current.SameRoot (s.executing budget).waiting := ⟨rfl, rfl⟩
    exact fun a member => waiting same a (left.subset member)

end Session

namespace World

/-- Runs keep the arguments of their fibers. -/
lemma Move.rooted (move : Move c w w') (rooted : w.Rooted) : w'.Rooted := by
  have guards := move.guards
  -- runs that were there before keep their arguments
  have kept : ∀ {a b : Activation}, b ∈ w.activations → b.SameRoot a → a.Rooted w'.engine :=
    fun member same => ((rooted _ member).guards guards).same same
  intro a member
  rcases move.mem_activations member with there | begun | ⟨s, calls, H, rfl, own, stepped⟩
  · exact kept there ⟨rfl, rfl⟩
  · obtain ⟨_, _, _, _, _, begun⟩ := begun
    exact Activation.rooted_of_begin begun
  · rcases (Session.steps s).rooted a own with fresh | ⟨b, there, same⟩
    · exact stepped ▸ fresh
    · exact kept (List.mem_append_left _ there) same

lemma Reachable.rooted (reached : Reachable c source config w) : w.Rooted := by
  induction reached with
  | refl => exact List.forall_mem_nil _
  | tail _ move ih => exact move.rooted ih

end World

/-! ## Entering a state -/

/-- The state that a value stands for, by its name or its number. -/
def Image.stateOf? (i : Image) : Value → Option Nat
  | .string name => i.stateIndex? name
  | v => v.toIndex?

/-- A change of the state pops what stands for the state. The stack is otherwise as before, and the
fiber is no longer suspended. -/
lemma Activation.gotoState_ok {address} (entered : a.gotoState e = .ok address e') :
    ∃ x r stack v index, e.fiber? a.fiber = some x ∧ x.stack = some r :: stack ∧
      e.heap.get? r = some v ∧
      a.image.stateOf? v = some index ∧ a.image.stateAddress? index = some address ∧
      e'.fiber? a.fiber = some { x with stack, state := index, suspended := none } := by
  obtain ⟨named, e₁, popped, entering⟩ := ok_of_bind entered
  obtain ⟨x, r, stack, v, found, top, holds, viewed, rfl⟩ := Operand.popAs_ok popped
  obtain ⟨index, e₂, known, finding⟩ := ok_of_bind entering
  obtain ⟨rfl, rfl⟩ := orFault_ok known
  obtain ⟨address', e₃, located, cancelling⟩ := ok_of_bind finding
  obtain ⟨there, rfl⟩ := orFault_ok located
  obtain ⟨_, e₄, cancelled, changing⟩ := ok_of_bind cancelling
  cases cancelled
  obtain ⟨x', e₅, looked, changed⟩ := ok_of_bind changing
  obtain ⟨found', rfl⟩ := fiber_ok looked
  cases changed
  -- up to here only the stack of the fiber has changed
  have popped' : (e.setFiber a.fiber { x with stack }).fiber? a.fiber = some { x with stack } :=
    (fiber?_setFiber found).trans (if_pos rfl)
  cases popped'.symm.trans found'
  refine ⟨x, r, stack, v, index, found, top, holds, ?_, there,
    (fiber?_setFiber found').trans (if_pos rfl)⟩
  cases v <;> exact Option.some.inj viewed

namespace World

/-- A change of the state in any number of loops leads to the same place as outside of them: the run
goes on with the first instruction of the state, in no loop and with the arguments of its fiber as
the frame. The next instruction that is executed is that one. What stood for the state was popped
off the stack, and the loops have given up what they held, but nothing else is different from a
change of the state outside of loops. Runs inside of each other, each of which ends as if its body
were over, come to the same place. -/
theorem gotoState_leaves_loops {inline : Nat} {budget : Option Nat} {control : Control}
    (reached : Reachable c source config (work (.run s) calls H))
    (fetched : s.current.fetch = .ok (.gotoState, inline, budget))
    (executed : (s.executing budget).execute .gotoState inline s.engine = .ok control e) :
    ∃ x r stack v index address, s.engine.fiber? s.current.fiber = some x ∧
      x.stack = some r :: stack ∧
      s.engine.heap.get? r = some v ∧ s.current.image.stateOf? v = some index ∧
      s.current.image.stateAddress? index = some address ∧ control = .enter address ∧
      e.fiber? s.current.fiber = some { x with stack, state := index, suspended := none } ∧
      let outermost : Activation := { s.current with frame := x.arguments, loops := [] }
      let entered : Activation :=
        { s.executing budget with
          frame := x.arguments, loops := [], continuation := none, next := address }
      { s with current := outermost }.step = .running (.run ⟨e, entered, s.callers⟩) ∧
        entered.depth = s.current.base ∧
        ∃ heap, (Activation.unwindLoops s.current.loops s.current.frame e).2 = { e with heap } ∧
          s.step = .running (.run ⟨{ e with heap }, entered, s.callers⟩) ∧
          (after calls H s.step).height = (work (.run s) calls H).height ∧
          (∀ {σ : Type} (host : Host σ) (known : σ),
            Interpreter.Enters host { s with current := outermost } known address
              ⟨e, entered, s.callers⟩ ∧
            Interpreter.Enters host s known address ⟨{ e with heap }, entered, s.callers⟩) ∧
          ∀ w, Move c (after calls H s.step) w →
            w = after calls H (Session.step ⟨{ e with heap }, entered, s.callers⟩) := by
  obtain ⟨address, e₁, entered, returned⟩ := ok_of_bind executed
  cases returned
  obtain ⟨x, r, stack, v, index, found, top, holds, named, there, left⟩ :=
    Activation.gotoState_ok entered
  refine ⟨x, r, stack, v, index, address, found, top, holds, named, there, rfl, left, ?_⟩
  have frame : Activation.frameOutside s.current.loops s.current.frame = x.arguments :=
    (reached.rooted s.current List.mem_cons_self).arguments x found
  obtain ⟨heap, unwound⟩ := Activation.unwindLoops_snd s.current.loops s.current.frame e
  have unwinds : Activation.unwindLoops s.current.loops s.current.frame e =
      (x.arguments, { e with heap }) :=
    Prod.ext ((Activation.unwindLoops_fst _ _ e).trans frame) unwound
  -- neither what is fetched nor what the instruction does depends on the loops
  have outside : ({ s with current := { s.current with frame := x.arguments, loops := [] } } :
    Session).step =
      .running (.run ⟨e, { s.executing budget with
        frame := x.arguments, loops := [], continuation := none, next := address },
          s.callers⟩) := by
    let outermost : Session :=
      { s with current := { s.current with frame := x.arguments, loops := [] } }
    have fetched' : outermost.current.fetch = .ok (.gotoState, inline, budget) := fetched
    have executed' : (outermost.executing budget).execute .gotoState inline s.engine =
        .ok (.enter address) e :=
      executed
    change outermost.step = _
    rw [Session.step_of_fetch fetched', executed']
    rfl
  have inside : s.step = .running (.run ⟨{ e with heap }, { s.executing budget with
      frame := x.arguments, loops := [], continuation := none, next := address }, s.callers⟩) := by
    rw [Session.step_of_fetch fetched, executed]
    change Progress.running (.run ⟨(Activation.unwindLoops s.current.loops s.current.frame e).2,
      { s.executing budget with
        frame := (Activation.unwindLoops s.current.loops s.current.frame e).1
        loops := [], continuation := none, next := address }, s.callers⟩) = _
    rw [unwinds]
  refine ⟨outside, rfl, heap, unwound, inside, ?_⟩
  rw [inside]
  refine ⟨rfl, fun host known => ⟨?_, ?_⟩, fun w move => ?_⟩
  · exact Interpreter.enters_of_executed
      (s := { s with current := { s.current with frame := x.arguments, loops := [] } })
      fetched executed host known
  · have enters := Interpreter.enters_of_executed fetched executed host known
    rw [unwinds] at enters
    exact enters
  · cases move
    rfl

/-- A machine that changes its state in a loop in a loop. -/
def gotoInNestedLoops : Image where
  name := "gotoInNestedLoops"
  words := #[.plain .pushInt, ⟨1⟩, .plain .forEach, ⟨13⟩, .plain .pushInt, ⟨1⟩, .plain .forEach,
    ⟨12⟩,
    .plain .pushInt, ⟨1⟩, .plain .gotoState, .plain .endBody, .plain .endBody, .plain .endState,
    .plain .suspend, .plain .endState]
  states := [⟨0, 0⟩, ⟨1, 14⟩]
  locals := []
  shared := []
  strings := ⟨#[97, 0, 98, 0], #[0, 2]⟩

/-- A fiber of that machine that is about to change its state. -/
def beforeNestedGoto : Session where
  engine :=
    (((Engine.create (fun _ => some gotoInNestedLoops) {}).launch "gotoInNestedLoops").run 5).engine
  current :=
    { fiber := ⟨0⟩
      machine := "gotoInNestedLoops"
      image := gotoInNestedLoops
      cell := ⟨0⟩
      continuation := none
      frame := [⟨4⟩]
      loops := [⟨.count 1 1, [⟨2⟩], 8, 12⟩, ⟨.count 1 1, [], 4, 13⟩]
      base := 0
      budget := none
      pc := 8
      next := 10 }
  callers := .launch ⟨0⟩ ⟨0⟩

/-- The fiber leaves both loops and goes on at the address of the state. The innermost of three runs
inside of each other ends as if its body were over, and the outermost one goes on at that
address. -/
theorem gotoState_leaves_loops_beforeNestedGoto :
    Reachable .owning (fun _ => some gotoInNestedLoops) {} (work (.run beforeNestedGoto) [] 0) ∧
      beforeNestedGoto.current.loops.length = 2 ∧ ∃ e,
        let entered : Activation :=
          { beforeNestedGoto.current with frame := [], loops := [], pc := 10, next := 14 }
        beforeNestedGoto.step = .running (.run ⟨e, entered, .launch ⟨0⟩ ⟨0⟩⟩) ∧
        ∀ host : Host Unit, ∃ i : Interpreter Unit, i.unwinding = some 14 ∧
          (∀ fuel, Interpreter.run host (fuel + 1) beforeNestedGoto.current.next
            (.ofActivation beforeNestedGoto.current beforeNestedGoto.engine ()) =
              some (.ok .bodyEnd, i)) ∧
          ∀ again, Interpreter.comeBack again beforeNestedGoto.current.loops (.ok .bodyEnd, i) =
            again 14 (.ofActivation entered e ()) := by
  have reached : Reachable .owning (fun _ => some gotoInNestedLoops) {}
      (work (.run beforeNestedGoto) [] 0) :=
    Reaches.request .refl (.launch "gotoInNestedLoops") 5
  have fetched : beforeNestedGoto.current.fetch = .ok (.gotoState, 0, none) := by decide +kernel
  obtain ⟨e, executed⟩ : ∃ e, (beforeNestedGoto.executing none).execute .gotoState 0
      beforeNestedGoto.engine = .ok (.enter 14) e := ⟨_, rfl⟩
  have bare : (beforeNestedGoto.engine.fiber? ⟨0⟩).map (·.arguments) = some [] := by decide +kernel
  obtain ⟨x, r, stack, v, index, address, found, -, -, -, -, enters, -, -, -, heap, -, stepped, -,
    nested, -⟩ := gotoState_leaves_loops reached fetched executed
  cases enters
  have arguments : x.arguments = [] := by
    rw [show beforeNestedGoto.engine.fiber? ⟨0⟩ = some x from found] at bare
    exact Option.some.inj bare
  rw [arguments] at stepped nested
  exact ⟨reached, rfl, _, stepped, fun host => (nested host ()).2.inside (List.cons_ne_nil _ _)⟩

end World

end FiberVM
