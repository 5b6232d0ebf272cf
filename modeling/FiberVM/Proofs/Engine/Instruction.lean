import FiberVM.Proofs.Engine.Activation
import FiberVM.Proofs.Engine.Lookup
import FiberVM.Proofs.Engine.Operand
import FiberVM.Proofs.Engine.Spawn

/-!
# What instructions do to an engine

Every instruction leaves the hand as it is, but for what its control flow takes along: the elements
of a loop, or the reference to the cell of a fiber that was launched. This holds whether the
instruction succeeds or fails. The host is called only if it has added functions.

After a fiber has changed its state, nothing waits on the agenda for it.
-/

namespace FiberVM

open Engine

namespace Activation

variable {c : Conduct} {scene : Scene} {crew : List (FiberId × Ref)} {K L : Multiset Ref}
  {a : Activation}

/-! ## Small instructions -/

lemma runs_operand {P : Engine → Prop} : Runs c P a.operand (fun _ => P) P :=
  (runs_orFault rfl fun _ hs => hs).post fun _ _ hs => hs.1

lemma runs_address {P : Engine → Prop} : Runs c P a.address (fun _ => P) P :=
  runs_operand.bind fun _ => .pure fun _ hs => hs

lemma runs_string {P : Engine → Prop} (index : Nat) : Runs c P (a.string index) (fun _ => P) P :=
  (runs_orFault rfl fun _ hs => hs).post fun _ _ hs => hs.1

lemma runs_moveToReceivers (member : a.fiber ∈ scene.crew.map (·.1)) :
    Runs c (Sound c scene K L) a.moveToReceivers (fun _ => Sound c scene K L)
      (Sound c scene K L) := by
  refine (Operand.runs_pop member).bind fun r => (runs_fiber member).bind fun x => .modify ?_
  rintro e ⟨ok, hx⟩
  refine ⟨.of_same rfl rfl rfl, ok.setFiber hx rfl (fun _ builtin => builtin) ?_ rfl⟩
  simp only [Fiber.refs, ← Multiset.cons_coe, ← Multiset.singleton_add]
  abel

/-- The top of the stack is duplicated soundly. -/
lemma runs_duplicate (member : a.fiber ∈ scene.crew.map (·.1)) :
    Runs c (Sound c scene K L) a.duplicate (fun _ => Sound c scene K L) (Sound c scene K L) := by
  refine (runs_fiber member).bind fun x => ?_
  split
  case h_1 r rest found =>
    refine (Operand.runs_pushRetained member).pre ?_
    rintro e ⟨ok, hx⟩
    refine ⟨ok, ok.live_of_held (mem_held_of_fiber hx ?_)⟩
    refine Multiset.mem_add.2 (.inl (Multiset.mem_add.2 (.inl ?_)))
    rw [found]
    exact List.mem_filterMap.2 ⟨some r, List.mem_cons_self, rfl⟩
  case h_2 => exact .throw (fun _ => rfl) fun _ hs => hs.1

lemma runs_suspend (member : a.fiber ∈ scene.crew.map (·.1)) :
    Runs c (Sound c scene K L) a.suspend (fun _ => Sound c scene K L) (Sound c scene K L) := by
  refine (runs_fiber member).bind fun x => .modify ?_
  rintro e ⟨ok, hx⟩
  exact ⟨.of_same rfl rfl rfl, ok.setFiber hx rfl (fun _ builtin => builtin) rfl rfl⟩

/-! ## The agenda -/

/-- Changing the state cancels everything that the fiber waits for. -/
lemma runs_gotoState (member : a.fiber ∈ scene.crew.map (·.1)) :
    Runs c (Sound c scene K L) a.gotoState
      (fun _ e => e.Sound c scene K L ∧ e.Unawaited a.fiber) (Sound c scene K L) := by
  refine (Operand.runs_popAs member rfl).bind fun index => ?_
  refine (runs_orFault rfl fun _ ok => ok).bind fun index => ?_
  refine (runs_orFault rfl fun _ hs => hs.1).bind fun address => ?_
  have cancelled : Turns (Precedes c) (Sound c scene K L)
      (fun e => { e with agenda := (e.agenda.cancelFiber a.fiber).2 }.releaseAll
        (e.agenda.cancelFiber a.fiber).1)
      (fun e => e.Sound c scene K L ∧ e.Unawaited a.fiber) := by
    intro e ok
    obtain ⟨related, ok'⟩ := ok.sheds (.call (.cancelFiber a.fiber) _)
      (e.agenda.sheds_cancelFiber a.fiber)
    obtain ⟨related', ok''⟩ := turns_releaseAll _ _ ok'
    exact ⟨related.trans related', ok'', Agenda.bond?_cancelFiber ok.indexed a.fiber⟩
  refine ((Triple.modify cancelled).pre fun e hs => hs.1.1).bind fun _ => ?_
  have looked : Runs c (fun e => e.Sound c scene K L ∧ e.Unawaited a.fiber)
      (EngineM.fiber a.fiber)
      (fun x e => (e.Sound c scene K L ∧ e.fiber? a.fiber = some x) ∧ e.Unawaited a.fiber)
      (Sound c scene K L) := by
    refine (runs_fiber member).frame fun s x t run unawaited => ?_
    unfold EngineM.fiber at run
    split at run <;> cases run
    exact unawaited
  refine looked.bind fun x => Triple.bind (.modify ?_) fun _ => .pure fun _ hs => hs
  rintro e ⟨⟨ok, hx⟩, unawaited⟩
  exact ⟨.of_same rfl rfl rfl, ok.setFiber hx rfl (fun _ builtin => builtin) rfl rfl, unawaited⟩

/-- A continuation that is registered holds a reference to the cell of the fiber. -/
lemma runs_register (member : (a.fiber, a.cell) ∈ scene.crew) (held : a.cell ∈ K)
    (condition : Condition) (pc : Nat) :
    Runs c (Sound c scene K L) (a.register condition pc) (fun _ => Sound c scene K L)
      (Sound c scene K L) := by
  refine (runs_retain.pre fun e ok => ⟨ok, ok.live_of_mem held⟩).bind fun _ => ?_
  refine Triple.get.bind fun seen => ?_
  split
  case h_1 id agenda registered =>
    rintro e ⟨ok, rfl⟩
    exact ok.gains (Agenda.evolves_register registered) (Agenda.gains_register registered) fun hc =>
      (ok.consistent hc).crew _ member
  case h_2 err refused =>
    obtain ⟨list, rfl⟩ := Agenda.register_error refused
    refine (Triple.modify ?_).bind fun _ => .throw (fun _ => rfl) fun _ ok => ok
    exact fun e hs => turns_release a.cell e hs.1

/-! ## Loops and launches -/

/-- A loop holds each element of its value. -/
lemma runs_generator (v : Value) :
    Heap.Runs c (fun h => h.Sound c K L ∧ ∀ r ∈ v.refs, h.Live c r) (generator v)
      (fun elements h => h.Sound c ((elements.refs : Multiset Ref) + K) L) (Heap.Sound c K L) := by
  unfold generator
  split
  case h_1 elements =>
    rintro h ⟨ok, live⟩
    refine ((Heap.runs_retainAll (d := h.directory)).bind fun _ => .pure fun h hs => ?_) h
      ⟨⟨ok, rfl⟩, live⟩
    exact hs.1
  case h_2 n => exact .pure fun h hs => hs.1.cast (zero_add K).symm rfl
  case h_3 => exact .throw (fun _ => rfl) fun h hs => hs.1

/-- A loop takes its value from the stack. -/
lemma runs_popGenerator (member : a.fiber ∈ scene.crew.map (·.1)) :
    Runs c (Sound c scene K L) a.popGenerator
      (fun elements => Sound c scene ((elements.refs : Multiset Ref) + K) L)
        (Sound c scene K L) := by
  refine (Operand.runs_pop member).bind fun r => ?_
  have made : Runs c (Sound c scene ({r} + K) L)
      (EngineM.onHeap (do generator (← Heap.read r)))
      (fun elements => Sound c scene ((elements.refs : Multiset Ref) + ({r} + K)) L)
      (Sound c scene ({r} + K) L) := by
    refine (runs_onHeap (φ := fun _ => True) (ψ := fun _ _ => True) fun M N => ?_).conseq
      (fun _ ok => ⟨ok, trivial⟩) (fun _ _ hs => hs.1) fun _ ok => ok
    refine (Heap.runs_read.pre fun h hs => ⟨hs.1, hs.1.live_of_mem (by simp)⟩).bind fun v => ?_
    refine (runs_generator v).conseq ?_ ?_ fun _ ok => ok
    · rintro h ⟨ok, value⟩
      exact ⟨ok, fun s hs => ok.live_of_get? value hs⟩
    · exact fun elements h ok => ⟨ok.cast (add_assoc _ _ _).symm rfl, trivial⟩
  refine runs_ensure made (fun elements => ?_) (turns_release r)
  exact fun e ok => turns_release r e (ok.cast (add_left_comm _ _ _) rfl)

/-- A launch makes a fiber that is ready to run. -/
lemma runs_spawn (member : a.fiber ∈ crew.map (·.1)) :
    Runs c (Sound c ⟨crew, []⟩ K L) a.spawn (Spawned.Ready c crew K L)
      (Sound c ⟨crew, []⟩ K L) := by
  refine (Operand.runs_popAs member rfl).bind fun name => ?_
  refine (Operand.runs_popArguments member).bind fun arguments => ?_
  refine Triple.get.bind fun seen => ?_
  split
  case isTrue =>
    have given : Turns (Precedes c)
        (fun e => e.Sound c ⟨crew, []⟩ (arguments + K) L ∧ seen = e) (·.releaseAll arguments)
        (Sound c ⟨crew, []⟩ K L) := fun e hs => turns_releaseAll arguments e hs.1
    refine (Triple.modify given).bind fun _ => ?_
    exact fun e ok => ⟨.refl c e, fun _ => rfl, ok⟩
  case isFalse =>
    rintro e ⟨ok, -⟩
    have spawned := requests_spawn name arguments e ok
    dsimp only
    cases run : Engine.spawn name arguments e with
    | ok s e' =>
      rw [run] at spawned
      exact spawned
    | error err e' =>
      rw [run] at spawned
      cases err with
      | fault fault => exact ⟨spawned.1, spawned.2.1 fault rfl, spawned.2.2⟩
      | image d => exact ⟨spawned.1, fun _ => rfl, spawned.2.2⟩
      | agenda err => exact ⟨spawned.1, fun _ => rfl, spawned.2.2⟩
      | execution err => exact ⟨spawned.1, fun _ => rfl, spawned.2.2⟩

/-! ## Calls -/

/-- What is kept for a call is given up after it, and its results are pushed. -/
lemma runs_finishCall {fiber} {receiver : Option Ref} {args results}
    (member : fiber ∈ scene.crew.map (·.1)) (plain : c ≠ .free → ∀ v ∈ args, v.instance? = none)
    (called : Runs c (Sound c scene (Value.refsAll args + ((receiver.toList : List Ref) + K)) L)
      results (fun vs e =>
      (e.Sound c scene (Value.refsAll vs +
          (Value.refsAll args + ((receiver.toList : List Ref) + K))) L ∧
          (c ≠ .free → ∀ v ∈ vs, v.instance? = none)) ∧ (c = .owning → vs.length ≤ 1))
          (Sound c scene (Value.refsAll args + ((receiver.toList : List Ref) + K)) L)) :
    Runs c (Sound c scene (Value.refsAll args + ((receiver.toList : List Ref) + K)) L)
      (finishCall fiber receiver args results) (fun _ => Sound c scene K L)
        (Sound c scene K L) := by
  have given : ∀ M, Turns (Precedes c)
      (Sound c scene (Value.refsAll args + ((receiver.toList : List Ref) + M)) L)
      (fun e => (e.mapHeap (·.releaseValues args)).releaseAll receiver.toList)
      (Sound c scene M L) := fun M =>
    (turns_releaseValues plain).comp (turns_releaseAll receiver.toList)
  have returned : ∀ vs : List Value, Turns (Precedes c)
      (fun e => (e.Sound c scene
        (Value.refsAll vs + (Value.refsAll args + ((receiver.toList : List Ref) + K))) L ∧
          (c ≠ .free → ∀ v ∈ vs, v.instance? = none)) ∧ (c = .owning → vs.length ≤ 1))
      (fun e => (e.mapHeap (·.releaseValues args)).releaseAll receiver.toList)
      (fun e => (e.Sound c scene (Value.refsAll vs + K) L ∧
        (c ≠ .free → ∀ v ∈ vs, v.instance? = none)) ∧ (c = .owning → vs.length ≤ 1)) := by
    rintro vs e ⟨⟨ok, other⟩, few⟩
    obtain ⟨related, ok'⟩ := given (Value.refsAll vs + K) e (ok.cast (by abel) rfl)
    exact ⟨related, ⟨ok', other⟩, few⟩
  refine (runs_ensure called returned (given K)).bind fun vs => ?_
  exact .assume fun few => .assume fun other => Operand.runs_pushValues member other few

/-- A built-in function is carried out on what is in the hand. -/
lemma runs_callBuiltin (f : Native) (b : Builtin) {receiver args}
    (held : ∀ r, receiver = some r → r ∈ K) (owned : ∀ v ∈ args, ∀ r ∈ v.refs, r ∈ K) :
    Runs c (Sound c scene K L) (callBuiltin f b receiver args)
      (fun vs e => (e.Sound c scene (Value.refsAll vs + K) L ∧
        (c ≠ .free → ∀ v ∈ vs, v.instance? = none)) ∧ (c = .owning → vs.length ≤ 1))
      (Sound c scene K L) := by
  have ran : ∀ now, Runs c (Sound c scene K L)
    (EngineM.onHeap (f.runBuiltin b ⟨receiver, now⟩ args))
      (fun result e => e.Sound c scene (Value.refsAll result.1 + K) L ∧
        (∀ v ∈ result.1, v.instance? = none) ∧ result.1.length ≤ 1)
      (Sound c scene K L) := by
    intro now
    refine (runs_onHeap (φ := fun _ => True)
      (ψ := fun (result : List Value × Option String) _ =>
        (∀ v ∈ result.1, v.instance? = none) ∧ result.1.length ≤ 1)
      fun M N => ?_).pre fun _ ok => ⟨ok, trivial⟩
    refine (f.runs_runBuiltin b ?_ ?_).conseq (fun _ hs => hs.1) ?_ fun _ ok => ok
    · exact fun r hr => Multiset.mem_add.2 (.inl (held r hr))
    · exact fun v hv r hr => Multiset.mem_add.2 (.inl (owned v hv r hr))
    · rintro result h ⟨⟨ok, other⟩, few⟩
      exact ⟨ok.cast (add_assoc _ _ _).symm rfl, other, few⟩
  refine Triple.get.bind fun seen => ((ran seen.now).pre fun _ hs => hs.1).bind ?_
  rintro ⟨vs, line⟩
  refine Triple.bind (Q := fun _ e => e.Sound c scene (Value.refsAll vs + K) L ∧
    (∀ v ∈ vs, v.instance? = none) ∧ vs.length ≤ 1) (.modify ?_) fun _ => .pure fun e hs => ?_
  · rintro e ⟨ok, rest⟩
    exact ⟨.of_same rfl rfl rfl, ok.of_same rfl rfl rfl rfl rfl rfl rfl, rest⟩
  · exact ⟨⟨hs.1, fun _ => hs.2.1⟩, fun _ => hs.2.2⟩

/-- What is known of an engine after an instruction, by how the activation goes on. -/
def After (c : Conduct) (crew : List (FiberId × Ref)) (K L : Multiset Ref) (f : FiberId) :
    Control → Engine → Prop
  | .loop elements _, e => e.Sound c ⟨crew, []⟩ ((elements.refs : Multiset Ref) + K) L
  | .launch s, e => Spawned.Ready c crew K L s e
  | .await _, e => c = .free ∧ e.agenda.Indexed
  | .enter _, e => e.Sound c ⟨crew, []⟩ K L ∧ e.Unawaited f
  | _, e => e.Sound c ⟨crew, []⟩ K L

/-- The arguments of a call are copied and then given up. -/
lemma runs_copyArguments (receiver : Option Ref) (arguments : List Ref) :
    Runs c (Sound c scene (arguments + ((receiver.toList : List Ref) + K)) L)
      (((EngineM.onHeap (Heap.copyAll [] arguments)).ensure (·.releaseAll arguments)).onFault
        (·.releaseAll receiver.toList))
      (fun args e => e.Sound c scene (Value.refsAll args + ((receiver.toList : List Ref) + K)) L ∧
        ∀ v ∈ args, v.instance? = none) (Sound c scene K L) := by
  refine runs_onFault (runs_ensure (runs_copyAll ?_) (fun args => ?_)
    (turns_releaseAll arguments)) (turns_releaseAll receiver.toList)
  · exact fun r hr => Multiset.mem_add.2 (.inl hr)
  · rintro e ⟨ok, plain⟩
    obtain ⟨related, ok'⟩ := turns_releaseAll arguments e (ok.cast (add_left_comm _ _ _) rfl)
    exact ⟨related, ok', plain⟩

/-- A call of a native function uses up the receiver and the arguments. -/
lemma runs_callNative (member : a.fiber ∈ crew.map (·.1)) (f : Native) (receiver : Option Ref)
    (arguments : List Ref) (builtin : c ≠ .free → f.isBuiltin = true) :
    Runs c (Sound c ⟨crew, []⟩ (arguments + ((receiver.toList : List Ref) + K)) L)
      (a.callNative f receiver arguments) (After c crew K L a.fiber) (Sound c ⟨crew, []⟩ K L) := by
  refine (runs_copyArguments receiver arguments).bind fun args => .assume fun plain => ?_
  split
  case h_1 fault _ wrong =>
    refine (runs_finishCall member (fun _ => plain) ?_).bind fun _ => .pure fun _ ok => ok
    exact .throw (Signature.fault?_allowed wrong) fun _ ok => ok
  case h_2 number _ body =>
    refine .pure fun e ok => ⟨?_, ok.indexed⟩
    by_contra hc
    have := builtin hc
    simp [Native.isBuiltin, body] at this
  case h_3 b _ body =>
    refine (runs_finishCall member (fun _ => plain) ?_).bind fun _ => .pure fun _ ok => ok
    refine runs_callBuiltin f b ?_ ?_
    · rintro r rfl
      simp
    · intro v hv r hr
      exact Multiset.mem_add.2 (.inl (Value.mem_refsAll hv hr))

/-- Arguments are taken out of their array. -/
lemma runs_takeArguments (cell : Ref) :
    Runs c (Sound c scene ({cell} + K) L) (takeArguments cell)
      (fun arguments => Sound c scene (arguments + K) L) (Sound c scene K L) := by
  have held : cell ∈ {cell} + K := Multiset.mem_add.2 (.inl (Multiset.mem_singleton_self cell))
  have copied : Runs c (Sound c scene ({cell} + K) L)
      ((EngineM.onHeap (Heap.copy cell)).ensure (·.release cell))
      (fun v e => e.Sound c scene (v.refs + K) L ∧ v.instance? = none) (Sound c scene K L) := by
    refine runs_ensure (runs_copy.pre fun e ok => ⟨ok, ok.live_of_mem held⟩) (fun v => ?_)
      (turns_release cell)
    rintro e ⟨ok, plain⟩
    obtain ⟨related, ok'⟩ := turns_release cell e (ok.cast (add_left_comm _ _ _) rfl)
    exact ⟨related, ok', plain⟩
  refine copied.bind fun v => .assume fun plain => ?_
  split
  case h_1 elements => exact .pure fun e ok => ok
  case h_2 =>
    exact (Triple.modify (turns_releaseValue fun _ => plain)).bind fun _ =>
      .throw (fun _ => rfl) fun _ ok => ok

/-- The arguments of a call are taken out of their cell, and the target is given up if that
fails. -/
lemma runs_takeArgumentsFor (t : Target) (cell : Ref) :
    Runs c (Sound c scene (t.refs + ({cell} + K)) L)
      ((takeArguments cell).onFault (Lookup.discard t))
      (fun arguments => Sound c scene (arguments + (t.refs + K)) L) (Sound c scene K L) :=
  (runs_onFault (runs_takeArguments cell) (Lookup.turns_discard t)).pre fun _ ok =>
    ok.cast (add_left_comm _ _ _) rfl

/-- A call uses up the target and the cell with the arguments. -/
lemma runs_invoke (member : a.fiber ∈ crew.map (·.1)) (t : Target) (cell : Ref) :
    Runs c (Lookup.Holds c ⟨crew, []⟩ ({cell} + K) L t) (a.invoke t cell)
      (After c crew K L a.fiber) (Sound c ⟨crew, []⟩ K L) := by
  refine .assume fun builtin => (runs_takeArgumentsFor t cell).bind fun arguments => ?_
  cases t with
  | value r =>
    simp only
    split
    case isTrue none_given =>
      refine ((Operand.runs_push member).pre fun e ok => ?_).bind fun _ => .pure fun _ ok => ok
      rw [none_given] at ok
      exact ok.cast (zero_add _) rfl
    case isFalse =>
      refine (Triple.modify ?_).bind fun _ => .throw (fun _ => rfl) fun _ ok => ok
      exact (turns_releaseAll arguments).comp (turns_release r)
  | library name =>
    refine (Triple.modify ?_).bind fun _ => .throw (fun _ => rfl) fun _ ok => ok
    intro e ok
    exact turns_releaseAll arguments e (ok.cast (by simp [Target.refs, Target.ref?]) rfl)
  | function f receiver =>
    exact runs_callNative member f receiver arguments fun hc => builtin hc f receiver rfl

/-- A call of a name uses up the arguments. -/
lemma runs_call (member : a.fiber ∈ crew.map (·.1)) (index : Nat) :
    Runs c (Sound c ⟨crew, []⟩ K L) (a.call index) (After c crew K L a.fiber)
      (Sound c ⟨crew, []⟩ K L) := by
  unfold call
  split
  case isTrue => exact fun e ok => ⟨.refl c e, fun _ => rfl, ok⟩
  case isFalse =>
    refine (Operand.runs_pop member).bind fun cell => ?_
    refine (runs_onFault (Lookup.runs_resolveCached member a.image index)
      (turns_release cell)).bind fun t => ?_
    exact runs_invoke member t cell

/-- The latest receiver is taken from a fiber. -/
lemma turns_takeReceiver {x : Fiber} {receiver rest} (found : x.receivers = receiver :: rest) :
    Turns (Precedes c) (fun e => e.Sound c scene K L ∧ e.fiber? a.fiber = some x)
      (·.setFiber a.fiber { x with receivers := rest })
      (Sound c scene (((some receiver).toList : List Ref) + K) L) := by
  rintro e ⟨ok, hx⟩
  refine ⟨.of_same rfl rfl rfl, ok.setFiber hx rfl (fun _ builtin => builtin) ?_ rfl⟩
  have front : (x.receivers : Multiset Ref) = {receiver} + (rest : Multiset Ref) := by
    rw [found]
    rfl
  change {receiver} + K + _ = _
  rw [Fiber.refs, Fiber.refs, front]
  abel

/-- A dynamic call uses up the arguments and the latest receiver. -/
lemma runs_callDynamic (member : a.fiber ∈ crew.map (·.1)) (index : Nat) :
    Runs c (Sound c ⟨crew, []⟩ K L) (a.callDynamic index) (After c crew K L a.fiber)
      (Sound c ⟨crew, []⟩ K L) := by
  refine (runs_string index).bind fun name => (Operand.runs_pop member).bind fun cell => ?_
  refine (runs_fiber member).bind fun x => ?_
  split
  case h_1 =>
    refine (Triple.modify ?_).bind fun _ => .throw (fun _ => rfl) fun _ ok => ok
    exact fun e hs => turns_release cell e hs.1
  case h_2 receiver rest found =>
    refine (Triple.modify (turns_takeReceiver found)).bind fun _ => ?_
    refine (runs_onFault (Lookup.runs_resolve member name (some receiver))
      (turns_release cell)).bind fun t => ?_
    exact runs_invoke member t cell

/-! ## All instructions -/

/-- An instruction that goes on with the next one. -/
private lemma runs_advance {m}
    (runs : Runs c (Sound c ⟨crew, []⟩ K L) m (fun _ => Sound c ⟨crew, []⟩ K L)
      (Sound c ⟨crew, []⟩ K L)) :
    Runs c (Sound c ⟨crew, []⟩ K L) (do m; return .advance) (After c crew K L a.fiber)
      (Sound c ⟨crew, []⟩ K L) :=
  runs.bind fun _ => .pure fun _ ok => ok

/-- A test goes on at one of two addresses. -/
private lemma runs_branch (member : a.fiber ∈ crew.map (·.1)) (op : Opcode) :
    Runs c (Sound c ⟨crew, []⟩ K L)
      (do if ← Operand.test a.fiber op then return .jump (a.pc + 3) else return .jump (a.pc + 1))
      (After c crew K L a.fiber) (Sound c ⟨crew, []⟩ K L) := by
  refine (Operand.runs_test member op).bind fun holds => ?_
  split
  · exact .pure fun _ ok => ok
  · exact .pure fun _ ok => ok

/-- Every instruction of a fiber that runs leaves the hand as it is, but for what it takes along. -/
lemma runs_execute (member : (a.fiber, a.cell) ∈ crew)
    (cell_held : a.cell ∈ K)
    (frame_held : ∀ r ∈ a.frame, r ∈ K)
    (op : Opcode) (inline : Nat) :
    Runs c (Sound c ⟨crew, []⟩ K L) (a.execute op inline) (After c crew K L a.fiber)
      (Sound c ⟨crew, []⟩ K L) := by
  have listed : a.fiber ∈ crew.map (·.1) := List.mem_map.2 ⟨_, member, rfl⟩
  cases op with
  | nop => exact .pure fun _ ok => ok
  | pushNil => exact runs_advance (Operand.runs_pushPlain listed rfl)
  | pushInt => exact runs_operand.bind fun _ => runs_advance (Operand.runs_pushPlain listed rfl)
  | pushReal => exact runs_operand.bind fun _ => runs_advance (Operand.runs_pushPlain listed rfl)
  | pushString =>
    exact (runs_string inline).bind fun _ => runs_advance (Operand.runs_pushPlain listed rfl)
  | pop => exact (Operand.runs_pop listed).bind fun r => .bind (.modify (turns_release r)) fun _ =>
      .pure fun _ ok => ok
  | dup => exact runs_advance (runs_duplicate listed)
  | getSelf => exact runs_advance (Operand.runs_getVariable listed _)
  | getShared => exact runs_advance (Operand.runs_getVariable listed _)
  | getGlobal => exact runs_advance (Operand.runs_getVariable listed _)
  | setSelf => exact runs_advance (Operand.runs_setVariable listed _)
  | setShared => exact runs_advance (Operand.runs_setVariable listed _)
  | setGlobal => exact runs_advance (Operand.runs_setVariable listed _)
  | getFrame =>
    refine (runs_orFault rfl fun _ ok => ok).bind fun r => ?_
    refine ((Operand.runs_pushRetained listed).pre ?_).bind fun _ => .pure fun _ ok => ok
    rintro e ⟨ok, found⟩
    exact ⟨ok, ok.live_of_mem (frame_held r (List.mem_of_getElem? found))⟩
  | paramsStart => exact runs_advance (Operand.runs_openList listed)
  | paramsEnd => exact runs_advance (Operand.runs_closeList listed)
  | call => exact runs_call listed inline
  | dot => exact runs_advance (runs_moveToReceivers listed)
  | callDynamic => exact runs_callDynamic listed inline
  | ifEqual => exact runs_branch listed _
  | ifZero => exact runs_branch listed _
  | ifNonzero => exact runs_branch listed _
  | ifNegative => exact runs_branch listed _
  | ifPositive => exact runs_branch listed _
  | ifAtMostZero => exact runs_branch listed _
  | ifAtLeastZero => exact runs_branch listed _
  | add => exact runs_advance (Operand.runs_applyBinary listed _)
  | sub => exact runs_advance (Operand.runs_applyBinary listed _)
  | mul => exact runs_advance (Operand.runs_applyBinary listed _)
  | div => exact runs_advance (Operand.runs_applyBinary listed _)
  | mod => exact runs_advance (Operand.runs_applyBinary listed _)
  | neg => exact runs_advance (Operand.runs_applyNegation listed)
  | gotoState => exact (runs_gotoState listed).bind fun _ => .pure fun _ hs => hs
  | goto => exact runs_address.bind fun _ => .pure fun _ ok => ok
  | forEach =>
    exact runs_address.bind fun _ => (runs_popGenerator listed).bind fun _ => .pure fun _ ok => ok
  | on =>
    exact runs_address.bind fun body => (Operand.runs_popAs listed rfl).bind fun condition =>
      runs_advance (runs_register member cell_held condition body)
  | wait =>
    unfold execute
    dsimp only
    split
    case isTrue => exact fun e ok => ⟨.refl c e, fun _ => rfl, ok⟩
    case isFalse =>
      exact (Operand.runs_popAs listed rfl).bind fun condition =>
        (runs_register member cell_held condition _).bind fun _ => .pure fun _ ok => ok
  | endState => exact .pure fun _ ok => ok
  | endBody => exact .pure fun _ ok => ok
  | suspend =>
    unfold execute
    dsimp only
    split
    case isTrue => exact fun e ok => ⟨.refl c e, fun _ => rfl, ok⟩
    case isFalse => exact (runs_suspend listed).bind fun _ => .pure fun _ ok => ok
  | launch => exact (runs_spawn listed).bind fun _ => .pure fun _ ready => ready

end Activation

end FiberVM
