import FiberVM.Proofs.Engine.Loading

/-!
# What instructions change and where they lead

Every instruction comes down to single changes of the engine. It keeps an address only if it
suspends the fiber or registers a continuation, and only a change of the state lets a fiber change
its state (`Activation.Permitted`). It fails because execution has gone astray only if it lacks its
operand word (`Activation.Fails`), and where the run goes on is determined by the operation, its
operand word, the states of the image and the loops (`Activation.Leads`).
-/

namespace FiberVM

open Engine

variable {P : Permit} {a : Activation} {op : Opcode} {α : Type}

namespace Activation

/-- A permit lets an instruction do what it does to fibers and their continuations. -/
structure Permitted (P : Permit) (a : Activation) (op : Opcode) (inline : Nat) : Prop where
  body : op = .on → ∀ w, a.image.words[a.pc + 1]? = some w → P.keeps a.fiber w.toNat
  after : op = .wait ∨ op = .suspend → P.keeps a.fiber (a.pc + 1)
  state : op = .gotoState → P.leaves a.fiber
  list : op = .paramsEnd → P.closes a.fiber
  call : op = .call ∨ op = .callDynamic → P.looks a.fiber
  note : op = .call → P.notes a.fiber inline

lemma permitted_anything (a : Activation) (op : Opcode) (inline : Nat) :
    a.Permitted .anything op inline :=
  ⟨fun _ _ _ => trivial, fun _ => trivial, fun _ => trivial, fun _ => trivial, fun _ => trivial,
    fun _ => trivial⟩

/-- An instruction may fail with a fault, which is about addresses only if the operand word is
missing. -/
def Fails (a : Activation) (op : Opcode) (fault : Fault) : Prop :=
  fault.isAstray → fault = .invalidInstructionAddress ∧ op.operands ≠ 0 ∧
    a.image.words[a.pc + 1]? = none

/-- The addresses that an instruction can lead to. -/
inductive Leads (a : Activation) (op : Opcode) : Nat → Prop
  | next : Leads a op (a.pc + op.width)
  | operand {w} (takes : op.takesAddress) (found : a.image.words[a.pc + 1]? = some w) :
      Leads a op w.toNat
  /-- A test skips the jump after it, which has two words. -/
  | skip (conditional : op.isConditional) : Leads a op (a.pc + 3)
  | state {index address} (found : a.image.stateAddress? index = some address) :
      Leads a op address
  | body {l} (inside : l ∈ a.loops) : Leads a op l.body
  | exit {l} (inside : l ∈ a.loops) : Leads a op l.exit

/-- An instruction leads past itself. -/
lemma leads_of_width {width} (known : op.width = width) :
    a.Leads op (a.pc + width) := known ▸ .next

/-- How an instruction tells a run to go on, and which instruction it is. A run waits for a fiber or
for the host only at instructions of one word, and for a fiber only if there is room for another
run. Inside a loop it does not suspend. -/
def Directs (a : Activation) (op : Opcode) (config : Config) : Control → Prop
  | .advance => True
  | .jump address => a.Leads op address
  | .enter address => op = .gotoState ∧ a.Leads op address
  | .loop _ exit => op = .forEach ∧ a.Leads op exit
  | .endBody => op = .endBody
  | .finish how => op = .endState ∧ how = .stateEnd ∨ how = .suspended ∧ a.loops = []
  | .launch _ => op = .launch ∧ a.depth < config.maxDepth
  | .await _ => op.width = 1

/-- An instruction makes changes, fails and leads on as described. -/
abbrev Executes (P : Permit) (a : Activation) (op : Opcode) (m : EngineM Control) : Prop :=
  Triple (Changes P) (a.Fails op) (fun _ => True) m (fun control e => a.Directs op e.config control)
    (fun _ => True)

/-- What makes changes fails for reasons other than addresses. -/
lemma fails_of_tame {fault : Fault} (tame : fault.isAstray = false) : a.Fails op fault :=
  fun astray => absurd (tame.symm.trans astray) Bool.false_ne_true

/-- After something that makes changes an instruction goes on as it does otherwise. -/
lemma Executes.after {m} {k : α → EngineM Control} (makes : Makes P m)
    (next : ∀ x, Executes P a op (k x)) : Executes P a op (m >>= k) :=
  (makes.allow fun _ => fails_of_tame).bind next

/-- An instruction that goes on with the next one. -/
lemma Executes.advance {m} (makes : Makes P m) :
    Executes P a op (do m; return .advance) :=
  .after makes fun _ => .pure fun _ _ => trivial

/-- An instruction with an operand word. -/
lemma Executes.operand {k : Word → EngineM Control} (takes : op.operands ≠ 0)
    (next : ∀ w, a.image.words[a.pc + 1]? = some w → Executes P a op (k w)) :
    Executes P a op (a.operand >>= k) := by
  unfold Activation.operand EngineM.orFault
  split
  case h_1 w found => exact next w found
  case h_2 missing => exact fun e _ => ⟨.refl, fun _ => ⟨rfl, takes, missing⟩, trivial⟩

/-- An instruction with an operand word that is an address. -/
lemma Executes.address {k : Nat → EngineM Control} (takes : op.operands ≠ 0)
    (next : ∀ w, a.image.words[a.pc + 1]? = some w → Executes P a op (k w.toNat)) :
    Executes P a op (a.address >>= k) := by
  unfold Activation.address Activation.operand EngineM.orFault
  split
  case h_1 w found => exact next w found
  case h_2 missing => exact fun e _ => ⟨.refl, fun _ => ⟨rfl, takes, missing⟩, trivial⟩

/-! ## Parts of instructions -/

lemma makes_string (a : Activation) (index : Nat) :
    Makes P (a.string index) := .of_does (does_orFault rfl)

lemma makes_duplicate (a : Activation) : Makes P a.duplicate := by
  refine Makes.bind (.of_does (does_fiber a.fiber)) fun f => ?_
  split
  · exact Operand.makes_pushRetained _ _
  · exact makes_throw rfl

lemma makes_moveToReceivers (a : Activation) : Makes P a.moveToReceivers :=
  (Operand.makes_pop a.fiber).bind fun _ => Triple.bind (does_fiber a.fiber) fun _ =>
    makes_alter (.of_stack rfl rfl rfl (.inl rfl) rfl fun _ => .inl rfl)

lemma makes_popGenerator (a : Activation) : Makes P a.popGenerator :=
  (Operand.makes_pop a.fiber).bind fun r =>
    (makes_onHeap ((Heap.tame_read r).bind fun v => tame_generator v)).ensure (aside_release r)

lemma makes_suspend (kept : P.keeps a.fiber (a.pc + 1)) : Makes P a.suspend := by
  refine Triple.bind (does_fiber a.fiber) fun f =>
    makes_alter (.of_stack rfl rfl rfl (.inr ?_) rfl fun _ => .inl rfl)
  rintro pc ⟨⟩
  exact kept

/-- A change of the state leads to the address of a state. -/
lemma does_gotoState (allowed : P.leaves a.fiber) :
    Does P (fun _ => True) a.gotoState fun address _ => ∃ index, a.image.stateAddress? index =
      some address := by
  refine (Operand.makes_popAs a.fiber _ rfl).bind fun index => ?_
  refine Makes.bind (.of_does (does_orFault rfl)) fun index => ?_
  refine Triple.bind (does_orFault rfl) fun address => .assume fun found => ?_
  have cancelled : Makes P (modify fun e =>
      { e with agenda := (e.agenda.cancelFiber a.fiber).2 }.releaseAll
        (e.agenda.cancelFiber a.fiber).1) :=
    .modify fun e _ => ⟨.tail (.single (.leave allowed)) (.aside (aside_releaseAll _ _)), trivial⟩
  refine cancelled.bind fun _ => Triple.bind (does_fiber a.fiber) fun f => ?_
  have alters : Alters P a.fiber f { f with state := index, suspended := none } :=
    .of_stack rfl rfl rfl (.inr fun _ => nofun) rfl fun _ => .inl rfl
  exact Triple.bind (makes_alter alters) fun _ => .pure fun _ _ => ⟨index, found⟩

/-- A continuation is registered for a fiber that exists. -/
lemma does_register (a : Activation) (condition : Condition) {pc} (kept : P.keeps a.fiber pc) :
    Does P (fun e => (e.fiber? a.fiber).isSome) (a.register condition pc) fun _ _ => True := by
  refine (does_onHeap (Heap.tame_retain a.cell) fun _ _ there => there).bind fun _ => ?_
  refine Triple.get.bind fun seen => ?_
  split
  case h_1 id agenda registered =>
    rintro e ⟨there, rfl⟩
    exact ⟨.single (.register there kept registered), trivial⟩
  case h_2 err refused =>
    obtain ⟨list, rfl⟩ := Agenda.register_error refused
    refine Triple.bind (Q := fun _ _ => True) ?_ fun _ => makes_throw rfl
    exact .modify fun e _ => ⟨(aside_release a.cell).changes e, trivial⟩

/-- A fiber is made only where there is room for its run. -/
lemma does_spawn (a : Activation) :
    Does P (fun _ => True) a.spawn fun _ e => a.depth < e.config.maxDepth := by
  refine (Operand.makes_popAs a.fiber _ rfl).bind fun name => ?_
  refine (Operand.makes_popArguments a.fiber).bind fun arguments => Triple.get.bind fun seen => ?_
  split
  case isTrue =>
    refine Triple.bind (Q := fun _ _ => True) ?_ fun _ => makes_throw rfl
    exact .modify fun e _ => ⟨(aside_releaseAll arguments).changes e, trivial⟩
  case isFalse room =>
    rintro _ ⟨-, rfl⟩
    have spawned := meets_spawn (P := P) name arguments seen trivial
    dsimp only
    cases run : Engine.spawn name arguments seen with
    | ok s e' =>
      rw [run] at spawned
      have same := congrArg Config.maxDepth spawned.1.config
      exact ⟨spawned.1, (Nat.lt_of_not_le room).trans_eq same.symm⟩
    | error err e' =>
      rw [run] at spawned
      cases err with
      | fault fault => exact ⟨spawned.1, spawned.2.1 fault rfl, trivial⟩
      | image d => exact ⟨spawned.1, rfl, trivial⟩
      | agenda err => exact ⟨spawned.1, rfl, trivial⟩
      | execution err => exact ⟨spawned.1, rfl, trivial⟩

/-! ## Calls -/

/-- A call fails as its results do, or because they cannot be pushed. -/
lemma makes_finishCall (fiber : FiberId) (receiver : Option Ref) (args : List Value)
    {results : EngineM (List Value)} {E : Fault → Prop}
    (tame : ∀ fault, fault.isAstray = false → E fault)
    (makes : Triple (Changes P) E (fun _ => True) results (fun _ _ => True) fun _ => True) :
    Triple (Changes P) E (fun _ => True) (finishCall fiber receiver args results) (fun _ _ => True)
      fun _ => True := by
  have given : Aside fun e => (e.mapHeap (·.releaseValues args)).releaseAll receiver.toList :=
    (aside_mapHeap (Heap.same_releaseValues args)).comp (aside_releaseAll _)
  refine (ensures_aside makes given fun _ _ _ => trivial).bind fun results => ?_
  exact (Operand.makes_pushValues fiber results).allow tame

lemma makes_callBuiltin (f : Native) (b : Builtin) (receiver : Option Ref) (args : List Value) :
    Makes P (callBuiltin f b receiver args) := by
  refine makes_get.bind fun e => (makes_onHeap (f.tame_runBuiltin b _ args)).bind fun result => ?_
  have printed : Aside fun e => { e with output := result.2.toList ++ e.output } :=
    fun _ => ⟨rfl, rfl, rfl, rfl, rfl, rfl, rfl, id⟩
  exact (makes_aside printed).bind fun _ => makes_pure _

/-- After a call a run goes on with the next instruction, at once or when the host has answered. -/
def Returns : Control → Prop
  | .advance | .await _ => True
  | _ => False

/-- A call of a function returns, or awaits the host. -/
lemma does_callNative (a : Activation) (f : Native) (receiver : Option Ref) (arguments : List Ref) :
    Does P (fun _ => True) (a.callNative f receiver arguments) fun control _ =>
      Returns control := by
  have copied : Makes P
    (((EngineM.onHeap (Heap.copyAll [] arguments)).ensure (·.releaseAll arguments)).onFault
      (·.releaseAll receiver.toList)) :=
    ((makes_onHeap (Heap.tame_copyAll [] arguments)).ensure (aside_releaseAll _)).onFault
      (aside_releaseAll _)
  refine copied.bind fun args => ?_
  split
  case h_1 fault _ wrong =>
    refine (makes_finishCall _ _ _ (fun _ h => h)
      (makes_throw (Signature.isAstray_fault? wrong))).bind fun _ => ?_
    exact .pure fun _ _ => trivial
  case h_2 => exact .pure fun _ _ => trivial
  case h_3 =>
    refine (makes_finishCall _ _ _ (fun _ h => h) (makes_callBuiltin f _ receiver args)).bind
      fun _ => ?_
    exact .pure fun _ _ => trivial

lemma makes_takeArguments (cell : Ref) : Makes P (takeArguments cell) := by
  refine ((makes_onHeap (Heap.tame_copy cell)).ensure (aside_release cell)).bind fun v => ?_
  split
  · exact makes_pure _
  · exact (makes_aside (aside_releaseValue _)).bind fun _ => makes_throw rfl

/-- So does the call of a target. -/
lemma does_invoke (a : Activation) (t : Target) (cell : Ref) :
    Does P (fun _ => True) (a.invoke t cell) fun control _ => Returns control := by
  refine ((makes_takeArguments cell).onFault (Lookup.aside_discard t)).bind fun arguments => ?_
  cases t with
  | value r =>
    dsimp only
    split
    · exact (Operand.makes_push a.fiber r).bind fun _ => .pure fun _ _ => trivial
    · have given : Aside fun e => (e.releaseAll arguments).release r :=
        (aside_releaseAll arguments).comp (aside_release r)
      exact (makes_aside given).bind fun _ => makes_throw rfl
  | library name => exact (makes_aside (aside_releaseAll arguments)).bind fun _ => makes_throw rfl
  | function f receiver => exact does_callNative a f receiver arguments

/-- So does a call by a name. -/
lemma does_call {index} (looks : P.looks a.fiber) (notes : P.notes a.fiber index) :
    Does P (fun _ => True) (a.call index) fun control _ => Returns control := by
  unfold call
  split
  case isTrue => exact fun e _ => ⟨.refl, rfl, trivial⟩
  case isFalse =>
    refine (Operand.makes_pop a.fiber).bind fun cell => ?_
    refine ((Lookup.makes_resolveCached looks notes a.image).onFault (aside_release cell)).bind
      fun t => ?_
    exact does_invoke a t cell

lemma does_callDynamic (looks : P.looks a.fiber) (index : Nat) :
    Does P (fun _ => True) (a.callDynamic index) fun control _ => Returns control := by
  refine (makes_string a index).bind fun name => (Operand.makes_pop a.fiber).bind fun cell => ?_
  refine Triple.bind (does_fiber a.fiber) fun f => ?_
  split
  case h_1 =>
    refine Triple.bind (Q := fun _ _ => True) ?_ fun _ => makes_throw rfl
    exact .modify fun e _ => ⟨(aside_release cell).changes e, trivial⟩
  case h_2 receiver rest _ =>
    have alters : Alters P a.fiber f { f with receivers := rest } :=
      .of_stack rfl rfl rfl (.inl rfl) rfl fun _ => .inl rfl
    refine Triple.bind (makes_alter alters) fun _ => ?_
    refine ((Lookup.makes_resolve looks name (some receiver)).onFault (aside_release cell)).bind
      fun t => ?_
    exact does_invoke a t cell

/-! ## All instructions -/

/-- A test goes on at one of two addresses. -/
private lemma executes_branch (conditional : op.isConditional) :
    Executes P a op (do
      if ← Operand.test a.fiber op then return .jump (a.pc + 3)
      else return .jump (a.pc + 1)) := by
  refine .after (Operand.makes_test a.fiber conditional) fun holds => ?_
  split
  · exact .pure fun _ _ => .skip conditional
  · have width : op.width = 1 := by
      cases op with
      | ifEqual | ifZero | ifNonzero | ifNegative | ifPositive | ifAtMostZero | ifAtLeastZero => rfl
      | _ => cases conditional
    exact .pure fun _ _ => leads_of_width width

/-- A call leads to the next instruction, or waits for the host. -/
lemma executed_call {e result} (width : op.width = 1)
    (called : Outcome (Changes P) (fun fault => fault.isAstray = false)
      (fun control _ => Returns control) (fun _ => True) e result) :
    Outcome (Changes P) (a.Fails op) (fun control e => a.Directs op e.config control)
      (fun _ => True) e result := by
  cases result with
  | error fault e' => exact ⟨called.1, fails_of_tame called.2.1, trivial⟩
  | ok control e' =>
    refine ⟨called.1, ?_⟩
    cases control with
    | advance => exact trivial
    | await => exact width
    | _ => exact called.2.elim

private lemma executes_call {m} (width : op.width = 1)
    (does : Does P (fun _ => True) m fun control _ => Returns control) : Executes P a op m :=
  fun e _ => executed_call width (does e trivial)

/-- A continuation is registered for the condition that is popped. -/
private lemma executes_register {pc} (kept : P.keeps a.fiber pc) {control}
    (directs : ∀ config, a.Directs op config control) :
    Executes P a op (do
      a.register (← Operand.popCondition a.fiber) pc
      return control) := by
  refine Triple.bind ((Operand.does_popAs a.fiber _ rfl).allow fun _ => fails_of_tame)
    fun condition => ?_
  refine Triple.bind ((does_register a condition kept).allow fun _ => fails_of_tame) fun _ => ?_
  exact .pure fun e _ => directs e.config

/-- Every instruction makes changes, fails and leads on as described. -/
lemma executes {inline} (permitted : a.Permitted P op inline) :
    Executes P a op (a.execute op inline) := by
  cases op with
  | nop => exact .pure fun _ _ => trivial
  | pushNil => exact .advance (Operand.makes_pushValue _ _)
  | pushInt | pushReal =>
    exact .operand (by decide) fun w _ => .advance (Operand.makes_pushValue _ _)
  | pushString =>
    exact .after (makes_string a inline) fun s => .advance (Operand.makes_pushValue _ _)
  | pop => exact .after (Operand.makes_pop _) fun r => .advance (makes_aside (aside_release r))
  | dup => exact .advance (makes_duplicate a)
  | getSelf | getShared | getGlobal => exact .advance (Operand.makes_getVariable _ _)
  | setSelf | setShared | setGlobal => exact .advance (Operand.makes_setVariable _ _)
  | getFrame =>
    exact .after (.of_does (does_orFault rfl)) fun r => .advance (Operand.makes_pushRetained _ r)
  | paramsStart => exact .advance (Operand.makes_openList _)
  | paramsEnd => exact .advance (Operand.makes_closeList (permitted.list rfl))
  | call => exact executes_call rfl (does_call (permitted.call (.inl rfl)) (permitted.note rfl))
  | callDynamic => exact executes_call rfl (does_callDynamic (permitted.call (.inr rfl)) inline)
  | dot => exact .advance (makes_moveToReceivers a)
  | ifEqual | ifZero | ifNonzero | ifNegative | ifPositive | ifAtMostZero | ifAtLeastZero =>
    exact executes_branch rfl
  | add | sub | mul | div | mod =>
    exact .advance (Operand.makes_applyBinary _ (by simp [Operand.IsBinary]))
  | neg => exact .advance (Operand.makes_applyNegation _)
  | gotoState =>
    exact ((does_gotoState (permitted.state rfl)).allow fun _ => fails_of_tame).bind fun _ =>
      .pure fun _ found => ⟨rfl, found.elim fun _ => .state⟩
  | goto => exact .address (by decide) fun w found => .pure fun _ _ => .operand rfl found
  | forEach =>
    refine .address (by decide) fun w found => ?_
    exact .after (makes_popGenerator a) fun _ => .pure fun _ _ => ⟨rfl, .operand rfl found⟩
  | on =>
    refine .address (by decide) fun w found => ?_
    exact executes_register (permitted.body rfl w found) fun _ => trivial
  | wait =>
    unfold execute
    dsimp only
    split
    case isTrue => exact fun e _ => ⟨.refl, fails_of_tame rfl, trivial⟩
    case isFalse outside =>
      exact executes_register (permitted.after (.inl rfl)) fun _ => .inr ⟨rfl, not_not.1 outside⟩
  | endState => exact .pure fun _ _ => .inl ⟨rfl, rfl⟩
  | endBody => exact .pure fun _ _ => rfl
  | suspend =>
    unfold execute
    dsimp only
    split
    case isTrue => exact fun e _ => ⟨.refl, fails_of_tame rfl, trivial⟩
    case isFalse outside =>
      refine .after (makes_suspend (permitted.after (.inr rfl))) fun _ => ?_
      exact .pure fun _ _ => .inr ⟨rfl, not_not.1 outside⟩
  | launch =>
    refine Triple.bind ((does_spawn a).allow fun _ => fails_of_tame) fun s => ?_
    exact .pure fun _ room => ⟨rfl, room⟩

end Activation

end FiberVM
