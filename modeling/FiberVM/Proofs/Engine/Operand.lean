import FiberVM.Engine.Operand
import FiberVM.Proofs.Engine.Rules

/-!
# What operand instructions do to an engine

The stack of a fiber takes over the references that are pushed and hands over those that are popped.
Every instruction on operands leaves the hand as it was, whether it succeeds or fails.
-/

namespace FiberVM

lemma Fiber.refs_push (x : Fiber) (r : Ref) :
    ({ x with stack := some r :: x.stack } : Fiber).refs = {r} + x.refs := by
  simp only [Fiber.refs, List.filterMap_cons_some (f := (·)) (b := r) rfl, ← Multiset.cons_coe,
    ← Multiset.singleton_add]
  abel

lemma Fiber.refs_mark (x : Fiber) :
    ({ x with stack := none :: x.stack } : Fiber).refs = x.refs := rfl

/-- What is above the latest marker of a stack is apart from what is below. -/
lemma Fiber.refs_collect (x : Fiber) {marker below}
    (found : x.stack.dropWhile Option.isSome = marker :: below) :
    x.refs = ((x.stack.takeWhile Option.isSome).filterMap (·) : List Ref) +
      ({ x with stack := below } : Fiber).refs := by
  have marked : marker = none := by
    have := List.head?_dropWhile_not Option.isSome x.stack
    rw [found] at this
    cases marker with
    | none => rfl
    | some r => simp at this
  have parts : x.stack.filterMap (·) =
      (x.stack.takeWhile Option.isSome).filterMap (·) ++ below.filterMap (·) := by
    conv_lhs => rw [← List.takeWhile_append_dropWhile (p := Option.isSome) (l := x.stack), found,
      marked, List.filterMap_append]
    rfl
  rw [Fiber.refs, parts, ← Multiset.coe_add, Fiber.refs]
  abel

namespace Operand

open Engine

variable {c : Conduct} {scene : Scene} {K K' L : Multiset Ref} {id : FiberId} {r : Ref} {v : Value}

/-! ## Pushing and popping -/

/-- A fiber that is changed in its stack alone. -/
private lemma turns_stack {x stack} (hand : K' + ({ x with stack } : Fiber).refs = K + x.refs) :
    Turns (Precedes c) (fun e => e.Sound c scene K L ∧ e.fiber? id = some x)
      (·.setFiber id { x with stack }) (Sound c scene K' L) := by
  rintro e ⟨ok, hx⟩
  exact ⟨.of_same rfl rfl rfl, ok.setFiber hx rfl (fun _ builtin => builtin) hand rfl⟩

lemma runs_push (member : id ∈ scene.crew.map (·.1)) :
    Runs c (Sound c scene ({r} + K) L) (push id r) (fun _ => Sound c scene K L)
      (Sound c scene K' L) := by
  refine (runs_fiber member).bind fun x => .modify (turns_stack ?_)
  rw [x.refs_push]
  abel

lemma runs_pushValue (member : id ∈ scene.crew.map (·.1))
    (other : c ≠ .free → v.instance? = none) :
    Runs c (Sound c scene (v.refs + K) L) (pushValue id v) (fun _ => Sound c scene K L)
      (Sound c scene K L) :=
  (runs_alloc .temporary other).bind fun r => runs_onFault (runs_push member) (turns_release r)

lemma runs_pushPlain (member : id ∈ scene.crew.map (·.1)) (plain : v.isPlain = true) :
    Runs c (Sound c scene K L) (pushValue id v) (fun _ => Sound c scene K L)
      (Sound c scene K L) := by
  refine (runs_pushValue member fun _ => v.instance?_of_isPlain plain).pre fun e ok =>
    ok.cast ?_ rfl
  rw [v.refs_of_isPlain plain, Multiset.coe_nil, zero_add]

/-- If one value cannot be pushed, the values after it are lost. -/
lemma runs_pushValues {vs} (member : id ∈ scene.crew.map (·.1))
    (other : c ≠ .free → ∀ v ∈ vs, v.instance? = none) (few : c = .owning → vs.length ≤ 1) :
    Runs c (Sound c scene (Value.refsAll vs + K) L) (pushValues id vs) (fun _ => Sound c scene K L)
      (Sound c scene K L) := by
  induction vs generalizing K with
  | nil => exact .pure fun e ok => ok.cast (zero_add K) rfl
  | cons v rest ih =>
    have first : Runs c (Sound c scene (Value.refsAll (v :: rest) + K) L) (pushValue id v)
        (fun _ => Sound c scene (Value.refsAll rest + K) L) (Sound c scene K L) := by
      refine (runs_pushValue member fun hc => other hc v List.mem_cons_self).conseq
        (fun e ok => ok.cast (add_assoc _ _ _) rfl) (fun _ _ ok => ok) fun e ok => ?_
      by_cases hc : c = .owning
      · have none_left : rest = [] := by
          have := few hc
          simpa using this
        subst none_left
        exact ok.cast (zero_add K) rfl
      · exact ok.of_ne_owning hc
    refine first.bind fun _ => ih (fun hc w hw => other hc w (List.mem_cons_of_mem v hw)) fun hc =>
      ?_
    have := few hc
    simp only [List.length_cons] at this
    omega

lemma runs_pushRetained (member : id ∈ scene.crew.map (·.1)) :
    Runs c (fun e => e.Sound c scene K L ∧ e.heap.Live c r) (pushRetained id r)
      (fun _ => Sound c scene K L) (Sound c scene K L) :=
  runs_retain.bind fun _ => runs_push member

/-- What is popped was on top of the stack. -/
lemma pop_ok {e e'} (popped : pop id e = .ok r e') :
    ∃ x stack, e.fiber? id = some x ∧ x.stack = some r :: stack ∧ e' = e.setFiber id
      { x with stack } := by
  obtain ⟨x, e₁, looked, taken⟩ := ok_of_bind popped
  obtain ⟨found, rfl⟩ := fiber_ok looked
  rcases entries : x.stack with _ | ⟨_ | top, stack⟩ <;> rw [entries] at taken <;> cases taken
  exact ⟨x, stack, found, entries, rfl⟩

/-- What is read off the cell on top of the stack. -/
lemma popAs_ok {α : Type} {view : Value → Option α} {fault a e e'}
    (popped : popAs id view fault e = .ok a e') :
    ∃ x r stack v, e.fiber? id = some x ∧ x.stack = some r :: stack ∧ e.heap.get? r = some v ∧
      view v = some a ∧ e' = (e.setFiber id { x with stack }).release r := by
  obtain ⟨r, e₁, taken, looked⟩ := ok_of_bind popped
  obtain ⟨x, stack, found, top, rfl⟩ := pop_ok taken
  obtain ⟨e₂, run, rfl⟩ := ensure_ok looked
  obtain ⟨v, e₃, reading, viewing⟩ := ok_of_bind run
  obtain ⟨viewed, rfl⟩ := orFault_ok viewing
  obtain ⟨heap, read, rfl⟩ := onHeap_ok reading
  obtain ⟨holds, rfl⟩ := Heap.read_ok read
  exact ⟨x, r, stack, v, found, top, holds, viewed, rfl⟩

/-- What is popped is in the hand. -/
lemma runs_pop (member : id ∈ scene.crew.map (·.1)) :
    Runs c (Sound c scene K L) (pop id) (fun r => Sound c scene ({r} + K) L)
      (Sound c scene K L) := by
  refine (runs_fiber member).bind fun x => ?_
  split
  case h_1 r rest found =>
    refine (Triple.modify (turns_stack ?_)).bind fun _ => .pure fun _ ok => ok
    have split := ({ x with stack := rest } : Fiber).refs_push r
    have whole : ({ x with stack := some r :: rest } : Fiber).refs = x.refs := by rw [← found]
    rw [← whole, split]
    abel
  case h_2 => exact .throw (fun _ => rfl) fun _ hs => hs.1

/-- Popping a cell to read something off its value. -/
lemma runs_popAs {α : Type} {view : Value → Option α} {fault : Fault}
    (member : id ∈ scene.crew.map (·.1))
    (allowed : fault.isDangling = false) :
    Runs c (Sound c scene K L) (popAs id view fault) (fun _ => Sound c scene K L)
      (Sound c scene K L) := by
  refine (runs_pop member).bind fun r => ?_
  have held : r ∈ {r} + K := Multiset.mem_add.2 (.inl (Multiset.mem_singleton_self r))
  refine runs_ensure (Q := fun _ => Sound c scene ({r} + K) L) ?_ (fun _ => turns_release r)
    (turns_release r)
  refine (runs_read.pre fun e ok => ⟨ok, ok.live_of_mem held⟩).bind fun v => ?_
  exact (runs_orFault allowed fun _ hs => hs.1).post fun _ _ hs => hs.1.1

/-- The copy of a popped value owns references of its own. -/
lemma runs_popValue (member : id ∈ scene.crew.map (·.1)) :
    Runs c (Sound c scene K L) (popValue id)
      (fun v e => e.Sound c scene (v.refs + K) L ∧ v.instance? = none) (Sound c scene K L) := by
  refine (runs_pop member).bind fun r => ?_
  have held : r ∈ {r} + K := Multiset.mem_add.2 (.inl (Multiset.mem_singleton_self r))
  refine runs_ensure (runs_copy.pre fun e ok => ⟨ok, ok.live_of_mem held⟩) (fun v => ?_)
    (turns_release r)
  rintro e ⟨ok, plain⟩
  obtain ⟨related, ok'⟩ := turns_release r e (ok.cast (add_left_comm _ _ _) rfl)
  exact ⟨related, ok', plain⟩

/-- So are arguments. -/
lemma runs_popArguments (member : id ∈ scene.crew.map (·.1)) :
    Runs c (Sound c scene K L) (popArguments id) (fun rs => Sound c scene (rs + K) L)
      (Sound c scene K L) := by
  refine (runs_popValue member).bind fun v => .assume fun plain => ?_
  split
  case h_1 elements => exact .pure fun e ok => ok
  case h_2 => exact .pure fun e ok => ok
  case h_3 v _ _ =>
    exact (Triple.modify (turns_releaseValue fun _ => plain)).bind fun _ =>
      .throw (fun _ => rfl) fun _ ok => ok

/-! ## Argument lists -/

lemma runs_openList (member : id ∈ scene.crew.map (·.1)) :
    Runs c (Sound c scene K L) (openList id) (fun _ => Sound c scene K L) (Sound c scene K L) :=
  (runs_fiber member).bind fun x => .modify (turns_stack (by rw [x.refs_mark]))

/-- What is above the marker moves into the array. -/
lemma runs_closeList (member : id ∈ scene.crew.map (·.1)) :
    Runs c (Sound c scene K L) (closeList id) (fun _ => Sound c scene K L) (Sound c scene K L) := by
  refine (runs_fiber member).bind fun x => ?_
  split
  case h_1 => exact .throw (fun _ => rfl) fun _ hs => hs.1
  case h_2 marker below found =>
    refine (Triple.modify (turns_stack ?_)).bind fun _ => runs_pushValue member fun _ => rfl
    rw [x.refs_collect found]
    simp only [Value.refs, Multiset.coe_reverse]
    abel

/-! ## Variables -/

/-- A variable is read into a copy. -/
lemma runs_getVariable (member : id ∈ scene.crew.map (·.1)) (owner : Owner) :
    Runs c (Sound c scene K L) (getVariable id owner) (fun _ => Sound c scene K L)
      (Sound c scene K L) := by
  refine (runs_popAs member rfl).bind fun key => ?_
  refine Triple.get.bind fun seen => ?_
  refine (runs_orFault rfl fun _ hs => hs.1).bind fun r => ?_
  refine (runs_pushRetained member).pre ?_
  rintro e ⟨⟨ok, rfl⟩, found⟩
  exact ⟨ok, ok.heap.live_of_lookup? found⟩

/-- Where a key leads to depends on the variables alone. -/
private lemma lookup?_of_directory {h h' : Heap} (same : h'.directory = h.directory) (owner : Owner)
    (key : Key) : h'.lookup? owner key = h.lookup? owner key := by
  cases key <;> simp only [Heap.lookup?, Heap.entries, same]

/-- Storing a copy in a variable leaves the hand as it is. -/
lemma runs_assign {owner key value} (key_held : key ∈ K) (value_held : value ∈ K) :
    Heap.Runs c (Heap.Sound c K L) (assign owner key value) (fun _ => Heap.Sound c K L)
      (Heap.Sound c K L) := by
  refine (Heap.runs_read.pre fun h ok => ⟨ok, ok.live_of_mem key_held⟩).bind fun k => ?_
  split
  case h_1 => exact .throw (fun _ => rfl) fun _ hs => hs.1
  case h_2 varKey _ =>
    refine Triple.get.bind fun seen => ?_
    have copied : Heap.Runs c
        (fun h => (h.Sound c K L ∧ h.get? key = some k) ∧ seen = h) (Heap.copy value)
        (fun w h => (h.Sound c (w.refs + K) L ∧ h.directory = seen.directory) ∧ w.instance? = none)
        (Heap.Sound c K L) := by
      refine Heap.runs_copy.pre ?_
      rintro h ⟨⟨ok, -⟩, rfl⟩
      exact ⟨⟨ok, rfl⟩, ok.live_of_mem value_held⟩
    refine copied.bind fun copy => .assume fun plain => ?_
    split
    case h_1 r found _ =>
      refine (Heap.runs_store fun _ => plain).pre ?_
      rintro h ⟨ok, same⟩
      rw [← lookup?_of_directory same] at found
      exact ⟨⟨ok, ok.live_of_lookup? found⟩, ok.plain_of_lookup? found⟩
    case h_2 name _ _ =>
      have shared : ∀ f, Owner.global ≠ .fiber f := fun _ => nofun
      refine Triple.bind (Q := fun _ => Heap.Sound c K L) ?_ fun _ => .pure fun _ ok => ok
      exact (Heap.runs_declare name shared fun _ => plain).conseq (fun _ hs => hs.1)
        (fun _ _ hs => hs.1) fun _ ok => ok
    case h_3 =>
      refine (Triple.modify ?_).bind fun _ => .throw (fun _ => rfl) fun _ ok => ok
      exact fun h hs => Heap.turns_releaseValue (fun _ => plain) h hs.1

/-- A variable is written, and gives up its former value. -/
lemma runs_setVariable (member : id ∈ scene.crew.map (·.1)) (owner : Owner) :
    Runs c (Sound c scene K L) (setVariable id owner) (fun _ => Sound c scene K L)
      (Sound c scene K L) := by
  refine (runs_pop member).bind fun key => ?_
  refine (runs_onFault (runs_pop member) (turns_release key)).bind fun value => ?_
  have assigned : Runs c (Sound c scene ({value} + ({key} + K)) L)
      (EngineM.onHeap (assign owner key value)) (fun _ => Sound c scene ({value} + ({key} + K)) L)
      (Sound c scene ({value} + ({key} + K)) L) := by
    refine (runs_onHeap (φ := fun _ => True) (ψ := fun _ _ => True) fun M N => ?_).conseq
      (fun _ ok => ⟨ok, trivial⟩) (fun _ _ hs => hs.1) fun _ ok => ok
    exact (runs_assign (by simp) (by simp)).conseq (fun _ hs => hs.1) (fun _ _ ok => ⟨ok, trivial⟩)
      fun _ ok => ok
  have given : Turns (Precedes c) (Sound c scene ({value} + ({key} + K)) L)
      (fun e => (e.release key).release value) (Sound c scene K L) := by
    intro e ok
    exact ((turns_release key).comp (turns_release value)) e (ok.cast (add_left_comm _ _ _) rfl)
  exact runs_ensure assigned (fun _ => given) given

/-! ## Arithmetic -/

/-- The result of an operator owns nothing. -/
lemma detached_binary (op : Opcode) (a b : Value) : Detached (binary op a b) := by
  have int_error : ∀ (m n : Int64) fault, intResult op m n = .error fault →
      fault.isDangling = false := by
    intro m n fault failed
    unfold intResult at failed
    split at failed
    case h_4 => split at failed <;> cases failed; rfl
    case h_5 => split at failed <;> cases failed; rfl
    case h_6 => cases failed; rfl
    all_goals cases failed
  have real_error : ∀ (x y : Binary64) fault, realResult op x y = .error fault →
      fault.isDangling = false := by
    intro x y fault failed
    unfold realResult at failed
    split at failed
    case h_6 => cases failed; rfl
    all_goals cases failed
  unfold binary
  split
  case h_1 => exact .bind (int_error _ _) fun _ => rfl
  case h_2 => rfl
  case h_3 =>
    split
    case h_1 => exact .bind (real_error _ _) fun _ => rfl
    case h_2 => rfl

lemma detached_negated (v : Value) : Detached (negated v) := by
  unfold negated
  split <;> rfl

/-- Pushing the result of a computation that touches no cells. -/
private lemma runs_pushDetached (member : id ∈ scene.crew.map (·.1)) {result}
    (detached : Detached result) :
    Runs c (Sound c scene K L)
      (match result with
        | .ok v => pushValue id v
        | .error fault => throw fault)
      (fun _ => Sound c scene K L) (Sound c scene K L) := by
  cases result with
  | ok v => exact runs_pushPlain member detached
  | error fault => exact .throw (fun _ => detached) fun _ ok => ok

lemma runs_applyBinary (member : id ∈ scene.crew.map (·.1)) (op : Opcode) :
    Runs c (Sound c scene K L) (applyBinary id op) (fun _ => Sound c scene K L)
      (Sound c scene K L) := by
  refine (runs_popValue member).bind fun b => .assume fun plain_b => ?_
  refine (runs_onFault (runs_popValue member) (turns_releaseValue fun _ => plain_b)).bind
    fun a => .assume fun plain_a => ?_
  refine (Triple.modify ?_).bind fun _ => runs_pushDetached member (detached_binary op a b)
  exact (turns_releaseValue fun _ => plain_a).comp (turns_releaseValue fun _ => plain_b)

lemma runs_applyNegation (member : id ∈ scene.crew.map (·.1)) :
    Runs c (Sound c scene K L) (applyNegation id) (fun _ => Sound c scene K L)
      (Sound c scene K L) := by
  refine (runs_popValue member).bind fun v => .assume fun plain => ?_
  exact (Triple.modify (turns_releaseValue fun _ => plain)).bind fun _ =>
    runs_pushDetached member (detached_negated v)

lemma runs_test (member : id ∈ scene.crew.map (·.1)) (op : Opcode) :
    Runs c (Sound c scene K L) (test id op) (fun _ => Sound c scene K L) (Sound c scene K L) := by
  refine (runs_popAs member rfl).bind fun x => ?_
  split
  case h_1 => exact (runs_popAs member rfl).bind fun y => .pure fun _ ok => ok
  case h_8 => exact .throw (fun _ => rfl) fun _ ok => ok
  all_goals exact .pure fun _ ok => ok

end Operand

end FiberVM
