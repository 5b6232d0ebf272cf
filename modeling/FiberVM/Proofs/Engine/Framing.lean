import FiberVM.Proofs.Engine.Brackets

/-!
# Operands and what is beneath them

An instruction takes its operands from the top of the stack. Unless it finds too few of them, it
makes no difference to it what else is on the stack, and it leaves all of that in its place
(`Activation.framed_execute`). Markers are no operands: for an instruction that does not close the
list, a marker is like the bottom of the stack.

Two engines are compared that differ only in what the stack of one fiber stands on
(`Engine.Stands`).
-/

namespace FiberVM

/-- A fiber whose stack stands on further entries. -/
def Fiber.on (base : List (Option Ref)) (x : Fiber) : Fiber := { x with stack := x.stack ++ base }

namespace Engine

/-- In the second arena, the stack of one fiber stands on further entries. -/
structure Raises (f : FiberId) (base : List (Option Ref)) (fibers fibers' : Arena Fiber) :
    Prop where
  next : fibers'.next = fibers.next
  fiber : fibers'.get? f.id = (fibers.get? f.id).map (Fiber.on base)
  others : ∀ id, id ≠ f.id → fibers'.get? id = fibers.get? id

/-- The second engine is the first one, except that the stack of one fiber stands on further
entries. -/
def Stands (f : FiberId) (base : List (Option Ref)) (e e' : Engine) : Prop :=
  ∃ fibers, Raises f base e.fibers fibers ∧ e' = { e with fibers }

/-- Two operations have come to the same, on engines that are so related, or the first one has found
too few operands where the second one may find some, since there is no marker. -/
inductive Framed {ε α : Type} (U : ε → Prop) (f : FiberId) (base : List (Option Ref)) :
    EStateM.Result ε Engine α → EStateM.Result ε Engine α → Prop
  | ok {a e e'} (stands : Stands f base e e') : Framed U f base (.ok a e) (.ok a e')
  | error {err e e'} (stands : Stands f base e e') :
      Framed U f base (.error err e) (.error err e')
  | short {err e r} (few : U err) (unmarked : base.head? ≠ some none) :
    Framed U f base (.error err e) r

/-- What the stack of a fiber stands on makes no difference to an operation, unless it finds too few
operands. -/
def Frames {ε α : Type} (U : ε → Prop) (f : FiberId) (base : List (Option Ref))
    (m : EStateM ε Engine α) : Prop :=
  ∀ e e', Stands f base e e' → Framed U f base (m e) (m e')

/-- What the stack of a fiber stands on makes no difference to a change. -/
def Steady (f : FiberId) (base : List (Option Ref)) (change : Engine → Engine) : Prop :=
  ∀ e e', Stands f base e e' → Stands f base (change e) (change e')

variable {ε α β : Type} {U : ε → Prop} {f g : FiberId} {base : List (Option Ref)} {e e' : Engine}
  {x y : Fiber}

/-! ## Sequences -/

/-- Operations one after the other. -/
lemma Framed.bind {m} {k : α → EStateM ε Engine β} (first : Framed U f base (m e) (m e'))
    (next : ∀ a e₁ e₁', m e = .ok a e₁ → Stands f base e₁ e₁' →
      Framed U f base (k a e₁) (k a e₁')) :
    Framed U f base ((m >>= k) e) ((m >>= k) e') := by
  generalize run : m e = r at first next
  generalize run' : m e' = r' at first
  cases first with
  | ok stands =>
    rw [bind_of_ok run, bind_of_ok run']
    exact next _ _ _ rfl stands
  | error stands =>
    rw [bind_of_error run, bind_of_error run']
    exact .error stands
  | short few unmarked =>
    rw [bind_of_error run]
    exact .short few unmarked

/-- An operation has taken away some of the entries at the bottom of a stack. -/
def Takes {ε α : Type} (f : FiberId) (base : List (Option Ref)) : EStateM.Result ε Engine α → Prop
  | .ok _ e | .error _ e => ∃ x, e.fiber? f = some x ∧ ¬ base <:+ x.stack

lemma Stands.fiber? (stands : Stands f base e e') :
    e'.fiber? f = (e.fiber? f).map (Fiber.on base) := by
  obtain ⟨fibers, raises, rfl⟩ := stands
  exact raises.fiber

/-- What a stack stands on is not taken away. -/
lemma Stands.suffix (stands : Stands f base e e') (found : e'.fiber? f = some x) :
    base <:+ x.stack := by
  rw [stands.fiber?] at found
  obtain ⟨y, -, rfl⟩ := Option.map_eq_some_iff.1 found
  exact List.suffix_append _ _

/-- An operation that takes away something from beneath finds too few operands where it is not
there. -/
lemma Framed.short_of_takes {r r' : EStateM.Result ε Engine α} (framed : Framed U f base r r')
    (takes : Takes f base r') : ∃ err e, r = .error err e ∧ U err := by
  cases framed with
  | ok stands =>
    obtain ⟨x, found, taken⟩ := takes
    exact absurd (stands.suffix found) taken
  | error stands =>
    obtain ⟨x, found, taken⟩ := takes
    exact absurd (stands.suffix found) taken
  | short few => exact ⟨_, _, rfl, few⟩

/-- Above a marker an operation fails as it does at the bottom of a stack. -/
lemma Framed.error_of_marked {below : List (Option Ref)} {err : ε} {r' : EStateM.Result ε Engine α}
    (framed : Framed U f (none :: below) (.error err e) r') : ∃ e', r' = .error err e' := by
  cases framed with
  | error stands => exact ⟨_, rfl⟩
  | short _ unmarked => exact absurd rfl unmarked

/-- Both operations take the same branch. -/
lemma Framed.ite {c : Prop} [Decidable c] {m m' : EStateM ε Engine α}
    (pos : c → Framed U f base (m e) (m e')) (neg : ¬ c → Framed U f base (m' e) (m' e')) :
    Framed U f base ((if c then m else m') e) ((if c then m else m') e') := by
  split
  case isTrue holds => exact pos holds
  case isFalse fails => exact neg fails

namespace Frames

lemma bind {m} {k : α → EStateM ε Engine β} (first : Frames U f base m)
    (next : ∀ a, Frames U f base (k a)) : Frames U f base (m >>= k) :=
  fun e e' stands => (first e e' stands).bind fun a e₁ e₁' _ => next a e₁ e₁'

lemma pure (a : α) : Frames U f base (pure a) := fun _ _ stands => .ok stands

/-- An operation is gone on from, or the engine is changed where it has failed. -/
lemma recover {m} {k : α → EStateM ε Engine β} {undo : Engine → Engine} {whole}
    (first : Frames U f base m) (next : ∀ a, Frames U f base (k a)) (steady : Steady f base undo)
    (ok : ∀ e a e₁, m e = .ok a e₁ → whole e = k a e₁)
    (error : ∀ e err e₁, m e = .error err e₁ → whole e = .error err (undo e₁)) :
    Frames U f base whole := by
  intro e e' stands
  have framed := first e e' stands
  generalize run : m e = r at framed
  generalize run' : m e' = r' at framed
  cases framed with
  | ok stands =>
    rw [ok _ _ _ run, ok _ _ _ run']
    exact next _ _ _ stands
  | error stands =>
    rw [error _ _ _ run, error _ _ _ run']
    exact .error (steady _ _ stands)
  | short few unmarked =>
    rw [error _ _ _ run]
    exact .short few unmarked

lemma throw (err : ε) :
    Frames U f base (throw err : EStateM ε Engine α) := fun _ _ stands => .error stands

lemma modify {change : Engine → Engine} (steady : Steady f base change) :
    Frames U f base (modify change) :=
  fun e e' stands => .ok (steady e e' stands)

/-- What is read of an engine is the same for both, if it is not about stacks. -/
lemma get {k : Engine → EStateM ε Engine α} (same : ∀ e e', Stands f base e e' → k e' = k e)
    (next : ∀ e, Frames U f base (k e)) : Frames U f base (get >>= k) := by
  intro e e' stands
  change Framed U f base (k e e) (k e' e')
  rw [same e e' stands]
  exact next e e e' stands

/-- What is not about fibers is the same for both. -/
lemma read {k : Engine → EStateM ε Engine α} (same : ∀ e fibers, k { e with fibers } = k e)
    (next : ∀ e, Frames U f base (k e)) : Frames U f base (MonadState.get >>= k) := by
  refine .get ?_ next
  rintro e _ ⟨fibers, raises, rfl⟩
  exact same e fibers

end Frames

/-! ## Changes of engines -/

lemma Stands.others (stands : Stands f base e e') (other : g ≠ f) : e'.fiber? g = e.fiber? g := by
  obtain ⟨fibers, raises, rfl⟩ := stands
  exact raises.others g.id fun same => other (FiberId.eq_of_id_eq same)

/-- Whatever a fiber has besides its stack is the same for both. -/
lemma Stands.bind_fiber? (stands : Stands f base e e') (view : Fiber → Option α)
    (same : ∀ x, view (x.on base) = view x) (g : FiberId) :
    (e'.fiber? g).bind view = (e.fiber? g).bind view := by
  by_cases other : g = f
  · subst other
    rw [stands.fiber?, Option.bind_map]
    exact congrArg (Option.bind _) (funext same)
  · rw [stands.others other]

/-- The fiber itself is replaced, on the same entries. -/
lemma Stands.setFiber (stands : Stands f base e e') (y : Fiber) :
    Stands f base (e.setFiber f y) (e'.setFiber f (y.on base)) := by
  obtain ⟨fibers, raises, rfl⟩ := stands
  refine ⟨fibers.set f.id (y.on base), ⟨?_, ?_, fun id other => ?_⟩, rfl⟩
  · rw [Arena.next_set, raises.next, Engine.setFiber, Arena.next_set]
  · rw [Arena.get?_set, raises.fiber, Option.isSome_map, Engine.setFiber, Arena.get?_set]
    cases e.fibers.get? f.id <;> simp
  · rw [Arena.get?_set, if_neg fun same => other same.1, raises.others id other, Engine.setFiber,
      Arena.get?_set, if_neg fun same => other same.1]

lemma stands_setFiber (y : Fiber) : Stands f base (e.setFiber f y) (e.setFiber f (y.on base)) := by
  refine ⟨e.fibers.set f.id (y.on base), ⟨?_, ?_, fun id other => ?_⟩, rfl⟩
  · rw [Arena.next_set, setFiber, Arena.next_set]
  · rw [Arena.get?_set, setFiber, Arena.get?_set]
    cases e.fibers.get? f.id <;> simp
  · rw [Arena.get?_set, if_neg fun same => other same.1, setFiber, Arena.get?_set,
      if_neg fun same => other same.1]

/-- Another fiber is replaced. -/
lemma Stands.setOther (stands : Stands f base e e') (other : g ≠ f) (y : Fiber) :
    Stands f base (e.setFiber g y) (e'.setFiber g y) := by
  have ne : f.id ≠ g.id := fun same => other (FiberId.eq_of_id_eq same.symm)
  obtain ⟨fibers, raises, rfl⟩ := stands
  refine ⟨fibers.set g.id y, ⟨?_, ?_, fun id other' => ?_⟩, rfl⟩
  · rw [Arena.next_set, raises.next, Engine.setFiber, Arena.next_set]
  · rw [Arena.get?_set, if_neg fun same => ne same.1, raises.fiber, Engine.setFiber, Arena.get?_set,
      if_neg fun same => ne same.1]
  · rw [Arena.get?_set, raises.others g.id ne.symm, raises.others id other', Engine.setFiber,
      Arena.get?_set]

lemma steady_mapHeap (change : Heap → Heap) : Steady f base (·.mapHeap change) := by
  rintro e _ ⟨fibers, raises, rfl⟩
  exact ⟨fibers, raises, rfl⟩

lemma steady_release (r : Ref) : Steady f base (·.release r) := steady_mapHeap _

lemma steady_releaseAll (rs : List Ref) : Steady f base (·.releaseAll rs) := steady_mapHeap _

lemma Steady.comp {change later : Engine → Engine} (first : Steady f base change)
    (next : Steady f base later) :
    Steady f base fun e => later (change e) :=
  fun e e' stands => next _ _ (first e e' stands)

/-! ## Operations on engines -/

/-- What is beneath the operands makes no difference to an operation that may fail with a fault. -/
abbrev Oblivious (f : FiberId) (base : List (Option Ref)) (m : EngineM α) : Prop :=
  Frames (· = Fault.stackUnderflow) f base m

variable {m : EngineM α} {change : Engine → Engine}

lemma oblivious_onHeap (m : HeapM α) : Oblivious f base (EngineM.onHeap m) := by
  rintro e _ ⟨fibers, raises, rfl⟩
  unfold EngineM.onHeap
  dsimp only
  cases m e.heap with
  | ok a heap => exact .ok ⟨fibers, raises, rfl⟩
  | error fault heap => exact .error ⟨fibers, raises, rfl⟩

lemma oblivious_orFault (option : Option α) (fault : Fault) :
    Oblivious f base (EngineM.orFault option fault) := by
  cases option with
  | some a => exact .pure a
  | none => exact .throw fault

/-- A change may be made in any case. -/
lemma Frames.ensure (oblivious : Oblivious f base m) (steady : Steady f base change) :
    Oblivious f base (m.ensure change) := by
  have changed : ∀ a : α, Oblivious f base fun e => .ok a (change e) := fun a e e' stands =>
    .ok (steady e e' stands)
  refine oblivious.recover changed steady (fun e a e₁ run => ?_) fun e fault e₁ run => ?_
  all_goals
    unfold EngineM.ensure
    rw [run]

lemma Frames.onFault (oblivious : Oblivious f base m) (steady : Steady f base change) :
    Oblivious f base (m.onFault change) := by
  refine oblivious.recover .pure steady (fun e a e₁ run => ?_) fun e fault e₁ run => ?_
  all_goals
    unfold EngineM.onFault
    rw [run]
  rfl

/-- A fiber is looked up, and then used in the same way whatever its stack stands on. -/
lemma Stands.look {k : Fiber → EngineM α} (stands : Stands f base e e')
    (next : ∀ x, e.fiber? f = some x →
      Framed (· = .stackUnderflow) f base (k x e) (k (x.on base) e')) :
    Framed (· = .stackUnderflow) f base ((EngineM.fiber f >>= k) e)
      ((EngineM.fiber f >>= k) e') := by
  have moved := stands.fiber?
  cases found : e.fiber? f with
  | none =>
    rw [found] at moved
    rw [bind_of_error (fiber_of_none found), bind_of_error (fiber_of_none moved)]
    exact .error stands
  | some x =>
    rw [found] at moved
    rw [bind_of_ok (fiber_of_some found), bind_of_ok (fiber_of_some moved)]
    exact next x found

lemma oblivious_fiber {k : Fiber → EngineM α}
    (next : ∀ x e e', Stands f base e e' →
      Framed (· = .stackUnderflow) f base (k x e) (k (x.on base) e')) :
    Oblivious f base (EngineM.fiber f >>= k) :=
  fun e e' stands => stands.look fun x _ => next x e e' stands

end Engine

end FiberVM

/-! ## Operands -/

namespace FiberVM.Operand

open Engine

variable {f : FiberId} {base : List (Option Ref)} {α : Type}

lemma oblivious_push (r : Ref) : Oblivious f base (push f r) :=
  oblivious_fiber fun x _ _ stands => .ok (stands.setFiber { x with stack := some r :: x.stack })

lemma oblivious_pushValue (v : Value) : Oblivious f base (pushValue f v) :=
  (oblivious_onHeap _).bind fun r => (oblivious_push r).onFault (steady_release r)

lemma oblivious_pushValues (vs : List Value) : Oblivious f base (pushValues f vs) := by
  induction vs with
  | nil => exact .pure ()
  | cons v rest ih => exact (oblivious_pushValue v).bind fun _ => ih

lemma oblivious_pushRetained (r : Ref) : Oblivious f base (pushRetained f r) :=
  (oblivious_onHeap _).bind fun _ => oblivious_push r

/-- What is popped is above the latest marker. -/
lemma oblivious_pop : Oblivious f base (pop f) := by
  refine oblivious_fiber fun x e e' stands => ?_
  have moved : (x.on base).stack = x.stack ++ base := rfl
  rw [moved]
  cases stack : x.stack with
  | cons entry rest =>
    cases entry with
    | none => exact .error stands
    | some r => exact .ok (stands.setFiber { x with stack := rest })
  | nil =>
    -- Here it matters what the stack stands on: a marker is like the bottom.
    cases base with
    | nil => exact .error stands
    | cons entry base =>
      cases entry with
      | none => exact .error stands
      | some r => exact .short rfl (by simp)

lemma oblivious_popAs (view : Value → Option α) (fault : Fault) :
    Oblivious f base (popAs f view fault) := by
  refine oblivious_pop.bind fun r => Frames.ensure ?_ (steady_release r)
  exact (oblivious_onHeap _).bind fun v => oblivious_orFault _ _

lemma oblivious_popValue : Oblivious f base (popValue f) :=
  oblivious_pop.bind fun r => (oblivious_onHeap _).ensure (steady_release r)

lemma oblivious_popArguments : Oblivious f base (popArguments f) := by
  refine oblivious_popValue.bind fun v => ?_
  split
  · exact .pure _
  · exact .pure _
  · exact (Frames.modify (steady_mapHeap _)).bind fun _ => .throw _

lemma oblivious_openList : Oblivious f base (openList f) :=
  oblivious_fiber fun x _ _ stands => .ok (stands.setFiber { x with stack := none :: x.stack })

/-- The latest marker on a stack is found above what it stands on. -/
private lemma dropWhile_append (base : List (Option Ref)) {stack} (marked : none ∈ stack) :
    ∃ below, stack.dropWhile Option.isSome = none :: below ∧
      (stack ++ base).dropWhile Option.isSome = none :: (below ++ base) ∧
      (stack ++ base).takeWhile Option.isSome = stack.takeWhile Option.isSome := by
  induction stack with
  | nil => cases marked
  | cons entry rest ih =>
    cases entry with
    | none => exact ⟨rest, rfl, rfl, rfl⟩
    | some r =>
      obtain ⟨below, dropped, dropped', taken⟩ := ih ((List.mem_cons.1 marked).resolve_left nofun)
      exact ⟨below, dropped, dropped', congrArg (some r :: ·) taken⟩

/-- A list is closed in the same way whatever its marker stands on. -/
lemma oblivious_closeList {e e' x} (stands : Stands f base e e') (found : e.fiber? f = some x)
    (marked : none ∈ x.stack) :
    Framed (· = .stackUnderflow) f base (closeList f e) (closeList f e') := by
  refine stands.look fun y found' => ?_
  cases found.symm.trans found'
  obtain ⟨below, dropped, dropped', taken⟩ := dropWhile_append base marked
  have moved : (x.on base).stack = x.stack ++ base := rfl
  rw [moved, dropped, dropped', taken]
  exact oblivious_pushValue _ _ _ (stands.setFiber { x with stack := below })

lemma oblivious_getVariable (owner : Owner) : Oblivious f base (getVariable f owner) := by
  refine (oblivious_popAs _ _).bind fun key => .read (fun _ _ => rfl) fun e => ?_
  exact (oblivious_orFault _ _).bind fun r => oblivious_pushRetained r

lemma oblivious_setVariable (owner : Owner) : Oblivious f base (setVariable f owner) := by
  refine oblivious_pop.bind fun key => (oblivious_pop.onFault (steady_release key)).bind
    fun value => ?_
  exact (oblivious_onHeap _).ensure ((steady_release key).comp (steady_release value))

private lemma oblivious_pushResult (result : Except Fault Value) :
    Oblivious f base (match result with
      | .ok v => pushValue f v
      | .error fault => throw fault) := by
  cases result with
  | ok v => exact oblivious_pushValue v
  | error fault => exact .throw fault

lemma oblivious_applyBinary (op : Opcode) : Oblivious f base (applyBinary f op) := by
  refine oblivious_popValue.bind fun b => (oblivious_popValue.onFault (steady_mapHeap _)).bind
    fun a => ?_
  exact (Frames.modify (steady_mapHeap _)).bind fun _ => oblivious_pushResult _

lemma oblivious_applyNegation : Oblivious f base (applyNegation f) := by
  refine oblivious_popValue.bind fun v => ?_
  exact (Frames.modify (steady_mapHeap _)).bind fun _ => oblivious_pushResult _

/-- A test takes its operands from the top. -/
lemma oblivious_test (op : Opcode) : Oblivious f base (test f op) := by
  refine (oblivious_popAs _ _).bind fun x => ?_
  split
  · exact (oblivious_popAs _ _).bind fun y => .pure _
  · exact .pure _
  · exact .pure _
  · exact .pure _
  · exact .pure _
  · exact .pure _
  · exact .pure _
  · exact .throw _

end FiberVM.Operand

/-! ## Names -/

namespace FiberVM.Lookup

open Engine

variable {f : FiberId} {base : List (Option Ref)}

lemma steady_discard (t : Target) : Steady f base (discard t) := by
  intro e e' stands
  unfold discard
  split
  · exact steady_release _ _ _ stands
  · exact stands

lemma steady_leave (receiver : Receiver) : Steady f base (leave receiver) := by
  intro e e' stands
  unfold leave
  split
  · exact steady_release _ _ _ stands
  · exact stands

lemma oblivious_retained (r : Ref) : Oblivious f base (retained r) :=
  (oblivious_onHeap _).bind fun _ => .pure _

/-- The receiver of a target does not depend on the stack. -/
lemma oblivious_receiverOf (t : Target) : Oblivious f base (receiverOf t) := by
  rintro e _ ⟨fibers, raises, rfl⟩
  have stands : Stands f base e { e with fibers } := ⟨fibers, raises, rfl⟩
  cases t with
  | library name => exact .ok stands
  | function g receiver => exact .ok (steady_discard _ _ _ stands)
  | value r =>
    have released : Stands f base (e.release r) (({ e with fibers } : Engine).release r) :=
      steady_release r _ _ stands
    unfold receiverOf
    dsimp only
    split
    case h_3 => split <;> exact .ok released
    case h_5 => exact .ok stands
    all_goals exact .ok released

/-- The main fiber has the same cell. -/
lemma mainCell?_eq {e e'} (stands : Stands f base e e') : mainCell? e' = mainCell? e := by
  have main : e'.main = e.main := by
    obtain ⟨fibers, raises, rfl⟩ := stands
    rfl
  unfold mainCell?
  rw [main]
  cases e.main with
  | none => rfl
  | some g =>
    exact stands.bind_fiber? Fiber.cell (fun _ => rfl) g

/-- A search from the caller does not depend on the stack. -/
lemma oblivious_searchFirst (segment : String) : Oblivious f base (searchFirst f segment) := by
  refine .get (fun e e' stands => ?_) fun e => ?_
  · rw [mainCell?_eq stands]
  · split
    · exact oblivious_retained _
    · refine oblivious_fiber fun x e e' stands =>
        Frames.read (fun _ _ => rfl) (fun e => ?_) e e' stands
      split
      · exact oblivious_retained _
      · exact .pure _

/-- Neither does a search in a receiver. -/
lemma oblivious_searchReceiver (receiver : Receiver) (segment : String) :
    Oblivious f base (searchReceiver receiver segment) := by
  cases receiver with
  | fiber id =>
    refine .read (fun _ _ => rfl) fun e => ?_
    split
    · exact oblivious_retained _
    · exact .pure _
  | library name => exact .read (fun _ _ => rfl) fun e => .pure _
  | cell r =>
    refine (oblivious_onHeap _).bind fun v => .read (fun _ _ => rfl) fun e => ?_
    split
    · exact (oblivious_onHeap _).bind fun _ => .pure _
    · exact .pure _

/-- Neither does a search everywhere. -/
lemma oblivious_searchEverywhere (segment : String) :
    Oblivious f base (searchEverywhere segment) := by
  refine .read (fun _ _ => rfl) fun e => ?_
  split
  · exact oblivious_retained _
  · refine .read (fun _ _ => rfl) fun e => ?_
    split
    · exact .pure _
    · exact .read (fun _ _ => rfl) fun e => .pure _

/-- What is looked up first is tried first. -/
private lemma oblivious_orElse {first second : EngineM (Option Target)}
    (oblivious : Oblivious f base first) (oblivious' : Oblivious f base second) :
    Oblivious f base (do
      match ← first with
      | some t => return some t
      | none => second) := by
  refine oblivious.bind fun t => ?_
  split
  · exact .pure _
  · exact oblivious'

lemma oblivious_search (receiver : Receiver) (segment : String) (first : Bool) :
    Oblivious f base (search f receiver segment first) := by
  have rest : Oblivious f base _ :=
    oblivious_orElse (oblivious_searchReceiver receiver segment)
      (oblivious_searchEverywhere segment)
  unfold search
  cases first with
  | true => exact oblivious_orElse (oblivious_searchFirst segment) rest
  | false => exact oblivious_orElse (.pure none) rest

lemma oblivious_find (name : String) (receiver : Receiver) (segment : String) (first : Bool) :
    Oblivious f base (find f name receiver segment first) :=
  ((oblivious_search receiver segment first).ensure (steady_leave receiver)).bind fun _ =>
    oblivious_orFault _ _

lemma oblivious_follow (name : String) (t : Target) (segments : List String) :
    Oblivious f base (follow f name t segments) := by
  induction segments generalizing t with
  | nil => exact .pure _
  | cons segment rest ih =>
    refine (oblivious_receiverOf t).bind fun receiver =>
      (oblivious_orFault _ _).bind fun receiver => ?_
    exact (oblivious_find name receiver segment false).bind fun t => ih t

lemma oblivious_resolve (name : String) (receiver : Option Ref) :
    Oblivious f base (resolve f name receiver) := by
  have counted : Steady f base fun e => { e with searches := e.searches + 1 } := by
    rintro e _ ⟨fibers, raises, rfl⟩
    exact ⟨fibers, raises, rfl⟩
  refine (Frames.modify counted).bind fun _ => ?_
  split
  · exact oblivious_follow name _ _
  · exact .throw _
  · exact (oblivious_find name _ _ true).bind fun t => oblivious_follow name t _

lemma oblivious_known (index : Nat) : Oblivious f base (known f index) := by
  intro e e' stands
  have moved := stands.fiber?
  unfold known
  cases found : e.fiber? f with
  | none =>
    rw [found] at moved
    rw [moved]
    exact .ok stands
  | some x =>
    rw [found] at moved
    rw [moved]
    have heap : e'.heap = e.heap := by
      obtain ⟨fibers, raises, rfl⟩ := stands
      rfl
    dsimp only [Option.map_some]
    have cache : (x.on base).cache = x.cache := rfl
    rw [cache, heap]
    split
    · exact .ok stands
    · split
      · exact .ok stands
      · split
        case h_1 taken heap' _ =>
          obtain ⟨fibers, raises, rfl⟩ := stands
          exact .ok ⟨fibers, raises, rfl⟩
        case h_2 =>
          exact .ok (steady_mapHeap _ _ _ (stands.setFiber { x with cache := x.cache.erase index }))

/-- A target takes the place of another one in the cache. -/
private lemma oblivious_renew (index : Nat) (t : Target) :
    Oblivious f base (do
      let x ← EngineM.fiber f
      modify (·.setFiber f { x with cache := x.cache.insert index t })
      match (x.cache.find? index).bind Target.ref? with
      | some r => modify (·.mapHeap (·.releaseWeak r))
      | none => pure ()) := by
  refine oblivious_fiber fun x e e' stands => ?_
  have renewed := stands.setFiber { x with cache := x.cache.insert index t }
  have rest : Oblivious f base (match (x.cache.find? index).bind Target.ref? with
      | some r => modify (·.mapHeap (·.releaseWeak r))
      | none => pure ()) := by
    split
    · exact .modify (steady_mapHeap _)
    · exact .pure _
  exact rest _ _ renewed

lemma oblivious_remember (index : Nat) (t : Target) : Oblivious f base (remember f index t) := by
  unfold remember
  cases t.ref? with
  | some r => exact (oblivious_onHeap _).bind fun _ => oblivious_renew index t
  | none => exact oblivious_renew index t

lemma oblivious_resolveCached (image : Image) (index : Nat) :
    Oblivious f base (resolveCached f image index) := by
  refine (oblivious_known index).bind fun t => ?_
  split
  · exact .pure _
  · refine (oblivious_orFault _ _).bind fun name => (oblivious_resolve name none).bind fun t => ?_
    exact (oblivious_remember index t).bind fun _ => .pure _

end FiberVM.Lookup

/-! ## Making fibers -/

namespace FiberVM.Engine

variable {f g : FiberId} {base : List (Option Ref)} {α : Type} {e e' : Engine}
  {U : EngineError → Prop}

lemma frames_onHeap (m : HeapM α) : Frames U f base (RequestM.onHeap m) := by
  rintro e _ ⟨fibers, raises, rfl⟩
  unfold RequestM.onHeap RequestM.ofFault EngineM.onHeap
  dsimp only
  cases m e.heap with
  | ok a heap => exact .ok ⟨fibers, raises, rfl⟩
  | error fault heap => exact .error ⟨fibers, raises, rfl⟩

lemma frames_describe (image : Image) (v : Variable) : Frames U f base (describe image v) := by
  unfold describe
  split
  · exact .pure _
  · exact .throw _

private lemma frames_declareOne (name : String) (image : Image) (v : Variable) :
    Frames U f base (do
      let (variableName, type) ← describe image v
      let r ← RequestM.onHeap (Heap.declare (.machine name) variableName type.initial)
      RequestM.onHeap (Heap.downgrade r)
      return r) :=
  (frames_describe image v).bind fun _ => (frames_onHeap _).bind fun _ =>
    (frames_onHeap _).bind fun _ => .pure _

/-- Shared variables are declared whatever is on the stack. -/
lemma frames_declareShared (name : String) (image : Image) (declared : List Ref)
    (vs : List Variable) :
    Frames U f base (declareShared name image declared vs) := by
  induction vs generalizing declared with
  | nil => exact .pure declared
  | cons v rest ih =>
    have steady : Steady f base (·.mapHeap fun H =>
        (declared.foldl Heap.releaseWeak H).releaseOwner (.machine name)) :=
      steady_mapHeap _
    refine (frames_declareOne name image v).recover (fun r => ih (declared ++ [r])) steady
      (fun e r e₁ run => ?_) fun e err e₁ run => ?_
    all_goals
      rw [declareShared]
      dsimp only
      rw [run]
    rfl

/-- So are machines loaded. -/
lemma frames_load (name : String) : Frames U f base (load name) := by
  refine .read (fun _ _ => rfl) fun e => ?_
  split
  · exact .pure _
  · refine .read (fun _ _ => rfl) fun e => ?_
    split
    · exact .throw _
    · split
      · exact .throw _
      · refine (frames_declareShared name _ [] _).bind fun shared => ?_
        refine Frames.bind (.modify ?_) fun _ => .pure _
        rintro e _ ⟨fibers, raises, rfl⟩
        exact ⟨fibers, raises, rfl⟩

/-- Another fiber is ended. -/
lemma Stands.teardown (stands : Stands f base e e') (other : g ≠ f) :
    Stands f base (e.teardown g) (e'.teardown g) := by
  have same := stands.others other
  cases found : e.fiber? g with
  | none =>
    rw [found] at same
    rw [teardown_of_none found, teardown_of_none same]
    exact stands
  | some x =>
    have ne : f.id ≠ g.id := fun ids => other (FiberId.eq_of_id_eq ids.symm)
    rw [found] at same
    rw [teardown_eq found, teardown_eq same]
    obtain ⟨fibers, raises, rfl⟩ := stands
    refine ⟨fibers.erase g.id, ⟨raises.next, ?_, fun id other' => ?_⟩, rfl⟩
    · rw [Arena.get?_erase, if_neg ne, raises.fiber, Arena.get?_erase, if_neg ne]
    · rw [Arena.get?_erase, raises.others id other', Arena.get?_erase]

lemma frames_declareLocals (id : FiberId) (image : Image) (vs : List Variable) :
    Frames U f base (declareLocals id image vs) := by
  induction vs with
  | nil => exact .pure _
  | cons v rest ih =>
    exact (frames_describe image v).bind fun d => (frames_onHeap _).bind fun _ => ih

/-- Another fiber gets its cell. -/
lemma Stands.setCell (stands : Stands f base e e') (other : g ≠ f) (cell : Ref) :
    Stands f base
      (match e.fiber? g with
        | some x => e.setFiber g { x with cell := some cell }
        | none => e)
      (match e'.fiber? g with
        | some x => e'.setFiber g { x with cell := some cell }
        | none => e') := by
  rw [stands.others other]
  cases e.fiber? g with
  | none => exact stands
  | some x => exact stands.setOther other _

/-- Another fiber is made whatever is on the stack. -/
lemma frames_materialize (other : g ≠ f) (image : Image) :
    Frames U f base (materialize g image) := by
  intro e e' stands
  have allocated := frames_onHeap (U := U) (Heap.alloc (.fiber g) (.instance g)) e e' stands
  unfold materialize
  generalize RequestM.onHeap (Heap.alloc (.fiber g) (.instance g)) e = r at allocated ⊢
  generalize RequestM.onHeap (Heap.alloc (.fiber g) (.instance g)) e' = r' at allocated ⊢
  cases allocated with
  | error stands => exact .error stands
  | short few unmarked => exact .short few unmarked
  | @ok cell e e' stands =>
    have declared := frames_declareLocals
        (U := U) g image image.locals _ _ (stands.setCell other cell)
    dsimp only
    generalize declareLocals g image image.locals _ = r at declared ⊢
    generalize declareLocals g image image.locals _ = r' at declared ⊢
    cases declared with
    | ok stands => exact .ok stands
    | error stands => exact .error (steady_release cell _ _ stands)
    | short few unmarked => exact .short few unmarked

/-- A fiber that is made is another one. -/
lemma frames_spawn (stands : Stands f base e e') (issued : f.id < e.fibers.next) (name : String)
    (arguments : List Ref) :
    Framed U f base (spawn name arguments e) (spawn name arguments e') := by
  have loaded := frames_load (U := U) name e e' stands
  have later := meets_load (P := .nothing) name e trivial
  unfold spawn
  generalize load name e = r at loaded later ⊢
  generalize load name e' = r' at loaded ⊢
  cases loaded with
  | error stands => exact .error (steady_releaseAll arguments _ _ stands)
  | short few unmarked => exact .short few unmarked
  | @ok m e₁ e₁' stands =>
    have issued : f.id < e₁.fibers.next := issued.trans_le later.1.guards.next
    obtain ⟨fibers, raises, rfl⟩ := stands
    have other : (⟨e₁.fibers.next⟩ : FiberId) ≠ f := by
      rintro rfl
      exact Nat.lt_irrefl _ issued
    dsimp only
    rw [raises.next]
    have made : Stands f base
        { e₁ with fibers := e₁.fibers.insert { machine := m.name, image := m.image, arguments } }
        { e₁ with fibers := fibers.insert { machine := m.name, image := m.image, arguments } } := by
      refine ⟨_, ⟨congrArg (· + 1) raises.next, ?_, fun id other' => ?_⟩, rfl⟩
      · rw [Arena.get?_insert, raises.next, if_neg issued.ne, raises.fiber, Arena.get?_insert,
          if_neg issued.ne]
      · rw [Arena.get?_insert, raises.next, raises.others id other', Arena.get?_insert]
    have materialized := frames_materialize (U := U) other m.image _ _ made
    generalize materialize ⟨e₁.fibers.next⟩ m.image _ = r at materialized ⊢
    generalize materialize ⟨e₁.fibers.next⟩ m.image _ = r' at materialized ⊢
    cases materialized with
    | error stands => exact .error (stands.teardown other)
    | short few unmarked => exact .short few unmarked
    | ok stands =>
      dsimp only
      split
      · exact .error (steady_release _ _ _ (stands.teardown other))
      · exact .ok stands

end FiberVM.Engine

/-! ## Instructions -/

namespace FiberVM.Activation

open Engine

variable {base : List (Option Ref)} {a : Activation} {f : FiberId} {e e' : Engine}

lemma oblivious_operand : Oblivious f base a.operand := oblivious_orFault _ _

lemma oblivious_address : Oblivious f base a.address := oblivious_operand.bind fun _ => .pure _

lemma oblivious_string (index : Nat) : Oblivious f base (a.string index) := oblivious_orFault _ _

lemma oblivious_gotoState : Oblivious a.fiber base a.gotoState := by
  refine (Operand.oblivious_popAs _ _).bind fun index => (oblivious_orFault _ _).bind fun index =>
    ?_
  refine (oblivious_orFault _ _).bind fun address => Frames.bind (.modify ?_) fun _ => ?_
  · rintro e _ ⟨fibers, raises, rfl⟩
    exact ⟨fibers, raises, rfl⟩
  · refine oblivious_fiber fun x e e' stands => ?_
    exact .ok (stands.setFiber { x with state := index, suspended := none })

lemma oblivious_popGenerator : Oblivious a.fiber base a.popGenerator :=
  Operand.oblivious_pop.bind fun r => (oblivious_onHeap _).ensure (steady_release r)

/-- A registration does not depend on the stack. -/
lemma oblivious_register (condition : Condition) (pc : Nat) :
    Oblivious f base (a.register condition pc) := by
  refine (oblivious_onHeap _).bind fun _ => ?_
  rintro e _ ⟨fibers, raises, rfl⟩
  rw [bind_of_ok (rfl : (get : EngineM Engine) e = .ok e e)]
  rw [bind_of_ok (rfl : (get : EngineM Engine) { e with fibers } = .ok _ _)]
  dsimp only
  cases e.agenda.register a.continuation a.fiber a.cell condition pc e.now with
  | ok registered => exact .ok ⟨fibers, raises, rfl⟩
  | error err => exact .error ⟨fibers, raises, rfl⟩

/-- Identities that were issued stay so. -/
private lemma next_le_of_ok {α : Type} {m : EngineM α} {x : α} (makes : Makes .nothing m)
    (run : m e = .ok x e') :
    e.fibers.next ≤ e'.fibers.next := by
  have made := makes e trivial
  rw [run] at made
  exact made.1.guards.next

/-- A launch takes its operands from the top. -/
lemma framed_spawn (stands : Stands a.fiber base e e') (issued : a.fiber.id < e.fibers.next) :
    Framed (· = .stackUnderflow) a.fiber base (a.spawn e) (a.spawn e') := by
  refine (Operand.oblivious_popAs _ _ e e' stands).bind fun name e₁ e₁' popped stands => ?_
  refine (Operand.oblivious_popArguments e₁ e₁' stands).bind fun arguments e₂ e₂' popped' stands =>
    ?_
  have issued : a.fiber.id < e₂.fibers.next :=
    (issued.trans_le (next_le_of_ok (Operand.makes_popAs _ _ rfl) popped)).trans_le
      (next_le_of_ok (Operand.makes_popArguments _) popped')
  have config : e₂'.config = e₂.config := by
    obtain ⟨fibers, raises, rfl⟩ := stands
    rfl
  rw [bind_of_ok (rfl : (get : EngineM Engine) e₂ = .ok e₂ e₂)]
  rw [bind_of_ok (rfl : (get : EngineM Engine) e₂' = .ok e₂' e₂'), config]
  refine .ite (fun _ => .error (steady_releaseAll arguments _ _ stands)) fun _ => ?_
  have spawned := frames_spawn (U := fun _ => False) stands issued name arguments
  dsimp only
  generalize Engine.spawn name arguments e₂ = r at spawned ⊢
  generalize Engine.spawn name arguments e₂' = r' at spawned ⊢
  cases spawned with
  | ok stands => exact .ok stands
  | @error err _ _ stands => cases err <;> exact .error stands
  | short few => exact few.elim

lemma oblivious_finishCall (receiver : Option Ref) (args : List Value) {results}
    (oblivious : Oblivious f base results) :
    Oblivious f base (finishCall f receiver args results) := by
  have given : Steady f base fun e =>
      (e.mapHeap (·.releaseValues args)).releaseAll receiver.toList :=
    (steady_mapHeap _).comp (steady_releaseAll _)
  exact (oblivious.ensure given).bind fun results => Operand.oblivious_pushValues results

lemma oblivious_callBuiltin (n : Native) (b : Builtin) (receiver : Option Ref) (args : List Value) :
    Oblivious f base (callBuiltin n b receiver args) := by
  refine .read (fun _ _ => rfl) fun e => (oblivious_onHeap _).bind fun result => ?_
  refine Frames.bind (.modify ?_) fun _ => .pure _
  rintro e _ ⟨fibers, raises, rfl⟩
  exact ⟨fibers, raises, rfl⟩

/-- A function is called whatever is beneath its arguments. -/
lemma oblivious_callNative (n : Native) (receiver : Option Ref) (arguments : List Ref) :
    Oblivious a.fiber base (a.callNative n receiver arguments) := by
  have copied : Oblivious a.fiber base _ := ((oblivious_onHeap (Heap.copyAll [] arguments)).ensure
    (steady_releaseAll arguments)).onFault (steady_releaseAll receiver.toList)
  refine copied.bind fun args => ?_
  split
  · exact (oblivious_finishCall receiver args (.throw _)).bind fun _ => .pure _
  · exact .pure _
  · exact (oblivious_finishCall receiver args (oblivious_callBuiltin _ _ _ _)).bind fun _ => .pure _

lemma oblivious_takeArguments (cell : Ref) : Oblivious f base (takeArguments cell) := by
  refine ((oblivious_onHeap _).ensure (steady_release cell)).bind fun v => ?_
  split
  · exact .pure _
  · exact Frames.bind (.modify (steady_mapHeap _)) fun _ => .throw _

/-- So is a target. -/
lemma oblivious_invoke (t : Target) (cell : Ref) : Oblivious a.fiber base (a.invoke t cell) := by
  refine ((oblivious_takeArguments cell).onFault (Lookup.steady_discard t)).bind fun arguments => ?_
  cases t with
  | value r =>
    dsimp only
    split
    · exact (Operand.oblivious_push r).bind fun _ => .pure _
    · exact Frames.bind (.modify ((steady_releaseAll arguments).comp (steady_release r))) fun _ =>
        .throw _
  | library name => exact Frames.bind (.modify (steady_releaseAll arguments)) fun _ => .throw _
  | function n receiver => exact oblivious_callNative n receiver arguments

lemma oblivious_call (index : Nat) : Oblivious a.fiber base (a.call index) := by
  unfold call
  split
  · exact fun e e' stands => .error stands
  · refine Operand.oblivious_pop.bind fun cell => ?_
    refine ((Lookup.oblivious_resolveCached a.image index).onFault (steady_release cell)).bind
      fun t => ?_
    exact oblivious_invoke t cell

/-- A method takes its operands from the top. -/
lemma oblivious_callDynamic (index : Nat) : Oblivious a.fiber base (a.callDynamic index) := by
  refine (oblivious_string index).bind fun name => Operand.oblivious_pop.bind fun cell => ?_
  refine oblivious_fiber fun x e e' stands => ?_
  have receivers : (x.on base).receivers = x.receivers := rfl
  rw [receivers]
  cases x.receivers with
  | nil => exact .error (steady_release cell _ _ stands)
  | cons receiver rest =>
    have taken := stands.setFiber { x with receivers := rest }
    have resolved : Oblivious a.fiber base _ :=
      (Lookup.oblivious_resolve name (some receiver)).onFault (steady_release cell)
    exact (resolved.bind fun t => oblivious_invoke t cell) _ _ taken

lemma oblivious_moveToReceivers : Oblivious a.fiber base a.moveToReceivers :=
  Operand.oblivious_pop.bind fun r => oblivious_fiber fun x _ _ stands =>
    .ok (stands.setFiber { x with receivers := r :: x.receivers })

/-- The top of the stack is duplicated whatever is beneath it. -/
lemma oblivious_duplicate : Oblivious a.fiber base a.duplicate := by
  refine oblivious_fiber fun x e e' stands => ?_
  have moved : (x.on base).stack = x.stack ++ base := rfl
  rw [moved]
  cases x.stack with
  | cons entry rest =>
    cases entry with
    | none => exact .error stands
    | some r => exact Operand.oblivious_pushRetained r _ _ stands
  | nil =>
    cases base with
    | nil => exact .error stands
    | cons entry base =>
      cases entry with
      | none => exact .error stands
      | some r => exact .short rfl (by simp)

lemma oblivious_suspend : Oblivious a.fiber base a.suspend :=
  oblivious_fiber fun x _ _ stands => .ok (stands.setFiber { x with suspended := some (a.pc + 1) })

/-- What is beneath the operands makes no difference to an instruction, unless it finds too few of
them, or closes a list that begins there. -/
lemma framed_execute {x op} (stands : Stands a.fiber base e e') (found : e.fiber? a.fiber = some x)
    (marked : op = .paramsEnd → none ∈ x.stack) (inline : Nat) :
    Framed (· = .stackUnderflow) a.fiber base (a.execute op inline e) (a.execute op inline e') := by
  have advance : ∀ {m : EngineM Unit}, Oblivious a.fiber base m →
      Oblivious a.fiber base (do m; return Control.advance) :=
    fun oblivious => oblivious.bind fun _ => .pure _
  have issued : a.fiber.id < e.fibers.next := lt_next_of_isSome (found ▸ rfl)
  cases op with
  | nop | endState | endBody => exact .ok stands
  | pushNil => exact advance (Operand.oblivious_pushValue _) e e' stands
  | pushInt | pushReal =>
    exact (oblivious_operand.bind fun w => advance (Operand.oblivious_pushValue _)) e e' stands
  | pushString =>
    exact ((oblivious_string inline).bind fun s =>
      advance (Operand.oblivious_pushValue _)) e e' stands
  | pop =>
    exact (Operand.oblivious_pop.bind fun r => advance (.modify (steady_release r))) e e' stands
  | dup => exact advance oblivious_duplicate e e' stands
  | getSelf | getShared | getGlobal => exact advance (Operand.oblivious_getVariable _) e e' stands
  | setSelf | setShared | setGlobal => exact advance (Operand.oblivious_setVariable _) e e' stands
  | getFrame =>
    exact ((oblivious_orFault _ _).bind fun r =>
      advance (Operand.oblivious_pushRetained r)) e e' stands
  | paramsStart => exact advance Operand.oblivious_openList e e' stands
  | paramsEnd =>
    exact (Operand.oblivious_closeList stands found (marked rfl)).bind fun _ _ _ _ stands =>
      .ok stands
  | call => exact oblivious_call inline e e' stands
  | callDynamic => exact oblivious_callDynamic inline e e' stands
  | dot => exact advance oblivious_moveToReceivers e e' stands
  | ifEqual | ifZero | ifNonzero | ifNegative | ifPositive | ifAtMostZero | ifAtLeastZero =>
    refine ((Operand.oblivious_test _).bind fun holds => ?_) e e' stands
    split
    · exact .pure _
    · exact .pure _
  | add | sub | mul | div | mod => exact advance (Operand.oblivious_applyBinary _) e e' stands
  | neg => exact advance Operand.oblivious_applyNegation e e' stands
  | gotoState => exact (oblivious_gotoState.bind fun _ => .pure _) e e' stands
  | goto => exact (oblivious_address.bind fun _ => .pure _) e e' stands
  | forEach =>
    exact (oblivious_address.bind fun _ => oblivious_popGenerator.bind fun _ => .pure _) e e' stands
  | on =>
    exact (oblivious_address.bind fun _ => (Operand.oblivious_popAs _ _).bind fun condition =>
      advance (oblivious_register condition _)) e e' stands
  | wait =>
    unfold execute
    dsimp only
    split
    · exact .error stands
    · exact ((Operand.oblivious_popAs _ _).bind fun condition =>
        (oblivious_register condition _).bind fun _ => .pure _) e e' stands
  | suspend =>
    unfold execute
    dsimp only
    split
    · exact .error stands
    · exact (oblivious_suspend.bind fun _ => .pure _) e e' stands
  | launch => exact (framed_spawn stands issued).bind fun _ _ _ _ stands => .ok stands

end FiberVM.Activation
