import FiberVM.Proofs.Engine.Instruction

/-!
# Reads of cells that may have lost their value

Wherever an instruction reads a cell, it fails if the cell has lost its value, with three exceptions
in which it goes on: a name is looked up in what a variable holds, an element of an array is
printed, and an array is read once more after an element was made for it. Here the way of these
reads is left open (`Heap.Reading`). If they look whether there is a value (`Heap.peek`),
instructions are those of the engine, whatever its state (`Activation.executeBy_peek`). If they fail
where there is none (`Heap.insist`), no read of a lost value goes unnoticed.

In a sound engine, under a host that owns its references, both ways come to the same
(`Activation.coincide_execute`), so every cell that an instruction reads has a value.
-/

namespace FiberVM

/-! ## Operations that coincide -/

/-- Two operations do the same where a condition holds. -/
def Coincide {ε σ α : Type} (P : σ → Prop) (m m' : EStateM ε σ α) : Prop := ∀ s, P s → m s = m' s

namespace Coincide

variable {ε σ α β : Type} {P P' : σ → Prop} {R : σ → σ → Prop} {E : ε → Prop} {F : σ → Prop}
  {Q : α → σ → Prop} {m m' : EStateM ε σ α} {k k' : α → EStateM ε σ β}

/-- An operation coincides with itself. -/
protected lemma refl (m : EStateM ε σ α) : Coincide P m m := fun _ _ => rfl

/-- The condition may be strengthened. -/
lemma pre (same : Coincide P m m') (before : ∀ s, P' s → P s) : Coincide P' m m' :=
  fun s hs => same s (before s hs)

/-- The condition may hold a fact that does not depend on the state. -/
lemma assume {φ : Prop} (same : φ → Coincide P m m') : Coincide (fun s => P s ∧ φ) m m' :=
  fun s hs => same hs.2 s hs.1

/-- Sequences coincide if what comes first does, and what comes next where that leads to. -/
lemma bind (first : Coincide P m m') (runs : Triple R E P m' Q F)
    (next : ∀ a, Coincide (Q a) (k a) (k' a)) : Coincide P (m >>= k) (m' >>= k') := by
  intro s hs
  have post := runs s hs
  cases run : m' s with
  | ok a t =>
    rw [run] at post
    rw [bind_of_ok ((first s hs).trans run), bind_of_ok run]
    exact next a t post.2
  | error err t => rw [bind_of_error ((first s hs).trans run), bind_of_error run]

/-- Sequences that go on in the same way coincide if what comes first does. -/
lemma bind_same (first : Coincide P m m') (k : α → EStateM ε σ β) :
    Coincide P (m >>= k) (m' >>= k) := by
  intro s hs
  change EStateM.bind m k s = EStateM.bind m' k s
  rw [EStateM.bind, EStateM.bind, first s hs]

/-- Sequences that begin in the same way coincide if what comes next does. -/
lemma after (runs : Triple R E P m Q F) (next : ∀ a, Coincide (Q a) (k a) (k' a)) :
    Coincide P (m >>= k) (m >>= k') :=
  bind (.refl m) runs next

/-- After a change of the state. -/
lemma modify {change : σ → σ} {T : σ → Prop} {m m' : EStateM ε σ α} (turns : Turns R P change T)
    (next : Coincide T m m') :
    Coincide P (do modify change; m) (do modify change; m') :=
  fun s hs => next (change s) (turns s hs).2

variable {I : Engine → Prop} {x x' : EngineM α}

/-- A change that is made in any case. -/
lemma ensure (same : Coincide I x x') (change : Engine → Engine) :
    Coincide I (x.ensure change) (x'.ensure change) := by
  intro e he
  rw [EngineM.ensure, EngineM.ensure, same e he]

/-- A change that is made after a failure. -/
lemma onFault (same : Coincide I x x') (change : Engine → Engine) :
    Coincide I (x.onFault change) (x'.onFault change) := by
  intro e he
  rw [EngineM.onFault, EngineM.onFault, same e he]

/-- Operations on the heap of an engine. -/
lemma onHeap {P : Heap → Prop} {m m' : HeapM α} (same : Coincide P m m') :
    Coincide (fun e => P e.heap) (EngineM.onHeap m) (EngineM.onHeap m') := by
  intro e he
  rw [EngineM.onHeap, EngineM.onHeap, same e.heap he]

end Coincide

/-! ## Reads -/

namespace Heap

/-- A way to read a cell that may have lost its value. -/
abbrev Reading := Ref → HeapM (Option Value)

/-- Looks whether a cell has a value. -/
def peek : Reading := fun r h => .ok (h.get? r) h

/-- Reads the value of a cell, which must be there. -/
def insist : Reading := fun r => do return some (← read r)

variable {h : Heap} {r : Ref} {v : Value} {K L : Multiset Ref}

/-- Where there is a value, both ways of reading come to the same. -/
lemma insist_eq (found : h.get? r = some v) : insist r h = peek r h := by
  have run : read r h = .ok v h := by rw [read, found]
  rw [insist, bind_of_ok run, peek, found]
  rfl

/-- Where there is no value, the strict way of reading fails. -/
lemma insist_of_lost (lost : h.get? r = none) : insist r h = .error .valueFreed h := by
  have run : read r h = .error .valueFreed h := by rw [read, lost]
  rw [insist, bind_of_error run]

/-- The text of an element of an array that is read in the given way. -/
def elementTextBy (reading : Reading) (text : Value → HeapM String) (r : Ref) : HeapM String := do
  match ← reading r with
  | none => return "<freed>"
  | some v => text v

/-- The text of a value whose elements, if it is an array, are written in the given way. -/
def textWithBy (element : Ref → HeapM String) : Value → HeapM String
  | .array elements => do return "[" ++ ", ".intercalate (← elements.toList.mapM element) ++ "]"
  | v => return textWith (fun _ => "") v

/-- The text of a value, followed into arrays so many levels deep, whose elements are read in the
given way. -/
def renderToBy (reading : Reading) : Nat → Value → HeapM String
  | 0 => textWithBy (elementTextBy reading fun _ => return "...")
  | depth + 1 => textWithBy (elementTextBy reading (renderToBy reading depth))

/-- Operations that leave the heap as it is do so one after the other. -/
private lemma mapM_of_same {α β : Type} {f : α → HeapM β} {g : α → β} {l : List α}
    (each : ∀ a ∈ l, f a h = .ok (g a) h) : l.mapM f h = .ok (l.map g) h := by
  induction l with
  | nil => rfl
  | cons a l ih =>
    have rest := ih fun b hb => each b (List.mem_cons_of_mem a hb)
    rw [List.mapM_cons, bind_of_ok (each a List.mem_cons_self), bind_of_ok rest]
    rfl

/-- The text of a value is what the heap writes if the texts of its elements are. -/
private lemma textWithBy_eq {element : Ref → HeapM String} {text : Ref → String}
    (each : ∀ r ∈ v.refs, element r h = .ok (text r) h) :
    textWithBy element v h = .ok (textWith text v) h := by
  cases v with
  | array elements => exact bind_of_ok (mapM_of_same each)
  | nil | int | real | string | fiber | «instance» | library | condition => rfl

/-- If reads among some references, with all that is reached from there, look whether there is a
value, then the text of a value with such references is what the heap writes. -/
lemma renderToBy_eq {reading} {S : Ref → Prop} (looks : ∀ r, S r → reading r h = peek r h)
    (closed : ∀ r v, S r → h.get? r = some v → ∀ s ∈ v.refs, S s) (depth : Nat)
    (inside : ∀ r ∈ v.refs, S r) : renderToBy reading depth v h = .ok (h.renderTo depth v) h := by
  have read : ∀ r, S r → reading r h = .ok (h.get? r) h := looks
  induction depth generalizing v with
  | zero =>
    refine textWithBy_eq fun r listed => ?_
    rw [elementTextBy, elementText, bind_of_ok (read r (inside r listed))]
    cases h.get? r with
    | none => rfl
    | some v => rfl
  | succ depth ih =>
    refine textWithBy_eq fun r listed => ?_
    rw [elementTextBy, elementText, bind_of_ok (read r (inside r listed))]
    cases found : h.get? r with
    | none => rfl
    | some v => exact ih (closed r v (inside r listed) found)

/-- With reads that look whether there is a value, texts are those of the heap. -/
lemma renderToBy_peek (depth : Nat) (v : Value) :
    renderToBy peek depth v h = .ok (h.renderTo depth v) h :=
  renderToBy_eq (S := fun _ => True) (fun _ _ => rfl) (fun _ _ _ _ _ _ => trivial) depth
    fun _ _ => trivial

/-- In a sound heap, strict reads write what is in the hand as the heap does. -/
lemma renderToBy_insist (ok : h.Sound .owning K L) (depth : Nat) (held : ∀ r ∈ v.refs, r ∈ K) :
    renderToBy insist depth v h = .ok (h.renderTo depth v) h := by
  refine renderToBy_eq (S := fun r => h.Live .owning r) (fun r live => ?_) (fun r v _ found s hs =>
    ?_)
    depth fun r hr => ok.live_of_mem (held r hr)
  · obtain ⟨v, found⟩ := ok.get?_of_live live rfl
    exact insist_eq found
  · exact ok.live_of_get? found hs

/-- In a sound heap, strict reads write values that are in the hand as the heap does. -/
private lemma mapM_insist {args : List Value} (ok : h.Sound .owning K L)
    (held : ∀ v ∈ args, ∀ r ∈ v.refs, r ∈ K) :
    args.mapM (renderToBy insist 17) h = .ok (args.map h.render) h :=
  mapM_of_same fun v hv => renderToBy_insist ok 17 (held v hv)

/-- Values are written one after the other. -/
private lemma mapM_peek (args : List Value) :
    args.mapM (renderToBy peek 17) h = .ok (args.map h.render) h :=
  mapM_of_same fun v _ => renderToBy_peek 17 v

end Heap

/-! ## Built-in functions -/

namespace Builtin

variable {K L : Multiset Ref} {context : CallContext} {v : Value} {args : List Value}

/-- Puts a copy of a value at the end of an array, which is read once more in the given way. -/
def pushBy (reading : Heap.Reading) (context : CallContext) (v : Value) : HeapM Unit := do
  let r ← receiver context
  match ← Heap.read r with
  | .array _ =>
    let element ← Heap.allocTemporary (← Heap.copyValue v)
    match ← reading r with
    | some (.array elements) => modify (·.overwrite r (.array (elements.push element)))
    | _ =>
      modify (·.release element)
      throw .expectedArray
  | _ => throw .expectedArray

/-- Runs a built-in function with reads in the given way. -/
def runBy (reading : Heap.Reading) (b : Builtin) (context : CallContext) (args : List Value) :
    HeapM (List Value × Option String) :=
  match b, args with
  | print, args => do
    return ([], some (" ".intercalate (← args.mapM (Heap.renderToBy reading 17))))
  | arrayPush, [v] => do
    pushBy reading context v
    return ([], none)
  | b, args => b.run context args

/-- With reads that look whether there is a value, a built-in function is what it is. -/
lemma runBy_peek (b : Builtin) (context : CallContext) (args : List Value) :
    b.runBy Heap.peek context args = b.run context args := by
  unfold runBy
  split
  case h_1 => exact funext fun h => bind_of_ok (Heap.mapM_peek args)
  case h_2 => rfl
  case h_3 => rfl

/-- An array in the hand is still there after an element was made for it. -/
lemma coincide_push (held : ∀ r, context.receiver = some r → r ∈ K) (owned : ∀ r ∈ v.refs, r ∈ K) :
    Coincide (Heap.Sound .owning K L) (pushBy Heap.insist context v) (push context v) := by
  refine .after (runs_receiver (c := .owning)) fun r => .assume fun found => ?_
  refine .after (Heap.runs_read.pre fun h ok => ⟨ok, ok.live_of_mem (held r found)⟩) fun w => ?_
  cases w with
  | array elements =>
    refine .after (runs_copyElement owned) fun w => .assume fun plain => ?_
    refine .after (Heap.runs_alloc .temporary fun _ => plain) fun element h ok => ?_
    obtain ⟨w, value⟩ := ok.1.get?_of_live
      (ok.1.live_of_mem (Multiset.mem_add.2 (.inr (held r found)))) rfl
    exact Coincide.bind_same (P := (· = h)) (fun _ same => same ▸ Heap.insist_eq value) _ h rfl
  | nil | int | real | string | fiber | «instance» | library | condition => exact .refl _

/-- In a sound heap a built-in function reads no value that was lost. -/
lemma coincide_run (b : Builtin) (held : ∀ r, context.receiver = some r → r ∈ K)
    (owned : ∀ v ∈ args, ∀ r ∈ v.refs, r ∈ K) :
    Coincide (Heap.Sound .owning K L) (b.runBy Heap.insist context args) (b.run context args) := by
  unfold runBy
  split
  case h_1 => exact fun h ok => bind_of_ok (Heap.mapM_insist ok owned)
  case h_2 v => exact (coincide_push held (owned v List.mem_cons_self)).bind_same _
  case h_3 => exact .refl _

end Builtin

namespace Native

variable {K L : Multiset Ref} {context : CallContext} {args : List Value}

/-- Runs a built-in function under the signatures of a native function, with reads in the given
way. -/
def runBuiltinBy (reading : Heap.Reading) (f : Native) (b : Builtin) (context : CallContext)
    (args : List Value) : HeapM (List Value × Option String) := do
  match f.args.fault? args with
  | some fault => throw fault
  | none =>
    let (results, line) ← b.runBy reading context args
    return (← f.checkResults results, line)

/-- With reads that look whether there is a value, a call of a built-in function is what it is. -/
lemma runBuiltinBy_peek (f : Native) (b : Builtin) (context : CallContext) (args : List Value) :
    f.runBuiltinBy Heap.peek b context args = f.runBuiltin b context args := by
  unfold runBuiltinBy runBuiltin
  cases f.args.fault? args with
  | some fault => rfl
  | none => exact congrArg (· >>= _) (b.runBy_peek context args)

/-- In a sound heap a call of a built-in function reads no value that was lost. -/
lemma coincide_runBuiltin (f : Native) (b : Builtin)
    (held : ∀ r, context.receiver = some r → r ∈ K)
    (owned : ∀ v ∈ args, ∀ r ∈ v.refs, r ∈ K) :
    Coincide (Heap.Sound .owning K L) (f.runBuiltinBy Heap.insist b context args)
      (f.runBuiltin b context args) := by
  unfold runBuiltinBy runBuiltin
  cases f.args.fault? args with
  | some fault => exact .refl _
  | none => exact (b.coincide_run held owned).bind_same _

end Native

open Engine

/-! ## Looking names up -/

namespace Lookup

variable {scene : Scene} {K L : Multiset Ref} {caller : FiberId}

/-- The receiver that a target is for the next segment, with reads in the given way. -/
def receiverBy (reading : Heap.Reading) (t : Target) : EngineM (Option Receiver) :=
  match t with
  | .library name => return some (.library name)
  | .function .. => do
    modify (discard t)
    return none
  | .value r => do
    match ← EngineM.onHeap (reading r) with
    | none =>
      modify (·.release r)
      return none
    | some (.instance id) =>
      modify (·.release r)
      return some (.fiber id)
    | some (.fiber cell) =>
      match ← EngineM.onHeap (reading cell) with
      | some (.instance id) =>
        modify (·.release r)
        return some (.fiber id)
      | _ =>
        modify (·.release r)
        return none
    | some (.library name) =>
      modify (·.release r)
      return some (.library name)
    | some _ => return some (.cell r)

/-- Follows segments from a target, with reads in the given way. -/
def followBy (reading : Heap.Reading) (caller : FiberId) (name : String) :
    Target → List String → EngineM Target
  | t, [] => return t
  | t, segment :: rest => do
    let receiver ← EngineM.orFault (← receiverBy reading t) (.unknownIdentifier name)
    followBy reading caller name (← find caller name receiver segment false) rest

/-- Looks a name up for a fiber, with reads in the given way. -/
def resolveBy (reading : Heap.Reading) (caller : FiberId) (name : String) (receiver : Option Ref) :
    EngineM Target := do
  modify fun e => { e with searches := e.searches + 1 }
  match receiver, Name.segments name with
  | some r, segments => followBy reading caller name (.value r) segments
  | none, [] => throw (.unknownIdentifier name)
  | none, segment :: rest =>
    followBy reading caller name (← find caller name (.fiber caller) segment true) rest

/-- What the name with an index denotes, with reads in the given way where it is not known yet. -/
def resolveCachedBy (reading : Heap.Reading) (caller : FiberId) (image : Image) (index : Nat) :
    EngineM Target := do
  match ← known caller index with
  | some t => return t
  | none =>
    let name ← EngineM.orFault (image.string? index) .outOfBounds
    let t ← resolveBy reading caller name none
    remember caller index t
    return t

/-- With reads that look whether there is a value, receivers are what they are. -/
lemma receiverBy_peek (t : Target) : receiverBy Heap.peek t = receiverOf t := by
  funext e
  cases t with
  | library name => rfl
  | function f receiver => rfl
  | value r =>
    have seen : ∀ r, EngineM.onHeap (Heap.peek r) e = .ok (e.heap.get? r) e := fun _ => rfl
    rw [receiverBy, receiverOf, bind_of_ok (seen r)]
    cases e.heap.get? r with
    | none => rfl
    | some v =>
      cases v with
      | fiber cell =>
        dsimp only
        rw [bind_of_ok (seen cell)]
        cases e.heap.get? cell with
        | none => rfl
        | some w => cases w <;> rfl
      | nil | int | real | string | array | «instance» | library | condition => rfl

/-- With reads that look whether there is a value, names lead where they lead. -/
lemma followBy_peek (caller : FiberId) (name : String) (t : Target) (segments : List String) :
    followBy Heap.peek caller name t segments = follow caller name t segments := by
  induction segments generalizing t with
  | nil => rfl
  | cons segment rest ih =>
    rw [followBy, follow, receiverBy_peek]
    refine congrArg (receiverOf t >>= ·) (funext fun found => ?_)
    refine congrArg (EngineM.orFault found _ >>= ·) (funext fun receiver => ?_)
    exact congrArg (find caller name receiver segment false >>= ·) (funext ih)

/-- With reads that look whether there is a value, names denote what they denote. -/
lemma resolveBy_peek (caller : FiberId) (name : String) (receiver : Option Ref) :
    resolveBy Heap.peek caller name receiver = resolve caller name receiver := by
  refine congrArg (modify _ >>= ·) (funext fun _ => ?_)
  cases receiver with
  | some r => exact followBy_peek caller name (.value r) (Name.segments name)
  | none =>
    cases Name.segments name with
    | nil => rfl
    | cons segment rest =>
      exact congrArg (find caller name (.fiber caller) segment true >>= ·)
        (funext fun t => followBy_peek caller name t rest)

/-- With reads that look whether there is a value, calls find what they find. -/
lemma resolveCachedBy_peek (caller : FiberId) (image : Image) (index : Nat) :
    resolveCachedBy Heap.peek caller image index = resolveCached caller image index := by
  refine congrArg (known caller index >>= ·) (funext fun found => ?_)
  cases found with
  | some t => rfl
  | none =>
    refine congrArg (EngineM.orFault _ _ >>= ·) (funext fun name => ?_)
    exact congrArg (· >>= _) (resolveBy_peek caller name none)

/-- A target in the hand has a value, and so has what it refers to. -/
lemma coincide_receiver (t : Target) :
    Coincide (Sound .owning scene (t.refs + K) L) (receiverBy Heap.insist t) (receiverOf t) := by
  rw [← receiverBy_peek]
  cases t with
  | library name => exact .refl _
  | function f receiver => exact .refl _
  | value r =>
    intro e ok
    have read : ∀ {s v}, e.heap.get? s = some v →
        EngineM.onHeap (Heap.insist s) e = .ok (some v) e ∧
          EngineM.onHeap (Heap.peek s) e = .ok (some v) e := by
      intro s v found
      have seen : Heap.peek s e.heap = .ok (some v) e.heap := by rw [Heap.peek, found]
      rw [EngineM.onHeap, EngineM.onHeap, Heap.insist_eq found, seen]
      exact ⟨rfl, rfl⟩
    have held : r ∈ (Target.value r).refs + K :=
      Multiset.mem_add.2 (.inl (Multiset.mem_singleton_self r))
    obtain ⟨v, found⟩ := ok.heap.get?_of_live (ok.live_of_mem held) rfl
    rw [receiverBy, receiverBy, bind_of_ok (read found).1, bind_of_ok (read found).2]
    cases v with
    | fiber cell =>
      obtain ⟨w, inner⟩ := ok.heap.get?_of_live
        (ok.heap.live_of_get? found (List.mem_singleton_self cell)) rfl
      dsimp only
      rw [bind_of_ok (read inner).1, bind_of_ok (read inner).2]
    | nil | int | real | string | array | «instance» | library | condition => rfl

/-- In a sound engine, following segments reads no value that was lost. -/
lemma coincide_follow (member : caller ∈ scene.crew.map (·.1)) (name : String) (t : Target)
    (segments : List String) :
    Coincide (Holds .owning scene K L t) (followBy Heap.insist caller name t segments)
      (follow caller name t segments) := by
  induction segments generalizing t with
  | nil => exact .refl _
  | cons segment rest ih =>
    refine ((coincide_receiver t).bind (runs_receiverOf t) fun receiver => ?_).pre fun _ hs => hs.1
    cases receiver with
    | none => exact .refl _
    | some receiver =>
      exact Coincide.after (m := find caller name receiver segment false)
        (runs_find member name receiver segment false) ih

/-- In a sound engine, looking a name up reads no value that was lost. -/
lemma coincide_resolve (member : caller ∈ scene.crew.map (·.1)) (name : String)
    (receiver : Option Ref) :
    Coincide (Sound .owning scene ((receiver.toList : List Ref) + K) L)
      (resolveBy Heap.insist caller name receiver) (resolve caller name receiver) := by
  refine .modify turns_searches ?_
  cases receiver with
  | some r =>
    exact (coincide_follow member name (.value r) (Name.segments name)).pre fun e ok =>
      ⟨ok, fun _ => isBuiltin_value r⟩
  | none =>
    cases Name.segments name with
    | nil => exact .refl _
    | cons segment rest =>
      exact .after (runs_find member name (.fiber caller) segment true) fun t =>
        coincide_follow member name t rest

/-- In a sound engine, finding what a call names reads no value that was lost. -/
lemma coincide_resolveCached (member : caller ∈ scene.crew.map (·.1)) (image : Image)
    (index : Nat) :
    Coincide (Sound .owning scene K L) (resolveCachedBy Heap.insist caller image index)
      (resolveCached caller image index) := by
  refine .after (runs_known index) fun found => ?_
  cases found with
  | some t => exact .refl _
  | none =>
    have named : Runs .owning (Found .owning scene K L none)
        (EngineM.orFault (image.string? index) .outOfBounds)
        (fun _ => Sound .owning scene (((none : Option Ref).toList : List Ref) + K) L)
        (Found .owning scene K L none) :=
      (runs_orFault rfl fun _ hs => hs).post fun _ _ hs => hs.1.1
    exact .after named fun name => (coincide_resolve member name none).bind_same _

end Lookup

/-! ## Instructions -/

namespace Activation

variable {scene : Scene} {K L : Multiset Ref} {a : Activation}

/-- Carries out a built-in function, with reads in the given way. -/
def callBuiltinBy (reading : Heap.Reading) (f : Native) (b : Builtin) (receiver : Option Ref)
    (args : List Value) : EngineM (List Value) := do
  let (results, line) ← EngineM.onHeap (f.runBuiltinBy reading b ⟨receiver, (← get).now⟩ args)
  modify fun e => { e with output := line.toList ++ e.output }
  return results

/-- Calls a native function, with reads in the given way. -/
def callNativeBy (reading : Heap.Reading) (a : Activation) (f : Native) (receiver : Option Ref)
    (arguments : List Ref) : EngineM Control := do
  let args ← ((EngineM.onHeap (Heap.copyAll [] arguments)).ensure (·.releaseAll arguments)).onFault
    (·.releaseAll receiver.toList)
  match f.args.fault? args, f.body with
  | some fault, _ =>
    finishCall a.fiber receiver args (throw fault)
    return .advance
  | none, .host number => return .await ⟨f, number, a.fiber, receiver, args⟩
  | none, .builtin b =>
    finishCall a.fiber receiver args (callBuiltinBy reading f b receiver args)
    return .advance

/-- Calls a target with the argument array in a cell, with reads in the given way. -/
def invokeBy (reading : Heap.Reading) (a : Activation) (t : Target) (cell : Ref) :
    EngineM Control := do
  let arguments ← (takeArguments cell).onFault (Lookup.discard t)
  match t with
  | .value r =>
    if arguments = [] then
      Operand.push a.fiber r
      return .advance
    else
      modify fun e => (e.releaseAll arguments).release r
      throw .notAFunction
  | .library _ =>
    modify (·.releaseAll arguments)
    throw .notAFunction
  | .function f receiver => a.callNativeBy reading f receiver arguments

/-- Pops the arguments and calls what a string names, with reads in the given way. -/
def callBy (reading : Heap.Reading) (a : Activation) (index : Nat) : EngineM Control := do
  if Word.indexCount ≤ index then throw .outOfBounds
  let cell ← Operand.pop a.fiber
  let t ← (Lookup.resolveCachedBy reading a.fiber a.image index).onFault (·.release cell)
  a.invokeBy reading t cell

/-- Pops the arguments and the latest receiver and calls what a string names in it, with reads in
the given way. -/
def callDynamicBy (reading : Heap.Reading) (a : Activation) (index : Nat) : EngineM Control := do
  let name ← a.string index
  let cell ← Operand.pop a.fiber
  let f ← (EngineM.fiber a.fiber)
  match f.receivers with
  | [] =>
    modify (·.release cell)
    throw .stackUnderflow
  | receiver :: rest =>
    modify (·.setFiber a.fiber { f with receivers := rest })
    let t ← (Lookup.resolveBy reading a.fiber name (some receiver)).onFault (·.release cell)
    a.invokeBy reading t cell

/-- Executes an instruction, where a cell that may have lost its value is read in the given way.
Only calls read such cells. -/
def executeBy (reading : Heap.Reading) (a : Activation) (op : Opcode) (inline : Nat) :
    EngineM Control :=
  match op with
  | .call => a.callBy reading inline
  | .callDynamic => a.callDynamicBy reading inline
  | op => a.execute op inline

/-- With reads that look whether there is a value, built-in functions are what they are. -/
lemma callBuiltinBy_peek (f : Native) (b : Builtin) (receiver : Option Ref) (args : List Value) :
    callBuiltinBy Heap.peek f b receiver args = callBuiltin f b receiver args := by
  refine congrArg (get >>= ·) (funext fun e => ?_)
  exact congrArg (EngineM.onHeap · >>= _) (f.runBuiltinBy_peek b ⟨receiver, e.now⟩ args)

/-- With reads that look whether there is a value, native calls are what they are. -/
lemma callNativeBy_peek (f : Native) (receiver : Option Ref) (arguments : List Ref) :
    a.callNativeBy Heap.peek f receiver arguments = a.callNative f receiver arguments := by
  refine congrArg (_ >>= ·) (funext fun args => ?_)
  cases f.args.fault? args with
  | some fault => rfl
  | none =>
    cases f.body with
    | host number => rfl
    | builtin b =>
      exact congrArg (finishCall a.fiber receiver args · >>= _)
        (callBuiltinBy_peek f b receiver args)

/-- With reads that look whether there is a value, targets are called as they are. -/
lemma invokeBy_peek (t : Target) (cell : Ref) : a.invokeBy Heap.peek t cell = a.invoke t cell := by
  refine congrArg (_ >>= ·) (funext fun arguments => ?_)
  cases t with
  | value r => rfl
  | library name => rfl
  | function f receiver => exact callNativeBy_peek f receiver arguments

/-- With reads that look whether there is a value, a call is what it is. -/
lemma callBy_peek (index : Nat) : a.callBy Heap.peek index = a.call index := by
  unfold callBy call
  split
  case isTrue => rfl
  case isFalse =>
    refine congrArg (Operand.pop a.fiber >>= ·) (funext fun cell => ?_)
    rw [Lookup.resolveCachedBy_peek]
    exact congrArg (_ >>= ·) (funext fun t => invokeBy_peek t cell)

/-- With reads that look whether there is a value, a dynamic call is what it is. -/
lemma callDynamicBy_peek (index : Nat) : a.callDynamicBy Heap.peek index = a.callDynamic index := by
  refine congrArg (a.string index >>= ·) (funext fun name => ?_)
  refine congrArg (Operand.pop a.fiber >>= ·) (funext fun cell => ?_)
  refine congrArg (EngineM.fiber a.fiber >>= ·) (funext fun x => ?_)
  cases x.receivers with
  | nil => rfl
  | cons receiver rest =>
    refine congrArg (modify _ >>= ·) (funext fun _ => ?_)
    rw [Lookup.resolveBy_peek]
    exact congrArg (_ >>= ·) (funext fun t => invokeBy_peek t cell)

/-- With reads that look whether there is a value, instructions are those of the engine. -/
lemma executeBy_peek (a : Activation) (op : Opcode) (inline : Nat) :
    a.executeBy Heap.peek op inline = a.execute op inline := by
  unfold executeBy
  split
  case h_1 => exact callBy_peek inline
  case h_2 => exact callDynamicBy_peek inline
  case h_3 => rfl

/-- In a sound engine a built-in function reads no value that was lost. -/
lemma coincide_callBuiltin (f : Native) (b : Builtin) {receiver : Option Ref} {args : List Value}
    (held : ∀ r, receiver = some r → r ∈ K) (owned : ∀ v ∈ args, ∀ r ∈ v.refs, r ∈ K) :
    Coincide (Sound .owning scene K L) (callBuiltinBy Heap.insist f b receiver args)
      (callBuiltin f b receiver args) := by
  intro e ok
  have run : ∀ now, f.runBuiltinBy Heap.insist b ⟨receiver, now⟩ args e.heap =
      f.runBuiltin b ⟨receiver, now⟩ args e.heap := fun now =>
    f.coincide_runBuiltin b (fun r hr => Multiset.mem_add.2 (.inl (held r hr)))
      (fun v hv r hr => Multiset.mem_add.2 (.inl (owned v hv r hr))) e.heap ok.heap
  have same := Coincide.onHeap (P := (· = e.heap)) fun _ same => same ▸ run e.now
  exact same.bind_same _ e rfl

/-- In a sound engine a native call reads no value that was lost. -/
lemma coincide_callNative (f : Native) (receiver : Option Ref) (arguments : List Ref) :
    Coincide (Sound .owning scene (arguments + ((receiver.toList : List Ref) + K)) L)
      (a.callNativeBy Heap.insist f receiver arguments) (a.callNative f receiver arguments) := by
  refine .after (runs_copyArguments receiver arguments) fun args => .assume fun _ => ?_
  cases f.args.fault? args with
  | some fault => exact .refl _
  | none =>
    cases f.body with
    | host number => exact .refl _
    | builtin b =>
      refine Coincide.bind_same (.bind_same (.ensure (coincide_callBuiltin f b ?_ ?_) _) _) _
      · rintro r rfl
        simp
      · intro v hv r hr
        exact Multiset.mem_add.2 (.inl (Value.mem_refsAll hv hr))

/-- In a sound engine, calling a target reads no value that was lost. -/
lemma coincide_invoke (t : Target) (cell : Ref) :
    Coincide (Lookup.Holds .owning scene ({cell} + K) L t) (a.invokeBy Heap.insist t cell)
      (a.invoke t cell) := by
  refine .assume fun _ => .after (runs_takeArgumentsFor t cell) fun arguments => ?_
  cases t with
  | value r => exact .refl _
  | library name => exact .refl _
  | function f receiver => exact coincide_callNative f receiver arguments

/-- In a sound engine a call reads no value that was lost. -/
lemma coincide_call (member : a.fiber ∈ scene.crew.map (·.1)) (index : Nat) :
    Coincide (Sound .owning scene K L) (a.callBy Heap.insist index) (a.call index) := by
  unfold callBy call
  split
  case isTrue => exact .refl _
  case isFalse =>
    refine .after (Operand.runs_pop member) fun cell => ?_
    refine .bind (.onFault (Lookup.coincide_resolveCached member a.image index) _)
      (runs_onFault (Lookup.runs_resolveCached member a.image index) (turns_release cell))
      fun t => ?_
    exact coincide_invoke t cell

/-- In a sound engine a dynamic call reads no value that was lost. -/
lemma coincide_callDynamic (member : a.fiber ∈ scene.crew.map (·.1)) (index : Nat) :
    Coincide (Sound .owning scene K L) (a.callDynamicBy Heap.insist index)
      (a.callDynamic index) := by
  refine .after (runs_string (c := .owning) index) fun name => ?_
  refine .after (Operand.runs_pop member) fun cell => ?_
  have looked : Runs .owning (Sound .owning scene ({cell} + K) L) (EngineM.fiber a.fiber)
      (fun x e => e.Sound .owning scene ({cell} + K) L ∧ e.fiber? a.fiber = some x)
      (Sound .owning scene K L) := runs_fiber member
  refine .after looked fun x => ?_
  cases found : x.receivers with
  | nil => exact .refl _
  | cons receiver rest =>
    refine .modify (turns_takeReceiver found) ?_
    refine .bind (.onFault (Lookup.coincide_resolve member name (some receiver)) _)
      (runs_onFault (Lookup.runs_resolve member name (some receiver)) (turns_release cell))
      fun t => ?_
    exact coincide_invoke t cell

/-- In a sound engine of a host that owns its references, an instruction of a fiber that runs reads
no value that was lost. -/
lemma coincide_execute (member : a.fiber ∈ scene.crew.map (·.1)) (op : Opcode) (inline : Nat) :
    Coincide (Sound .owning scene K L) (a.executeBy Heap.insist op inline)
      (a.execute op inline) := by
  unfold executeBy
  split
  case h_1 => exact coincide_call member inline
  case h_2 => exact coincide_callDynamic member inline
  case h_3 => exact .refl _

end Activation

end FiberVM
