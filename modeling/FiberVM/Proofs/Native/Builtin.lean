import FiberVM.Native.Catalog
import FiberVM.Proofs.Heap.Ownership

/-!
# What built-in functions do to the heap

A built-in function uses cells that are in the hand of the caller: the one that it is called on and
those that its arguments refer to. It leaves the hand as it is, and its one result at most comes
with references of its own. Most functions touch no cells at all (`Detached`).

The catalog of an engine knows no other functions at first (`Native.IsBuiltin`).
-/

namespace FiberVM

variable {c : Conduct} {K L : Multiset Ref} {h : Heap} {r : Ref} {v : Value}

/-- A computation that touches no cells: its result refers to none, and its fault is not about
one. -/
def Detached : Except Fault Value → Prop
  | .ok v => v.isPlain = true
  | .error fault => fault.isDangling = false

lemma Value.refs_of_isPlain (plain : v.isPlain = true) : v.refs = [] := by
  cases v <;> first | rfl | cases plain

lemma Value.instance?_of_isPlain (plain : v.isPlain = true) : v.instance? = none := by
  cases v <;> first | rfl | cases plain

/-- A sequence is detached if what comes first fails with such faults only. -/
lemma Detached.bind {α : Type} {x} {k : α → Except Fault Value}
    (first : ∀ fault, x = .error fault → fault.isDangling = false) (next : ∀ a, Detached (k a)) :
    Detached (x >>= k) := by
  cases x with
  | ok a => exact next a
  | error fault => exact first fault rfl

namespace Builtin

lemma seconds_error {fault} (failed : seconds v = .error fault) :
    fault.isDangling = false := by
  unfold seconds at failed
  split at failed
  case h_1 => cases failed; rfl
  case h_2 => split at failed <;> cases failed; rfl

/-- An interval is refused because of what it is. -/
lemma interval_error {fault} (failed : interval v = .error fault) :
    fault.isDangling = false := by
  unfold interval at failed
  cases first : seconds v with
  | error fault' =>
    rw [first] at failed
    cases failed
    exact seconds_error first
  | ok x =>
    rw [first] at failed
    change (if x.le .zero then _ else _) = _ at failed
    split at failed <;> cases failed
    rfl

/-- An extreme owns nothing. -/
lemma detached_extreme (keep : Binary64 → Binary64 → Bool) (best : Value) (rest : List Value) :
    Detached (extreme keep best rest) := by
  induction rest generalizing best with
  | nil =>
    unfold extreme
    split
    case h_1 => rfl
    case h_2 => split <;> rfl
  | cons candidate rest ih =>
    unfold extreme
    split
    case h_1 => exact ih _
    case h_2 => rfl

/-- The functions on numbers and texts touch no cells. -/
lemma detached_pureResult (b : Builtin) (now : Binary64) (args : List Value) :
    Detached (b.pureResult now args) := by
  unfold pureResult
  dsimp only
  split
  case h_1 => exact .bind (fun _ => seconds_error) fun _ => rfl
  case h_2 => exact .bind (fun _ => interval_error) fun _ => rfl
  case h_3 =>
    refine .bind (fun _ => seconds_error) fun x => ?_
    split
    case h_1 => rfl
    case h_2 => split <;> rfl
  case h_4 => rfl
  case h_5 => rfl
  case h_6 => split <;> rfl
  case h_7 => rfl
  case h_8 => split <;> rfl
  case h_9 => exact detached_extreme _ _ _
  case h_10 => exact detached_extreme _ _ _
  case h_11 => rfl
  case h_12 =>
    split
    case h_1 => rfl
    case h_2 => split <;> rfl
  case h_13 => split <;> rfl
  case h_14 => rfl

variable {context : CallContext}

lemma runs_receiver {P : Heap → Prop} :
    Heap.Runs c P (receiver context) (fun r h => P h ∧ context.receiver = some r) P := by
  unfold receiver
  split
  case h_1 => exact .throw (fun _ => rfl) fun _ hs => hs
  case h_2 r found => exact .pure fun _ hs => ⟨hs, found⟩

/-- The elements of the array that a method is called on are live. -/
lemma runs_receiverElements (held : ∀ r, context.receiver = some r → r ∈ K) :
    Heap.Runs c (Heap.Sound c K L) (receiverElements context)
      (fun elements h => h.Sound c K L ∧ ∀ s ∈ elements.toList, h.Live c s) (Heap.Sound c K L) := by
  refine runs_receiver.bind fun r => .assume fun found => ?_
  refine (Heap.runs_read.pre fun h ok => ⟨ok, ok.live_of_mem (held r found)⟩).bind fun v => ?_
  split
  case h_1 elements =>
    refine .pure ?_
    rintro h ⟨ok, value⟩
    exact ⟨ok, fun s hs => ok.live_of_get? value hs⟩
  case h_2 => exact .throw (fun _ => rfl) fun h hs => hs.1

lemma runs_count {P : Heap → Prop} (n : Nat) :
    Heap.Runs c P (count n) (fun v h => P h ∧ v.isPlain = true) P := by
  unfold count
  split
  case isTrue => exact .pure fun _ hs => ⟨hs, rfl⟩
  case isFalse => exact .throw (fun _ => rfl) fun _ hs => hs

/-- What is put at the end of an array is a copy of a value in the hand. -/
lemma runs_copyElement {P : Heap → Prop} (owned : ∀ r ∈ v.refs, r ∈ K) :
    Heap.Runs c (fun h => h.Sound c K L ∧ P h) (Heap.copyValue v)
      (fun w h => h.Sound c (w.refs + K) L ∧ w.instance? = none) (Heap.Sound c K L) := by
  rintro h ⟨ok, -⟩
  refine (Heap.runs_copyValue (d := h.directory) h ⟨⟨ok, rfl⟩, ?_⟩).imp ?_ fun _ ok => ok
  · exact fun s hs => ok.live_of_mem (owned s hs)
  · exact fun w h' post => ⟨post.1.1, post.2⟩

/-- An element that is put at the end of an array belongs to it. -/
lemma runs_push
    (held : ∀ r, context.receiver = some r → r ∈ K)
    (owned : ∀ r ∈ v.refs, r ∈ K) :
    Heap.Runs c (Heap.Sound c K L) (push context v) (fun _ => Heap.Sound c K L)
      (Heap.Sound c K L) := by
  refine runs_receiver.bind fun r => .assume fun found => ?_
  refine (Heap.runs_read.pre fun h ok => ⟨ok, ok.live_of_mem (held r found)⟩).bind fun w => ?_
  split
  case h_2 => exact .throw (fun _ => rfl) fun h hs => hs.1
  case h_1 elements =>
    refine (runs_copyElement owned).bind fun w => .assume fun plain => ?_
    refine (Heap.runs_alloc .temporary fun _ => plain).bind fun element => ?_
    refine Triple.get.bind fun seen => ?_
    split
    case h_1 elements value =>
      refine .modify ?_
      rintro h ⟨⟨ok, -⟩, rfl⟩
      refine Heap.precedes_overwrite value rfl rfl ?_ ok
      simp only [Value.refs, Array.toList_push, ← Multiset.coe_add, Multiset.coe_singleton]
      abel
    case h_2 =>
      refine Triple.bind (Q := fun _ => Heap.Sound c K L) (.modify ?_) fun _ =>
        .throw (fun _ => rfl) fun _ hs => hs
      rintro h ⟨⟨ok, -⟩, rfl⟩
      exact Heap.turns_release element _ ok

/-- What is known of a heap after a call with results. -/
def Returned (c : Conduct) (K L : Multiset Ref) (results : List Value) (h : Heap) : Prop :=
  (h.Sound c (Value.refsAll results + K) L ∧ ∀ v ∈ results, v.instance? = none) ∧ results.length ≤ 1

lemma Returned.nothing (ok : h.Sound c K L) : Returned c K L [] h :=
  ⟨⟨ok.cast (zero_add K).symm rfl, nofun⟩, Nat.zero_le 1⟩

lemma Returned.one (ok : h.Sound c (v.refs + K) L) (other : v.instance? = none) :
    Returned c K L [v] h := by
  refine ⟨⟨ok.cast ?_ rfl, ?_⟩, Nat.le_refl 1⟩
  · simp
  · intro w hw
    rwa [List.mem_singleton.1 hw]

lemma Returned.plain (ok : h.Sound c K L) (plain : v.isPlain = true) : Returned c K L [v] h := by
  refine .one (ok.cast ?_ rfl) (v.instance?_of_isPlain plain)
  rw [v.refs_of_isPlain plain, Multiset.coe_nil, zero_add]

/-- A built-in function gives one result at most and leaves the hand as it is. -/
lemma runs_run (b : Builtin) (args : List Value)
    (held : ∀ r, context.receiver = some r → r ∈ K)
    (owned : ∀ v ∈ args, ∀ r ∈ v.refs, r ∈ K) :
    Heap.Runs c (Heap.Sound c K L) (b.run context args) (fun result => Returned c K L result.1)
      (Heap.Sound c K L) := by
  unfold run
  split
  case h_1 => exact Triple.get.bind fun seen => .pure fun h hs => .nothing hs.1
  case h_2 =>
    refine (runs_receiverElements held).bind fun elements => ?_
    exact (runs_count elements.size).conseq (fun _ hs => hs.1) (fun _ _ hs => hs) (fun _ hs => hs)
      |>.bind fun v => .pure fun h hs => .plain hs.1 hs.2
  case h_3 v =>
    split
    case h_1 => exact .throw (fun _ => rfl) fun _ hs => hs
    case h_2 index _ =>
      refine (runs_receiverElements held).bind fun elements => ?_
      split
      case h_1 => exact .throw (fun _ => rfl) fun _ hs => hs.1
      case h_2 element found =>
        have copied : Heap.Runs c
            (fun h => h.Sound c K L ∧ ∀ s ∈ elements.toList, h.Live c s) (Heap.copy element)
            (fun w h => h.Sound c (w.refs + K) L ∧ w.instance? = none) (Heap.Sound c K L) := by
          rintro h ⟨ok, live⟩
          refine (Heap.runs_copy (d := h.directory) h ⟨⟨ok, rfl⟩, live element ?_⟩).imp ?_
            fun _ ok => ok
          · exact Array.mem_toList_iff.2 (Array.mem_of_getElem? found)
          · exact fun w h' post => ⟨post.1.1, post.2⟩
        exact copied.bind fun w => .pure fun h hs => .one hs.1 hs.2
  case h_4 v =>
    refine (runs_push held (owned v List.mem_cons_self)).bind fun _ => ?_
    exact .pure fun h ok => .nothing ok
  case h_5 =>
    refine runs_receiver.bind fun r => .assume fun found => ?_
    refine (Heap.runs_read.pre fun h ok => ⟨ok, ok.live_of_mem (held r found)⟩).bind fun v => ?_
    split
    case h_1 s =>
      exact (runs_count s.length).conseq (fun _ hs => hs.1) (fun _ _ hs => hs) (fun _ hs => hs)
        |>.bind fun v => .pure fun h hs => .plain hs.1 hs.2
    case h_2 => exact .throw (fun _ => rfl) fun h hs => hs.1
  case h_6 =>
    have detached := detached_pureResult b context.now args
    split
    case h_1 v computed =>
      rw [computed] at detached
      exact .pure fun h ok => .plain ok detached
    case h_2 fault computed =>
      rw [computed] at detached
      exact .throw (fun _ => detached) fun _ ok => ok

end Builtin

/-- What is wrong with values is not about something that was dropped. -/
lemma Signature.fault?_allowed {s : Signature} {values fault}
    (found : s.fault? values = some fault) : fault.Allowed c := by
  intro _
  unfold fault? at found
  split at found
  case isTrue => cases found; rfl
  case isFalse =>
    obtain ⟨x, -, wrong⟩ := List.exists_of_findSome?_eq_some found
    dsimp only at wrong
    split at wrong
    case h_1 => cases wrong; rfl
    case h_2 => split at wrong <;> cases wrong; rfl

namespace Native

/-- Results that do not fit the signature are given up. -/
lemma runs_checkResults (f : Native) {results}
    (other : c ≠ .free → ∀ v ∈ results, v.instance? = none) :
    Heap.Runs c (Heap.Sound c (Value.refsAll results + K) L) (f.checkResults results)
      (fun checked h => h.Sound c (Value.refsAll results + K) L ∧ checked = results)
      (Heap.Sound c K L) := by
  unfold checkResults
  split
  case h_1 => exact .pure fun h ok => ⟨ok, rfl⟩
  case h_2 fault wrong =>
    exact (Triple.modify (Heap.turns_releaseValues other)).bind fun _ =>
      .throw (Signature.fault?_allowed wrong) fun _ ok => ok

/-- A built-in function that is called under signatures gives one result at most and leaves the hand
as it is. -/
lemma runs_runBuiltin (f : Native) (b : Builtin) {context : CallContext} {args}
    (held : ∀ r, context.receiver = some r → r ∈ K) (owned : ∀ v ∈ args, ∀ r ∈ v.refs, r ∈ K) :
    Heap.Runs c (Heap.Sound c K L) (f.runBuiltin b context args)
      (fun result => Builtin.Returned c K L result.1) (Heap.Sound c K L) := by
  unfold runBuiltin
  split
  case h_1 fault wrong => exact .throw (Signature.fault?_allowed wrong) fun _ ok => ok
  case h_2 =>
    refine (Builtin.runs_run b args held owned).bind ?_
    rintro ⟨results, line⟩
    refine Triple.bind (Q := fun checked => Builtin.Returned c K L checked) ?_ fun checked =>
      .pure fun h hs => hs
    rintro h ⟨⟨ok, other⟩, few⟩
    refine (f.runs_checkResults (fun _ => other) h ok).imp ?_ fun _ ok => ok
    rintro checked h' ⟨ok', rfl⟩
    exact ⟨⟨ok', other⟩, few⟩

/-- Whether a function is one that the host has no part in. -/
def isBuiltin (f : Native) : Bool :=
  match f.body with
  | .builtin _ => true
  | .host _ => false

end Native

namespace Catalog

/-- All functions of a catalog. -/
def natives (catalog : Catalog) : List Native :=
  (catalog.libraries.values ++ catalog.methods.values).flatMap (·.functions.values) ++
    catalog.functions.values

private lemma mem_values {κ α : Type} [DecidableEq κ] {t : Table κ α} {k x}
    (found : t.find? k = some x) : x ∈ t.values :=
  List.mem_map.2 ⟨(k, x), Table.find?_eq_some_iff.1 found, rfl⟩

lemma mem_natives_of_library? {catalog : Catalog} {name segment l f}
    (library : catalog.library? name = some l) (found : l.function? segment = some f) :
    f ∈ catalog.natives := by
  refine List.mem_append_left _ (List.mem_flatMap.2 ⟨l, ?_, mem_values found⟩)
  exact List.mem_append_left _ (mem_values library)

lemma mem_natives_of_method? {catalog : Catalog} {kind segment f}
    (found : catalog.method? kind segment = some f) : f ∈ catalog.natives := by
  obtain ⟨l, methods, found⟩ := Option.bind_eq_some_iff.1 found
  refine List.mem_append_left _ (List.mem_flatMap.2 ⟨l, ?_, mem_values found⟩)
  exact List.mem_append_right _ (mem_values methods)

lemma mem_natives_of_function? {catalog : Catalog} {segment f}
    (found : catalog.function? segment = some f) : f ∈ catalog.natives :=
  List.mem_append_right _ (mem_values found)

/-- An engine knows only built-in functions at first. -/
lemma isBuiltin_of_mem_builtins : ∀ f ∈ builtins.natives, f.isBuiltin = true := by decide +kernel

end Catalog

end FiberVM
