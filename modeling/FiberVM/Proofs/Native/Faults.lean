import FiberVM.Engine.Activation
import FiberVM.Proofs.Heap.Variables

/-!
# Faults about addresses

Two faults say that execution has gone astray: a word is no instruction, or there is no word at all.
They come from the instructions themselves. What instructions do to the heap, and the built-in
functions that they call, fail for other reasons, and they leave the variables of all owners as they
are, unless one is declared (`Tame`).
-/

namespace FiberVM

/-- A fault that says that execution has left the instructions. -/
def Fault.isAstray : Fault → Bool
  | invalidOpcode _ | invalidInstructionAddress => true
  | _ => false

/-- An operation that leaves variables alone, and never fails because execution has gone astray. -/
abbrev Tame {α : Type} (m : HeapM α) : Prop :=
  Triple Heap.SameVariables (fun fault => fault.isAstray = false) (fun _ => True) m
    (fun _ _ => True) (fun _ => True)

/-- A result that is none of the faults about addresses. -/
def TameResult {α : Type} (x : Except Fault α) : Prop :=
  ∀ fault, x = .error fault → fault.isAstray = false

variable {α β : Type} {v : Value} {r : Ref}

namespace TameResult

lemma ok (a : α) : TameResult (.ok a) := fun _ failed => by cases failed

lemma error {fault : Fault} (tame : fault.isAstray = false) :
    TameResult (.error fault : Except Fault α) := by
  rintro _ ⟨⟩
  exact tame

lemma bind {x} {k : α → Except Fault β} (first : TameResult x) (next : ∀ a, TameResult (k a)) :
    TameResult (x >>= k) := by
  cases x with
  | ok a => exact next a
  | error fault => exact .error (first fault rfl)

end TameResult

namespace Tame

lemma pure (a : α) : Tame (pure a) := Triple.pure fun _ _ => trivial

lemma throw {fault : Fault} (tame : fault.isAstray = false) : Tame (throw fault : HeapM α) :=
  Triple.throw tame fun _ _ => trivial

lemma get : Tame get := Triple.get.post fun _ _ _ => trivial

lemma modify {change : Heap → Heap} (same : ∀ h, Heap.SameVariables h (change h)) :
    Tame (modify change) :=
  Triple.modify fun h _ => ⟨same h, trivial⟩

lemma bind {m} {k : α → HeapM β} (first : Tame m) (next : ∀ a, Tame (k a)) :
    Tame (m >>= k) :=
  Triple.bind first next

end Tame

/-! ## The heap -/

namespace Heap

lemma tame_alloc (owner : Owner) (v : Value) : Tame (alloc owner v) := by
  intro h _
  unfold alloc
  split
  · exact ⟨h.same_releaseValue v, rfl, trivial⟩
  · exact ⟨rfl, trivial⟩

lemma tame_allocTemporary (v : Value) : Tame (allocTemporary v) := tame_alloc _ v

lemma tame_retain (r : Ref) : Tame (retain r) := by
  intro h _
  unfold retain
  split
  case h_1 taken => exact ⟨same_retain? taken, trivial⟩
  case h_2 => exact ⟨rfl, rfl, trivial⟩

/-- Taking references is tame. -/
lemma tame_retainAll (taken rs : List Ref) : Tame (retainAll taken rs) := by
  induction rs generalizing taken with
  | nil => exact .pure ()
  | cons r rest ih =>
    intro h _
    rw [retainAll]
    split
    case h_1 h' found => exact (ih (r :: taken) h' trivial).trans (same_retain? found)
    case h_2 => exact ⟨same_releaseAll _ h, rfl, trivial⟩

lemma tame_downgrade (r : Ref) : Tame (downgrade r) := by
  intro h _
  unfold downgrade
  split
  case h_1 taken => exact ⟨same_retainWeak? taken, trivial⟩
  case h_2 => exact ⟨rfl, rfl, trivial⟩

lemma tame_read (r : Ref) : Tame (read r) := by
  intro h _
  unfold read
  split
  · exact ⟨rfl, trivial⟩
  · exact ⟨rfl, rfl, trivial⟩

lemma tame_copyValue (v : Value) : Tame (copyValue v) := by
  cases v with
  | «instance» f => exact .throw rfl
  | _ => exact (tame_retainAll [] _).bind fun _ => .pure _

lemma tame_copy (r : Ref) : Tame (copy r) := by
  intro h _
  unfold copy
  split
  case h_1 => exact ⟨rfl, rfl, trivial⟩
  case h_2 => exact tame_copyValue _ h trivial
  case h_3 => exact tame_copyValue _ h trivial

/-- Copying is tame. -/
lemma tame_copyAll (copies : List Value) (rs : List Ref) : Tame (copyAll copies rs) := by
  induction rs generalizing copies with
  | nil => exact .pure _
  | cons r rest ih =>
    intro h _
    have copied := tame_copy r h trivial
    rw [copyAll]
    cases run : copy r h with
    | ok v h' =>
      rw [run] at copied
      exact (ih (v :: copies) h' trivial).trans copied.1
    | error fault h' =>
      rw [run] at copied
      exact ⟨IsTrans.trans _ _ _ copied.1 (same_releaseValues _ h'), copied.2⟩

lemma tame_store (r : Ref) (v : Value) : Tame (store r v) := by
  intro h _
  unfold store
  split
  · split
    · exact ⟨same_releaseValue _ _, trivial⟩
    · exact ⟨h.same_releaseValue v, rfl, trivial⟩
  · exact ⟨h.same_releaseValue v, rfl, trivial⟩

end Heap

lemma Activation.tame_generator (v : Value) : Tame (generator v) := by
  unfold generator
  split
  case h_1 => exact (Heap.tame_retainAll _ _).bind fun _ => .pure _
  case h_2 => exact .pure _
  case h_3 => exact .throw rfl

/-! ## Built-in functions -/

namespace Builtin

lemma tame_seconds (v : Value) : TameResult (seconds v) := by
  unfold seconds
  split
  · exact .error rfl
  · split
    · exact .ok _
    · exact .error rfl

lemma tame_interval (v : Value) : TameResult (interval v) := by
  refine (tame_seconds v).bind fun x => ?_
  split
  · exact .error rfl
  · exact .ok x

/-- An extreme is tame. -/
lemma tame_extreme (keep : Binary64 → Binary64 → Bool) (best : Value) (rest : List Value) :
    TameResult (extreme keep best rest) := by
  induction rest generalizing best with
  | nil =>
    unfold extreme
    split
    · exact .ok _
    · split
      · exact .ok _
      · exact .error rfl
  | cons candidate rest ih =>
    unfold extreme
    split
    · exact ih _
    · exact .error rfl

/-- What needs no heap is tame. -/
lemma tame_pureResult (b : Builtin) (now : Binary64) (args : List Value) :
    TameResult (b.pureResult now args) := by
  unfold pureResult
  dsimp only
  split
  case h_1 => exact (tame_seconds _).bind fun _ => .ok _
  case h_2 => exact (tame_interval _).bind fun _ => .ok _
  case h_3 =>
    refine (tame_seconds _).bind fun x => ?_
    split
    · exact .error rfl
    · split
      · exact .error rfl
      · exact .ok _
  case h_4 => exact .ok _
  case h_5 => exact .ok _
  case h_6 =>
    split
    · exact .error rfl
    · exact .ok _
  case h_7 => exact .ok _
  case h_8 =>
    split
    · exact .error rfl
    · exact .ok _
  case h_9 => exact tame_extreme _ _ _
  case h_10 => exact tame_extreme _ _ _
  case h_11 => exact .ok _
  case h_12 =>
    split
    · exact .error rfl
    · split
      · exact .error rfl
      · exact .ok _
  case h_13 =>
    split
    · exact .error rfl
    · exact .ok _
  case h_14 => exact .error rfl

lemma tame_receiver (context : CallContext) : Tame (receiver context) := by
  unfold receiver
  split
  · exact .throw rfl
  · exact .pure _

lemma tame_receiverElements (context : CallContext) : Tame (receiverElements context) := by
  refine (tame_receiver context).bind fun r => (Heap.tame_read r).bind fun v => ?_
  split
  · exact .pure _
  · exact .throw rfl

lemma tame_count (n : Nat) : Tame (count n) := by
  unfold count
  split
  · exact .pure _
  · exact .throw rfl

/-- Pushing to an array is tame. -/
lemma tame_push (context : CallContext) (v : Value) : Tame (push context v) := by
  refine (tame_receiver context).bind fun r => (Heap.tame_read r).bind fun w => ?_
  split
  · refine (Heap.tame_copyValue v).bind fun copy => (Heap.tame_allocTemporary copy).bind
      fun element => ?_
    refine Tame.get.bind fun h => ?_
    split
    · exact .modify fun h => h.same_overwrite r _
    · exact (Tame.modify fun h => h.same_release element).bind fun _ => .throw rfl
  · exact .throw rfl

/-- Every built-in function is tame. -/
lemma tame_run (b : Builtin) (context : CallContext) (args : List Value) :
    Tame (b.run context args) := by
  unfold run
  split
  case h_1 => exact Tame.get.bind fun _ => .pure _
  case h_2 =>
    exact (tame_receiverElements context).bind fun _ => (tame_count _).bind fun _ =>
      .pure _
  case h_3 v =>
    split
    · exact .throw rfl
    · refine (tame_receiverElements context).bind fun elements => ?_
      split
      · exact .throw rfl
      · exact (Heap.tame_copy _).bind fun _ => .pure _
  case h_4 => exact (tame_push _ _).bind fun _ => .pure _
  case h_5 =>
    refine (tame_receiver context).bind fun r => (Heap.tame_read r).bind fun v => ?_
    split
    · exact (tame_count _).bind fun _ => .pure _
    · exact .throw rfl
  case h_6 =>
    split
    · exact .pure _
    case h_2 fault failed => exact .throw (tame_pureResult _ _ _ fault failed)

end Builtin

/-- Values that do not fit a signature are too many, too few or of a wrong kind. -/
lemma Signature.isAstray_fault? {s : Signature} {values fault}
    (found : s.fault? values = some fault) : fault.isAstray = false := by
  unfold fault? at found
  split at found
  · cases found
    rfl
  · obtain ⟨⟨v, index⟩, -, wrong⟩ := List.exists_of_findSome?_eq_some found
    dsimp only at wrong
    split at wrong
    · cases wrong
      rfl
    · split at wrong <;> cases wrong
      rfl

namespace Native

lemma tame_checkResults (f : Native) (results : List Value) : Tame (f.checkResults results) := by
  unfold checkResults
  split
  · exact .pure _
  case h_2 fault found =>
    refine (Tame.modify (Heap.same_releaseValues results)).bind fun _ => ?_
    exact .throw (Signature.isAstray_fault? found)

lemma tame_runBuiltin (f : Native) (b : Builtin) (context : CallContext) (args : List Value) :
    Tame (f.runBuiltin b context args) := by
  unfold runBuiltin
  split
  case h_1 fault found => exact .throw (Signature.isAstray_fault? found)
  case h_2 =>
    refine (Builtin.tame_run b context args).bind fun result => ?_
    exact (tame_checkResults f result.1).bind fun _ => .pure _

end Native

end FiberVM
