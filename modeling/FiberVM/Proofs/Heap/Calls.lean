import FiberVM.Proofs.Heap.Changes

/-!
# Calls of a heap

What can be asked of a heap, as data (`Heap.Call`), so that statements can be about any calls in any
order. A call may name any cell: one that was freed, one that is to come, or one that the caller has
no reference to. However it ends, a call comes down to single changes of the heap
(`Heap.Call.changes`).
-/

namespace FiberVM.Heap

/-- What can be asked of a heap. -/
inductive Call where
  | alloc (owner : Owner) (v : Value)
  | declare (owner : Owner) (name : String) (v : Value)
  /-- One more strong reference, taken from a strong or from a weak one. -/
  | retain (r : Ref)
  | retainWeak (r : Ref)
  | release (r : Ref)
  | releaseWeak (r : Ref)
  | releaseValue (v : Value)
  | releaseValues (vs : List Value)
  | copyValue (v : Value)
  | copy (r : Ref)
  | store (r : Ref) (v : Value)
  /-- A change of a value in place, whatever this does to the references that it owns. -/
  | edit (r : Ref) (change : Value → Value)
  | releaseOwner (owner : Owner)
  | takeOrphans

/-- What a call is answered if it succeeds. -/
inductive Answer where
  | cell (r : Ref)
  | value (v : Value)
  | orphans (fibers : List FiberId)
  | done

namespace Call

/-- A change that is refused where it cannot be made. -/
def orFreed (change : Heap → Option Heap) : HeapM Answer := fun h =>
  match change h with
  | some h => .ok .done h
  | none => .error .valueFreed h

/-- What a call does. -/
def run : Call → HeapM Answer
  | alloc owner v => return .cell (← Heap.alloc owner v)
  | declare owner name v => return .cell (← Heap.declare owner name v)
  | retain r => do
    Heap.retain r
    return .done
  | retainWeak r => do
    downgrade r
    return .done
  | release r => orFreed (·.release? r)
  | releaseWeak r => orFreed (·.releaseWeak? r)
  | releaseValue v => do
    modify (·.releaseValue v)
    return .done
  | releaseValues vs => do
    modify (·.releaseValues vs)
    return .done
  | copyValue v => return .value (← Heap.copyValue v)
  | copy r => return .value (← Heap.copy r)
  | store r v => do
    Heap.store r v
    return .done
  | edit r change => do
    let v ← read r
    modify (·.overwrite r (change v))
    return .done
  | releaseOwner owner => do
    modify (·.releaseOwner owner)
    return .done
  | takeOrphans => modifyGet fun h => (.orphans h.takeOrphans.1, h.takeOrphans.2)

/-- The heap after a call, whether it succeeds or fails. -/
def perform (call : Call) (h : Heap) : Heap :=
  match call.run h with
  | .ok _ h => h
  | .error _ h => h

/-- Whether a call is meant to put a value into a cell. -/
def stores : Call → Bool
  | alloc .. | declare .. | store .. | edit .. => true
  | _ => false

end Call

/-- The heap after calls, one after the other. -/
def performAll (calls : List Call) (h : Heap) : Heap := calls.foldl (fun h call => call.perform h) h

variable {h h' : Heap} {call : Call} {r : Ref} {c : Cell} {former : Value}

/-! ## Calls that store -/

/-- What an allocation does. -/
lemma Call.run_alloc (owner : Owner) (v : Value) (h : Heap) :
    (Call.alloc owner v).run h =
      if h.isFull then .error .heapExhausted (h.releaseValue v)
      else .ok (.cell h.fresh) (h.extend ⟨some v, owner, 1, 0⟩) := by
  change EStateM.bind (Heap.alloc owner v) _ h = _
  rw [EStateM.bind, Heap.alloc]
  cases h.isFull with
  | true => rfl
  | false => rfl

/-- What a declaration does. -/
lemma Call.run_declare (owner : Owner) (name : String) (v : Value) (h : Heap) :
    (Call.declare owner name v).run h =
      if h.isFull then .error .heapExhausted (h.releaseValue v)
      else
        .ok (.cell h.fresh)
          { h.extend ⟨some v, owner, 1, 0⟩ with
            directory := h.directory.insert owner (h.entries owner ++ [(name, h.fresh)]) } := by
  change EStateM.bind (Heap.declare owner name v) _ h = _
  rw [EStateM.bind, Heap.declare, Heap.alloc]
  cases h.isFull with
  | true => rfl
  | false => rfl

lemma Call.run_store (hc : h.cell? r = some c) (value : c.value = some former) (v : Value) :
    (Call.store r v).run h = .ok .done
      ((h.setCell r { c with value := some v }).releaseValue former) := by
  change EStateM.bind (Heap.store r v) _ h = _
  simp only [EStateM.bind, Heap.store, hc, value]
  rfl

/-- What an edit does. -/
lemma Call.run_edit (hc : h.cell? r = some c) (value : c.value = some former)
    (change : Value → Value) :
    (Call.edit r change).run h = .ok .done
      (h.setCell r { c with value := some (change former) }) := by
  change EStateM.bind (read r) _ h = _
  have found : h.get? r = some former := (get?_of_cell? hc).trans value
  simp only [EStateM.bind, read, found]
  change EStateM.Result.ok Answer.done (h.overwrite r (change former)) = _
  rw [overwrite]
  simp only [hc, value]
  rfl

/-- A cell that was dropped cannot be stored to. -/
lemma Call.run_store_of_none (gone : h.get? r = none) (v : Value) :
    (Call.store r v).run h = .error .valueFreed (h.releaseValue v) := by
  change EStateM.bind (Heap.store r v) _ h = _
  rw [EStateM.bind, Heap.store]
  cases hc : h.cell? r with
  | none => rfl
  | some c =>
    have lost : c.value = none := (get?_of_cell? hc).symm.trans gone
    simp only [lost]

lemma Call.run_edit_of_none (gone : h.get? r = none) (change : Value → Value) :
    (Call.edit r change).run h = .error .valueFreed h := by
  change EStateM.bind (read r) _ h = _
  rw [EStateM.bind, read, gone]

/-! ## Calls that take references -/

lemma Call.run_retain (r : Ref) (h : Heap) : (Call.retain r).run h = orFreed (·.retain? r) h := by
  change EStateM.bind (Heap.retain r) _ h = _
  rw [EStateM.bind, Heap.retain, orFreed]
  cases h.retain? r with
  | none => rfl
  | some h' => rfl

lemma Call.run_retainWeak (r : Ref) (h : Heap) :
    (Call.retainWeak r).run h = orFreed (·.retainWeak? r) h := by
  change EStateM.bind (downgrade r) _ h = _
  rw [EStateM.bind, downgrade, orFreed]
  cases h.retainWeak? r with
  | none => rfl
  | some h' => rfl

/-- A value is returned as an answer. -/
private lemma run_value (m : HeapM Value) (h : Heap) :
    (do return .value (← m) : HeapM Answer) h =
      match m h with
      | .ok v h' => .ok (.value v) h'
      | .error fault h' => .error fault h' := by
  change EStateM.bind m _ h = _
  rw [EStateM.bind]
  cases m h with
  | ok v h' => rfl
  | error fault h' => rfl

lemma Call.run_copyValue (v : Value) (h : Heap) :
    (Call.copyValue v).run h =
      match Heap.copyValue v h with
      | .ok w h' => .ok (.value w) h'
      | .error fault h' => .error fault h' :=
  run_value _ h

lemma Call.run_copy (r : Ref) (h : Heap) :
    (Call.copy r).run h =
      match Heap.copy r h with
      | .ok v h' => .ok (.value v) h'
      | .error fault h' => .error fault h' :=
  run_value _ h

/-! ## What calls change -/

private lemma makes_orFreed {change : Heap → Option Heap}
    (step : ∀ h h', change h = some h' → Recounts h h') :
    Makes Recounts (Call.orFreed change) := by
  intro h _
  rw [Call.orFreed]
  cases changed : change h with
  | none => exact ⟨.refl, trivial, trivial⟩
  | some h' => exact ⟨step h h' changed, trivial⟩

/-- A call that is not meant to put a value into a cell does not. -/
lemma Call.recounts (quiet : call.stores = false) : Makes Recounts call.run := by
  cases call with
  | retain r => exact (makes_retain r).bind fun _ => .pure fun _ _ => trivial
  | retainWeak r => exact (makes_downgrade r).bind fun _ => .pure fun _ _ => trivial
  | release r => exact makes_orFreed fun h h' given => recounts_release? given
  | releaseWeak r => exact makes_orFreed fun h h' given => .single (.releaseWeak given)
  | releaseValue v => exact fun h _ => ⟨h.recounts_releaseValue v, trivial⟩
  | releaseValues vs => exact fun h _ => ⟨recounts_releaseValues vs h, trivial⟩
  | copyValue v => exact (makes_copyValue v).bind fun _ => .pure fun _ _ => trivial
  | copy r => exact (makes_copy r).bind fun _ => .pure fun _ _ => trivial
  | releaseOwner owner => exact fun h _ => ⟨h.recounts_releaseOwner owner, trivial⟩
  | takeOrphans => exact fun h _ => ⟨.single (.orphan []), trivial⟩
  | alloc | declare | store | edit => cases quiet

/-- An edit is one change. -/
private lemma makes_edit (r : Ref) (change : Value → Value) :
    Makes Changes (Call.edit r change).run := by
  intro h _
  cases held : h.get? r with
  | none =>
    rw [Call.run_edit_of_none held]
    exact ⟨.refl, trivial, trivial⟩
  | some former =>
    obtain ⟨c, hc, value⟩ := cell?_of_get? held
    rw [Call.run_edit hc value]
    exact ⟨.single (.replace hc (Option.isSome_of_eq_some value) _), trivial⟩

lemma Call.makes (call : Call) : Makes Changes call.run := by
  cases call with
  | alloc owner v => exact (makes_alloc owner v).bind fun _ => .pure fun _ _ => trivial
  | declare owner name v =>
    exact (makes_declare owner name v).bind fun _ => .pure fun _ _ => trivial
  | store r v => exact (makes_store r v).bind fun _ => .pure fun _ _ => trivial
  | edit r change => exact makes_edit r change
  | _ => exact (Call.recounts rfl).changes

/-- Every call is a sequence of changes. -/
lemma Call.changes (call : Call) (h : Heap) : Changes h (call.perform h) := by
  have made := call.makes h trivial
  rw [perform]
  cases run : call.run h with
  | ok answer h' =>
    rw [run] at made
    exact made.1
  | error fault h' =>
    rw [run] at made
    exact made.1

lemma changes_performAll (calls : List Call) (h : Heap) : Changes h (performAll calls h) := by
  induction calls generalizing h with
  | nil => exact .refl
  | cons call rest ih => exact (call.changes h).trans (ih _)

end FiberVM.Heap
