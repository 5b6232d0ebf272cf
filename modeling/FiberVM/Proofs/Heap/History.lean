import FiberVM.Proofs.Heap.Fading
import FiberVM.Proofs.Heap.LifeCycle
import Mathlib.Logic.Function.Basic

/-!
# What a reference reads

A history writes down what was last put into every cell (`Heap.History`). A reference reads just
that for as long as strong references to its cell are counted. Afterwards it reads nothing for good:
no call gives a value to a cell that has lost its own, and the identifier of a freed cell is not
issued again.
-/

namespace FiberVM.Heap

/-- A heap, and what was put into its cells. -/
structure History where
  heap : Heap
  /-- The value that was last put into a cell that was issued. -/
  stored : Ref → Option Value := fun _ => none

/-- What is known of the cells after a call that was answered. -/
def Call.leaves (stored : Ref → Option Value) : Call → Answer → Ref → Option Value
  | alloc _ v, .cell r | declare _ _ v, .cell r => Function.update stored r (some v)
  | store r v, _ => Function.update stored r (some v)
  | edit r change, _ => Function.update stored r ((stored r).map change)
  | _, _ => stored

/-- Writes down what a call puts into a cell. -/
def History.enter (x : History) (call : Call) : History :=
  match call.run x.heap with
  | .ok answer h => ⟨h, call.leaves x.stored answer⟩
  | .error _ h => { x with heap := h }

/-- Nothing can be done with a reference whose cell has lost its value, except that what was to be
put into the cell is given up. -/
structure Lost (r : Ref) (h : Heap) : Prop where
  read : read r h = .error .valueFreed h
  retain : (Call.retain r).run h = .error .valueFreed h
  copy : (Call.copy r).run h = .error .valueFreed h
  store : ∀ v, (Call.store r v).run h = .error .valueFreed (h.releaseValue v)
  edit : ∀ change, (Call.edit r change).run h = .error .valueFreed h

variable {h h' : Heap} {r : Ref} {c : Cell} {v : Value} {call : Call} {x : History}
  {stored : Ref → Option Value}

/-! ## Lost values -/

lemma read_eq_ok : read r h = .ok v h ↔ h.get? r = some v := by
  rw [read]
  cases h.get? r with
  | none => simp
  | some w => simp

lemma read_eq_error : read r h = .error .valueFreed h ↔ h.get? r = none := by
  rw [read]
  cases h.get? r with
  | none => simp
  | some w => simp

/-- What was dropped is lost. -/
lemma lost_of_get?_eq_none (gone : h.get? r = none) : Lost r h where
  read := read_eq_error.2 gone
  retain := by
    have refused : h.retain? r = none := by
      cases taken : h.retain? r with
      | none => rfl
      | some h' =>
        obtain ⟨c, hc, valued, -⟩ := retain?_eq_some taken
        rw [← get?_of_cell? hc, gone] at valued
        cases valued
    rw [Call.run_retain, Call.orFreed, refused]
  copy := by
    rw [Call.run_copy, Heap.copy, gone]
  store := Call.run_store_of_none gone
  edit := Call.run_edit_of_none gone

/-- Identifiers are issued in order, and none that was issued gets a value back. -/
def Forgets (h h' : Heap) : Prop :=
  h.cells.next ≤ h'.cells.next ∧ ∀ r : Ref, r.id < h.cells.next → h.get? r = none → h'.get? r = none

/-- A change of counts only forgets. -/
lemma Recount.forgets (recounted : Recount h h') : Forgets h h' := by
  refine ⟨?_, fun r _ gone => (recounted.fades r).elim (·.trans gone) id⟩
  cases recounted with
  | retain taken =>
    obtain ⟨c, hc, -, rfl⟩ := retain?_eq_some taken
    exact next_setCell.ge
  | retainWeak taken =>
    obtain ⟨c, hc, rfl⟩ := retainWeak?_eq_some taken
    exact next_setCell.ge
  | release given => exact (cascade_decrement given []).keeps.next_le
  | releaseWeak given =>
    obtain ⟨c, hc, ⟨-, -, rfl⟩ | ⟨-, -, rfl⟩⟩ := releaseWeak?_eq_some given
    · exact Nat.le_refl _
    · exact next_setCell.ge
  | name | orphan => exact Nat.le_refl _

/-- A change only forgets or stores. -/
lemma Change.forgets (changed : Change h h') : Forgets h h' := by
  cases changed with
  | recount recounted => exact recounted.forgets
  | add owner v room =>
    refine ⟨Nat.le_succ _, fun r issued gone => ?_⟩
    rw [get?_extend, if_neg, gone]
    rintro rfl
    exact Nat.lt_irrefl _ issued
  | replace hc valued v =>
    refine ⟨next_setCell.ge, fun r _ gone => ?_⟩
    rw [get?_setCell hc, if_neg, gone]
    rintro rfl
    rw [← get?_of_cell? hc, gone] at valued
    cases valued

lemma Changes.forgets (changed : Changes h h') : Forgets h h' := by
  induction changed with
  | refl => exact ⟨Nat.le_refl _, fun _ _ gone => gone⟩
  | tail _ last ih =>
    obtain ⟨later, still⟩ := last.forgets
    exact ⟨ih.1.trans later, fun r issued gone =>
      still r (issued.trans_le ih.1) (ih.2 r issued gone)⟩

/-! ## What is stored -/

/-- Every value is what was last put into its cell, and only cells that were issued had a value. -/
structure Records (stored : Ref → Option Value) (h : Heap) : Prop where
  latest : ∀ r v, h.get? r = some v → stored r = some v
  issued : ∀ r, (stored r).isSome → r.id < h.cells.next

lemma Records.recounts (ok : Records stored h) (recounted : Recounts h h') : Records stored h' where
  latest r v held := ok.latest r v (recounted.fades.get?_eq held)
  issued r known := (ok.issued r known).trans_le recounted.changes.forgets.1

/-- A new cell is recorded. -/
lemma Records.add (ok : Records stored h) (owner : Owner) (v : Value) :
    Records (Function.update stored h.fresh (some v)) (h.extend ⟨some v, owner, 1, 0⟩) where
  latest r w held := by
    rw [get?_extend] at held
    rw [Function.update_apply]
    split at held
    case isTrue new => rwa [if_pos new]
    case isFalse old => rw [if_neg old, ok.latest r w held]
  issued r known := by
    rw [Function.update_apply] at known
    split at known
    case isTrue new =>
      rw [new]
      exact Nat.lt_succ_self _
    case isFalse => exact (ok.issued r known).trans (Nat.lt_succ_self _)

/-- A new value is recorded. -/
lemma Records.replace (ok : Records stored h) (hc : h.cell? r = some c) (v : Value) :
    Records (Function.update stored r (some v)) (h.setCell r { c with value := some v }) where
  latest s w held := by
    rw [get?_setCell hc] at held
    rw [Function.update_apply]
    split at held
    case isTrue same => rwa [if_pos same]
    case isFalse other => rw [if_neg other, ok.latest s w held]
  issued s known := by
    rw [Function.update_apply] at known
    rw [next_setCell]
    split at known
    case isTrue same =>
      rw [same]
      exact lt_next_of_cell? hc
    case isFalse => exact ok.issued s known

/-! ## Calls in a history -/

lemma History.enter_of_ok {answer} (answered : call.run x.heap = .ok answer h) :
    x.enter call = ⟨h, call.leaves x.stored answer⟩ := by
  rw [History.enter, answered]

lemma History.enter_of_error {fault} (refused : call.run x.heap = .error fault h) :
    x.enter call = { x with heap := h } := by
  rw [History.enter, refused]

lemma History.heap_enter (x : History) (call : Call) :
    (x.enter call).heap = call.perform x.heap := by
  rw [Call.perform]
  cases run : call.run x.heap with
  | ok answer h => rw [enter_of_ok run]
  | error fault h => rw [enter_of_error run]

lemma History.changes (x : History) (calls : List Call) :
    Changes x.heap (calls.foldl enter x).heap := by
  induction calls generalizing x with
  | nil => exact .refl
  | cons call rest ih =>
    have first := call.changes x.heap
    rw [← x.heap_enter] at first
    exact first.trans (ih _)

/-- What is written down is what the cells have. -/
def History.Faithful (x : History) : Prop := Records x.stored x.heap

/-- A call that stores nothing keeps the records. -/
private lemma History.Faithful.enter_quiet (ok : x.Faithful) (quiet : call.stores = false) :
    (x.enter call).Faithful := by
  have made := call.recounts quiet x.heap trivial
  cases run : call.run x.heap with
  | error fault h =>
    rw [run] at made
    rw [enter_of_error run]
    exact ok.recounts made.1
  | ok answer h =>
    have same : call.leaves x.stored answer = x.stored := by
      cases call with
      | alloc | declare | store | edit => cases quiet
      | _ => rfl
    rw [run] at made
    rw [enter_of_ok run, Faithful, same]
    exact ok.recounts made.1

/-- What a call puts into a cell is what the cell has then, unless it loses it at once. -/
lemma History.Faithful.enter (ok : x.Faithful) (call : Call) : (x.enter call).Faithful := by
  cases call with
  | alloc owner v =>
    rw [Faithful, History.enter, Call.run_alloc]
    cases x.heap.isFull with
    | true => exact ok.recounts (x.heap.recounts_releaseValue v)
    | false => exact ok.add owner v
  | declare owner name v =>
    rw [Faithful, History.enter, Call.run_declare]
    cases x.heap.isFull with
    | true => exact ok.recounts (x.heap.recounts_releaseValue v)
    | false => exact (ok.add owner v).recounts (.single (.name _))
  | store r v =>
    cases held : x.heap.get? r with
    | none =>
      rw [enter_of_error (Call.run_store_of_none held v)]
      exact ok.recounts (x.heap.recounts_releaseValue v)
    | some former =>
      obtain ⟨c, hc, value⟩ := cell?_of_get? held
      rw [enter_of_ok (Call.run_store hc value v)]
      exact (ok.replace hc v).recounts (recounts_releaseValue _ former)
  | edit r change =>
    cases held : x.heap.get? r with
    | none =>
      rw [enter_of_error (Call.run_edit_of_none held change)]
      exact ok
    | some former =>
      obtain ⟨c, hc, value⟩ := cell?_of_get? held
      have latest : (x.stored r).map change = some (change former) := by
        rw [ok.latest r former held]; rfl
      rw [enter_of_ok (Call.run_edit hc value change), Faithful]
      change Records (Function.update x.stored r ((x.stored r).map change)) _
      rw [latest]
      exact ok.replace hc (change former)
  | _ => exact ok.enter_quiet rfl

lemma History.Faithful.enterAll (calls : List Call) (ok : x.Faithful) :
    (calls.foldl History.enter x).Faithful := by
  induction calls generalizing x with
  | nil => exact ok
  | cons call rest ih => exact ih (ok.enter call)

private lemma faithful_empty (capacity : Option Nat) :
    History.Faithful { heap := { capacity } } where
  latest r v held := by
    rw [get?, cell?_empty] at held
    cases held
  issued r known := by cases known

/-- A reference that was issued reads nothing once its cell has lost the value, whatever calls are
made later. Until then, which is as long as strong references to the cell are counted, it reads what
was last put into the cell. -/
theorem read_latest_until_lost (capacity : Option Nat) (calls later : List Call) (r : Ref) :
    let x := calls.foldl History.enter { heap := { capacity } }
    let y := later.foldl History.enter x
    ((x.stored r).isSome → read r x.heap = .error .valueFreed x.heap → Lost r y.heap) ∧
      ((0 < y.heap.strong r ∧ ∃ v, y.stored r = some v ∧ read r y.heap = .ok v y.heap) ∨
        y.heap.strong r = 0 ∧ Lost r y.heap) := by
  intro x y
  have faithful : x.Faithful := (faithful_empty capacity).enterAll calls
  have lives : ∀ s c, y.heap.cell? s = some c → c.Lives :=
    Changes.lives ((History.changes _ calls).trans (x.changes later)) (lives_empty capacity)
  refine ⟨fun known gone => ?_, ?_⟩
  · have issued := faithful.issued r known
    exact lost_of_get?_eq_none ((x.changes later).forgets.2 r issued (read_eq_error.1 gone))
  · have counted := isSome_get?_iff (r := r) lives
    cases held : y.heap.get? r with
    | none =>
      rw [held] at counted
      exact .inr ⟨by simpa using counted, lost_of_get?_eq_none held⟩
    | some v =>
      rw [held] at counted
      have latest := (faithful.enterAll later).latest r v held
      exact .inl ⟨counted.1 rfl, v, latest, read_eq_ok.2 held⟩

/-- A cell gets another value and loses it, while a weak reference keeps the cell. -/
def storeThenRelease : List Call :=
  [.alloc .temporary .nil, .retainWeak ⟨0⟩, .store ⟨0⟩ (.int 1), .release ⟨0⟩]

/-- The cell is freed, and there is another one whose value is changed in place. -/
def freeThenChangeAnother : List Call :=
  [.releaseWeak ⟨0⟩, .alloc .temporary (.int 2), .store ⟨0⟩ (.int 3), .edit ⟨1⟩ fun _ =>
    .array #[⟨0⟩]]

/-- The first cell is lost before and after it is freed, and the second one has its latest value. -/
theorem read_latest_until_lost_storeThenRelease :
    let x := storeThenRelease.foldl History.enter { heap := {} }
    let y := freeThenChangeAnother.foldl History.enter x
    x.stored ⟨0⟩ = some (.int 1) ∧ x.heap.counts? ⟨0⟩ = some (0, 1) ∧ y.heap.counts? ⟨0⟩ = none ∧
      Lost ⟨0⟩ y.heap ∧ y.stored ⟨1⟩ = some (.array #[⟨0⟩]) ∧
      ∃ v, y.stored ⟨1⟩ = some v ∧ read ⟨1⟩ y.heap = .ok v y.heap := by
  intro x y
  have first := read_latest_until_lost none storeThenRelease freeThenChangeAnother ⟨0⟩
  have second := read_latest_until_lost none storeThenRelease freeThenChangeAnother ⟨1⟩
  have gone : read ⟨0⟩ x.heap = .error .valueFreed x.heap := read_eq_error.2 (by decide +kernel)
  have counted : y.heap.strong ⟨1⟩ ≠ 0 := by decide +kernel
  refine ⟨by decide +kernel, by decide +kernel, by decide +kernel, first.1 (by decide +kernel) gone,
    by decide +kernel, ?_⟩
  obtain ⟨-, latest⟩ | ⟨lost, -⟩ := second.2
  · exact latest
  · exact absurd lost counted

end FiberVM.Heap
