import FiberVM.Proofs.Heap.Changes

/-!
# Values that stay

Giving up references never changes a value: each cell keeps the value that it has, or loses it. So a
cell that has a value afterwards has the value from before. Variables are not touched either, except
those of an owner that is released.
-/

namespace FiberVM.Heap

variable {h h' h'' : Heap} {r : Ref} {c d : Cell}

/-- Each cell of an earlier heap has kept its value or lost it. -/
def Fades (h h' : Heap) : Prop := ∀ r, h'.get? r = h.get? r ∨ h'.get? r = none

lemma Fades.refl (h : Heap) : Fades h h := fun _ => .inl rfl

lemma Fades.trans (x : Fades h h') (y : Fades h' h'') : Fades h h'' := by
  intro r
  rcases y r with same | lost
  · rw [same]
    exact x r
  · exact .inr lost

/-- A value that is there was there before. -/
lemma Fades.get?_eq {v} (x : Fades h h') (left : h'.get? r = some v) :
    h.get? r = some v := by
  rcases x r with same | lost
  · exact same.symm.trans left
  · rw [lost] at left
    cases left

/-! ## Single cells -/

lemma fades_free (h : Heap) (r : Ref) : Fades h (h.free r) := by
  intro s
  rw [get?_free]
  split
  case isTrue => exact .inr rfl
  case isFalse => exact .inl rfl

/-- A cell that keeps or loses its value fades. -/
lemma fades_setCell (hc : h.cell? r = some c) (value : d.value = c.value ∨ d.value = none) :
    Fades h (h.setCell r d) := by
  intro s
  rw [get?_setCell hc]
  split
  case isTrue same =>
    rw [same, get?_of_cell? hc]
    exact value
  case isFalse => exact .inl rfl

/-! ## Recounting -/

/-- Counts change no value. -/
lemma Recount.fades (recounted : Recount h h') : Fades h h' := by
  cases recounted with
  | retain taken =>
    obtain ⟨c, hc, -, rfl⟩ := retain?_eq_some taken
    exact fades_setCell hc (.inl rfl)
  | retainWeak taken =>
    obtain ⟨c, hc, rfl⟩ := retainWeak?_eq_some taken
    exact fades_setCell hc (.inl rfl)
  | release given =>
    obtain ⟨c, hc, ⟨-, -, rfl⟩ | ⟨-, -, -, rfl⟩ | ⟨-, -, -, rfl⟩⟩ := decrement?_eq_some given
    · exact fades_setCell hc (.inl rfl)
    · exact h.fades_free _
    · exact fades_setCell hc (.inr rfl)
  | releaseWeak given =>
    obtain ⟨c, hc, ⟨-, -, rfl⟩ | ⟨-, -, rfl⟩⟩ := releaseWeak?_eq_some given
    · exact h.fades_free _
    · exact fades_setCell hc (.inl rfl)
  | name | orphan => exact fun _ => .inl rfl

lemma Recounts.fades (recounted : Recounts h h') : Fades h h' := by
  induction recounted with
  | refl => exact .refl h
  | tail _ last ih => exact ih.trans last.fades

lemma fades_release (h : Heap) (r : Ref) : Fades h (h.release r) := (h.recounts_release r).fades

lemma fades_releaseAll (rs : List Ref) (h : Heap) :
    Fades h (h.releaseAll rs) := (recounts_releaseAll rs h).fades

/-! ## Weak references and variables -/

/-- Neither do weak releases. -/
lemma fades_releaseWeak (h : Heap) (r : Ref) :
    Fades h (h.releaseWeak r) ∧ (h.releaseWeak r).directory = h.directory := by
  refine ⟨(h.recounts_releaseWeak r).fades, ?_⟩
  rw [releaseWeak]
  cases given : h.releaseWeak? r with
  | none => rfl
  | some h' =>
    obtain ⟨c, -, ⟨-, -, rfl⟩ | ⟨-, -, rfl⟩⟩ := releaseWeak?_eq_some given
    · rfl
    · rfl

lemma fades_releaseWeakAll (rs : List Ref) (h : Heap) :
    Fades h (rs.foldl releaseWeak h) ∧ (rs.foldl releaseWeak h).directory = h.directory := by
  induction rs generalizing h with
  | nil => exact ⟨.refl h, rfl⟩
  | cons r rest ih =>
    obtain ⟨first, named⟩ := h.fades_releaseWeak r
    obtain ⟨later, named'⟩ := ih (h.releaseWeak r)
    exact ⟨first.trans later, named'.trans named⟩

/-- The variables of other owners stay. -/
lemma fades_releaseOwner (h : Heap) (owner : Owner) :
    Fades h (h.releaseOwner owner) ∧ (h.releaseOwner owner).directory = h.directory.erase owner :=
  ⟨(h.recounts_releaseOwner owner).fades, (sheds_releaseAll _ _).directory⟩

end FiberVM.Heap
