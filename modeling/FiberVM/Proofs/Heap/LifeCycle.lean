import FiberVM.Proofs.Heap.Calls

/-!
# The life of a cell

A cell is there as long as something refers to it, it has its value as long as something refers to
it strongly, and there are never more cells than fit. None of this asks the caller for anything: it
holds also if references are given up that nobody holds, or if values come with references that
nobody has taken.
-/

namespace FiberVM.Heap

variable {h h' : Heap} {r : Ref} {c d : Cell}

/-! ## Counts -/

/-- A strong reference is given up only if one is counted, and then one less is counted. -/
lemma strong_decrement? {v? : Option Value} (given : h.decrement? r = some (v?, h')) :
    h'.strong r + 1 = h.strong r := by
  obtain ⟨c, hc, ⟨many, -, rfl⟩ | ⟨last, -, -, rfl⟩ | ⟨last, -, -, rfl⟩⟩ := decrement?_eq_some given
  · rw [strong_of_cell? hc, strong, cell?_setCell hc, if_pos rfl]
    change c.strong - 1 + 1 = c.strong
    omega
  · rw [strong_of_cell? hc, strong, cell?_free, if_pos rfl, last]
    rfl
  · rw [strong_of_cell? hc, strong, cell?_setCell hc, if_pos rfl, last]
    rfl

/-- A strong reference is refused only if none is counted. -/
lemma decrement?_eq_none : h.decrement? r = none ↔ h.strong r = 0 := by
  constructor
  · intro refused
    by_contra counted
    obtain ⟨v?, h', given⟩ := decrement?_of_strong_pos (Nat.pos_of_ne_zero counted)
    rw [refused] at given
    cases given
  · intro none_counted
    cases given : h.decrement? r with
    | none => rfl
    | some result =>
      have one_less := strong_decrement? given
      rw [none_counted] at one_less
      cases one_less

lemma weak_releaseWeak? (given : h.releaseWeak? r = some h') : h'.weak r + 1 = h.weak r := by
  obtain ⟨c, hc, ⟨last, -, rfl⟩ | ⟨counted, -, rfl⟩⟩ := releaseWeak?_eq_some given
  · rw [weak_of_cell? hc, weak, cell?_free, if_pos rfl, last]
    rfl
  · rw [weak_of_cell? hc, weak, cell?_setCell hc, if_pos rfl]
    change c.weak - 1 + 1 = c.weak
    omega

/-! ## Cells fit -/

lemma size_setCell (hc : h.cell? r = some c) : (h.setCell r d).size = h.size := Arena.size_set hc

lemma size_free (hc : h.cell? r = some c) : h.size = (h.free r).size + 1 := Arena.size_erase hc

/-- Recounting references makes no room and takes none, except that cells may be freed. -/
lemma Recount.size_le (recounted : Recount h h') : h'.capacity = h.capacity ∧ h'.size ≤ h.size := by
  cases recounted with
  | retain taken =>
    obtain ⟨c, hc, -, rfl⟩ := retain?_eq_some taken
    exact ⟨rfl, Nat.le_of_eq (size_setCell hc)⟩
  | retainWeak taken =>
    obtain ⟨c, hc, rfl⟩ := retainWeak?_eq_some taken
    exact ⟨rfl, Nat.le_of_eq (size_setCell hc)⟩
  | release given =>
    obtain ⟨c, hc, ⟨-, -, rfl⟩ | ⟨-, -, -, rfl⟩ | ⟨-, -, -, rfl⟩⟩ := decrement?_eq_some given
    · exact ⟨rfl, Nat.le_of_eq (size_setCell hc)⟩
    · exact ⟨rfl, size_free hc ▸ Nat.le_succ _⟩
    · exact ⟨rfl, Nat.le_of_eq (size_setCell hc)⟩
  | releaseWeak given =>
    obtain ⟨c, hc, ⟨-, -, rfl⟩ | ⟨-, -, rfl⟩⟩ := releaseWeak?_eq_some given
    · exact ⟨rfl, size_free hc ▸ Nat.le_succ _⟩
    · exact ⟨rfl, Nat.le_of_eq (size_setCell hc)⟩
  | name | orphan => exact ⟨rfl, Nat.le_refl _⟩

/-- There are no more cells than fit. -/
def Fits (capacity : Option Nat) (h : Heap) : Prop :=
  h.capacity = capacity ∧ ∀ n, capacity = some n → h.size ≤ n

/-- A change keeps to the capacity. -/
lemma Change.fits {capacity} (changed : Change h h') (fits : h.Fits capacity) :
    h'.Fits capacity := by
  obtain ⟨same, room⟩ := fits
  cases changed with
  | recount recounted =>
    obtain ⟨kept, fewer⟩ := recounted.size_le
    exact ⟨kept.trans same, fun n limit => Nat.le_trans fewer (room n limit)⟩
  | add owner v space =>
    refine ⟨same, ?_⟩
    rintro n rfl
    rw [isFull, same, Option.any_some, decide_eq_true_iff] at space
    change (h.cells.insert _).size ≤ n
    rw [Arena.size_insert]
    exact Nat.lt_of_not_le space
  | replace hc valued v => exact ⟨same, fun n limit => (size_setCell hc).le.trans (room n limit)⟩

lemma Changes.fits {capacity} (changed : Changes h h') (fits : h.Fits capacity) :
    h'.Fits capacity := by
  induction changed with
  | refl => exact fits
  | tail _ last ih => exact last.fits ih

lemma fits_empty (capacity : Option Nat) :
    ({ capacity } : Heap).Fits capacity := ⟨rfl, fun n _ => Nat.zero_le n⟩

/-! ## Any calls -/

/-- Whatever calls are made of a heap, a cell has its value as long as strong references are
counted, it is there as long as any are counted, and there are no more cells than fit. A count is
reduced by one each time, and not if it is zero. -/
theorem cells_live_while_counted (capacity : Option Nat) (calls : List Call) :
    let h := performAll calls { capacity }
    (∀ r c, h.cell? r = some c → (c.value.isSome ↔ 0 < c.strong)) ∧
      (∀ r, (h.cell? r).isSome ↔ 0 < h.strong r ∨ 0 < h.weak r) ∧
      (∀ n, capacity = some n → h.size ≤ n) ∧
      (∀ r, match h.decrement? r with
        | some (_, h') => h'.strong r + 1 = h.strong r
        | none => h.strong r = 0) ∧
      ∀ r, match h.releaseWeak? r with
        | some h' => h'.weak r + 1 = h.weak r
        | none => h.weak r = 0 := by
  intro h
  have changed : Changes { capacity } h := changes_performAll calls _
  have lives := changed.lives (lives_empty capacity)
  refine ⟨fun r c hc => (lives r c hc).1, fun r => ?_, (changed.fits (fits_empty capacity)).2,
    fun r => ?_, fun r => ?_⟩
  · cases hc : h.cell? r with
    | none =>
      rw [strong, weak, hc]
      simp
    | some c =>
      rw [strong_of_cell? hc, weak_of_cell? hc]
      exact iff_of_true rfl (lives r c hc).2
  · cases given : h.decrement? r with
    | none => exact decrement?_eq_none.1 given
    | some result => exact strong_decrement? given
  · cases given : h.releaseWeak? r with
    | none => exact releaseWeak?_eq_none.1 given
    | some h' => exact weak_releaseWeak? given

/-- An array names a cell twice without a reference of its own. When it is given up, so is the only
reference to that cell, which a weak reference keeps from being freed. -/
def unownedElements : List Call :=
  [.alloc .temporary .nil, .retainWeak ⟨0⟩, .alloc .temporary (.array #[⟨0⟩, ⟨0⟩]), .release ⟨1⟩,
    .release ⟨0⟩, .alloc .temporary .nil, .alloc .temporary .nil]

/-- A heap with room for two cells has no room beside one that lost its value and another one. -/
theorem cells_live_while_counted_unownedElements :
    let h := performAll unownedElements { capacity := some 2 }
    h.counts? ⟨0⟩ = some (0, 1) ∧ h.get? ⟨0⟩ = none ∧ h.counts? ⟨1⟩ = none ∧
      h.counts? ⟨2⟩ = some (1, 0) ∧ h.counts? ⟨3⟩ = none ∧ h.size ≤ 2 :=
  ⟨by decide +kernel, by decide +kernel, by decide +kernel, by decide +kernel, by decide +kernel,
    (cells_live_while_counted (some 2) unownedElements).2.2.1 2 rfl⟩

end FiberVM.Heap
