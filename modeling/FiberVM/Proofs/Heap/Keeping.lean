import FiberVM.Proofs.Heap.Census

/-!
# How fibers keep their cells

The cell of a fiber holds an instance, which no operation copies or replaces. So between two states
of a heap such a cell either still holds its instance, or has been dropped and its fiber is an
orphan; there are no other orphans, and a cell that was dropped stays so (`Heap.Keeps`). This needs
no accounting. It does need that variables are no cells of fibers (`Heap.Tidy`), since the value of
a variable is replaced.
-/

namespace FiberVM.Heap

variable {h h' h'' : Heap} {r s : Ref} {c d : Cell} {v : Value}

/-- Every cell has a value as long as it is referenced, and no variable is the cell of a fiber. -/
structure Tidy (h : Heap) : Prop where
  /-- Cells have their values and are there for a reason. -/
  lives : ∀ r c, h.cell? r = some c → c.Lives
  /-- Variables have cells that were issued. -/
  issued : ∀ owner x, x ∈ h.entries owner → x.2.id < h.cells.next
  /-- The cell of a fiber is not a variable. -/
  plain : ∀ owner x, x ∈ h.entries owner → ∀ f, h.get? x.2 ≠ some (.instance f)

/-- What happens to the cells of fibers between an earlier and a later heap. -/
structure Keeps (h h' : Heap) : Prop where
  next_le : h.cells.next ≤ h'.cells.next
  /-- No fiber gets its first variable. -/
  owners : ∀ f, h'.directory.contains (.fiber f) → h.directory.contains (.fiber f)
  instance_of : ∀ r f, h'.get? r = some (.instance f) → h.get? r = some (.instance f)
  /-- A fiber keeps its cell or becomes an orphan. -/
  kept : ∀ r f, h.get? r = some (.instance f) →
    h'.get? r = some (.instance f) ∨ h'.get? r = none ∧ f ∈ h'.orphans
  orphans : ∀ f ∈ h.orphans, f ∈ h'.orphans
  /-- Only a fiber that loses its cell becomes an orphan. -/
  orphan_of : ∀ f ∈ h'.orphans,
    f ∈ h.orphans ∨ ∃ r, h.get? r = some (.instance f) ∧ h'.get? r = none
  /-- A cell that was dropped stays so. -/
  dropped : ∀ r, r.id < h.cells.next → h.get? r = none → h'.get? r = none

/-- A cell with a value was issued. -/
lemma lt_next_of_get? (hv : h.get? r = some v) : r.id < h.cells.next := by
  obtain ⟨c, hc, -⟩ := cell?_of_get? hv
  exact lt_next_of_cell? hc

lemma Keeps.refl (h : Heap) : Keeps h h where
  next_le := Nat.le_refl _
  owners _ hf := hf
  instance_of _ _ hr := hr
  kept _ _ hr := .inl hr
  orphans _ hf := hf
  orphan_of _ hf := .inl hf
  dropped _ _ hr := hr

lemma Keeps.trans (k : Keeps h h') (k' : Keeps h' h'') : Keeps h h'' where
  next_le := Nat.le_trans k.next_le k'.next_le
  owners f hf := k.owners f (k'.owners f hf)
  instance_of r f hr := k.instance_of r f (k'.instance_of r f hr)
  kept r f hr := by
    rcases k.kept r f hr with held | ⟨gone, orphan⟩
    · exact k'.kept r f held
    · have issued : r.id < h'.cells.next := Nat.lt_of_lt_of_le (lt_next_of_get? hr) k.next_le
      exact .inr ⟨k'.dropped r issued gone, k'.orphans f orphan⟩
  orphans f hf := k'.orphans f (k.orphans f hf)
  orphan_of f hf := by
    rcases k'.orphan_of f hf with before | ⟨r, held, gone⟩
    · rcases k.orphan_of f before with first | ⟨r, held, gone⟩
      · exact .inl first
      · have issued : r.id < h'.cells.next := Nat.lt_of_lt_of_le (lt_next_of_get? held) k.next_le
        exact .inr ⟨r, held, k'.dropped r issued gone⟩
    · exact .inr ⟨r, k.instance_of r f held, gone⟩
  dropped r issued gone :=
    k'.dropped r (Nat.lt_of_lt_of_le issued k.next_le) (k.dropped r issued gone)

/-- A change that touches neither instances nor orphans keeps the cells of fibers. -/
private lemma Keeps.of_same (next_le : h.cells.next ≤ h'.cells.next)
    (owners : ∀ f, h'.directory.contains (.fiber f) → h.directory.contains (.fiber f))
    (orphans : h'.orphans = h.orphans)
    (same : ∀ r f, h'.get? r = some (.instance f) ↔ h.get? r = some (.instance f))
    (dropped : ∀ r, r.id < h.cells.next → h.get? r = none → h'.get? r = none) :
    Keeps h h' where
  next_le := next_le
  owners := owners
  instance_of r f := (same r f).1
  kept r f hr := .inl ((same r f).2 hr)
  orphans _ hf := orphans ▸ hf
  orphan_of _ hf := .inl (orphans ▸ hf)
  dropped := dropped

lemma next_setCell : (h.setCell r d).cells.next = h.cells.next := h.cells.next_set r.id d

/-- Replacing a cell keeps the cells of fibers if an instance is not put in or taken out. -/
lemma Keeps.setCell (hc : h.cell? r = some c)
    (same : ∀ f, d.value = some (.instance f) ↔ c.value = some (.instance f))
    (dropped : c.value = none → d.value = none) :
    Keeps h (h.setCell r d) := by
  refine .of_same (Nat.le_of_eq next_setCell.symm) (fun _ hf => hf) rfl ?_ ?_
  · intro s f
    rw [get?_setCell hc]
    split
    case isTrue e => rw [e, get?_of_cell? hc, same]
    case isFalse => rfl
  · intro s _ gone
    rw [get?_setCell hc]
    split
    case isTrue e =>
      rw [e, get?_of_cell? hc] at gone
      exact dropped gone
    case isFalse => exact gone

/-- Freeing a cell that has lost its value keeps the cells of fibers. -/
lemma Keeps.free (hc : h.cell? r = some c) (lost : c.value = none) : Keeps h (h.free r) := by
  have gone : h.get? r = none := (get?_of_cell? hc).trans lost
  have same : ∀ s, (h.free r).get? s = h.get? s := by
    intro s
    rw [get?_free]
    split
    case isTrue e => rw [e, gone]
    case isFalse => rfl
  refine .of_same (Nat.le_refl _) (fun _ hf => hf) rfl ?_ ?_
  · intro s f
    rw [same]
  · intro s _ hs
    rw [same, hs]

/-- A new cell keeps those of fibers if it is not one of them. -/
lemma Keeps.extend (other : ∀ f, c.value ≠ some (.instance f)) : Keeps h (h.extend c) := by
  refine .of_same (Nat.le_succ _) (fun _ hf => hf) rfl ?_ ?_
  · intro s f
    rw [get?_extend]
    split
    case isTrue e =>
      have unknown : h.get? s = none := by rw [e, get?, cell?_fresh]; rfl
      rw [unknown]
      exact iff_of_false (other f) (Option.some_ne_none _).symm
    case isFalse => rfl
  · intro s issued gone
    rw [get?_extend, if_neg ?_, gone]
    rintro rfl
    exact absurd issued (Nat.lt_irrefl _)

/-- Naming a variable of somebody who is not a fiber keeps the cells of fibers. -/
lemma Keeps.directory {directory : Table Owner (List (String × Ref))}
    (owners : ∀ f, directory.contains (.fiber f) → h.directory.contains (.fiber f)) :
    Keeps h { h with directory } :=
  .of_same (Nat.le_refl _) owners rfl (fun _ _ => Iff.rfl) fun _ _ gone => gone

/-- Dropping one value makes its fiber an orphan if it is an instance. -/
lemma Keeps.drop (hv : h.get? r = some v)
    (now : ∀ s, h'.get? s = if s = r then none else h.get? s)
    (next : h'.cells.next = h.cells.next)
    (directory : h'.directory = h.directory)
    (orphans : ∀ f, f ∈ h'.orphans ↔ f ∈ h.orphans ∨ v = .instance f) :
    Keeps h h' where
  next_le := Nat.le_of_eq next.symm
  owners f hf := directory ▸ hf
  instance_of s f hs := by
    rw [now] at hs
    split at hs
    case isTrue => cases hs
    case isFalse => exact hs
  kept s f hs := by
    rw [now]
    split
    case isTrue e =>
      rw [e, hv] at hs
      exact .inr ⟨rfl, (orphans f).2 (.inr (Option.some.inj hs))⟩
    case isFalse => exact .inl hs
  orphans f hf := (orphans f).2 (.inl hf)
  orphan_of f hf := by
    rcases (orphans f).1 hf with before | e
    · exact .inl before
    · exact .inr ⟨r, hv.trans (congrArg some e), by rw [now, if_pos rfl]⟩
  dropped s _ gone := by
    rw [now]
    split
    · rfl
    · exact gone

/-! ## Tidiness -/

/-- Tidiness is a matter of the cells if no variable is added. -/
lemma Tidy.of_keeps (t : Tidy h) (k : Keeps h h')
    (lives : ∀ r c, h'.cell? r = some c → c.Lives)
    (directory : ∀ owner x, x ∈ h'.entries owner → x ∈ h.entries owner) :
    Tidy h' where
  lives := lives
  issued owner x hx := Nat.lt_of_lt_of_le (t.issued owner x (directory owner x hx)) k.next_le
  plain owner x hx f hf := t.plain owner x (directory owner x hx) f (k.instance_of x.2 f hf)

/-- A cell that is set lives. -/
lemma lives_setCell (lives : ∀ r c, h.cell? r = some c → c.Lives) (hc : h.cell? r = some c)
    (live : d.Lives) :
    ∀ s b, (h.setCell r d).cell? s = some b → b.Lives := by
  intro s b hb
  rw [cell?_setCell hc] at hb
  split at hb
  case isTrue =>
    cases hb
    exact live
  case isFalse => exact lives s b hb

lemma lives_free (lives : ∀ r c, h.cell? r = some c → c.Lives) :
    ∀ s b, (h.free r).cell? s = some b → b.Lives := by
  intro s b hb
  rw [cell?_free] at hb
  split at hb
  case isTrue => cases hb
  case isFalse => exact lives s b hb

/-- A cell that is added lives. -/
lemma lives_extend (lives : ∀ r c, h.cell? r = some c → c.Lives) (live : c.Lives) :
    ∀ s b, (h.extend c).cell? s = some b → b.Lives := by
  intro s b hb
  rw [cell?_extend] at hb
  split at hb
  case isTrue =>
    cases hb
    exact live
  case isFalse => exact lives s b hb

/-- What has a value is what is strongly referenced. -/
lemma isSome_get?_iff (lives : ∀ r c, h.cell? r = some c → c.Lives) :
    (h.get? r).isSome ↔ 0 < h.strong r := by
  cases hc : h.cell? r with
  | none => simp [get?, strong, hc]
  | some c =>
    rw [get?_of_cell? hc, strong_of_cell? hc]
    exact (lives r c hc).1

/-- In a tidy heap, what is strongly referenced has a value. -/
lemma Tidy.get?_of_strong_pos (t : Tidy h) (live : 0 < h.strong r) : ∃ v, h.get? r = some v :=
  Option.isSome_iff_exists.1 ((isSome_get?_iff t.lives).2 live)

/-- In a tidy heap, what has a value is strongly referenced. -/
lemma Tidy.strong_pos_of_get? (t : Tidy h) (hv : h.get? r = some v) : 0 < h.strong r :=
  (isSome_get?_iff t.lives).1 (Option.isSome_of_eq_some hv)

end FiberVM.Heap
