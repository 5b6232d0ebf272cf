import FiberVM.Data.Arena
import FiberVM.Data.Table
import Mathlib.Algebra.BigOperators.Group.List.Basic
import Mathlib.Algebra.Order.BigOperators.Group.List
import Mathlib.Algebra.Order.Group.Multiset
import Mathlib.Algebra.Order.Group.Nat
import Mathlib.Data.List.Perm.Basic
import Mathlib.Tactic.Abel

/-!
# Totals over arenas and tables

What the values of an arena or of a table contribute together, each through one function into a
commutative monoid: a number of references, or the multiset of the references themselves. A total is
known as soon as `get?` or `find?` is known, so the lemmas say what an operation adds or takes away.
-/

namespace FiberVM

namespace Arena

variable {α M : Type} [AddCommMonoid M]

/-- What the values of an arena contribute together. -/
def total (a : Arena α) (f : α → M) : M := (a.toList.map fun e => f e.2).sum

/-- The list of an arena has exactly the values that can be looked up. -/
lemma mem_toList {a : Arena α} {id x} : (id, x) ∈ a.toList ↔ a.get? id = some x :=
  Std.TreeMap.mem_toList_iff_getElem?_eq_some

/-- No identifier is listed twice. -/
lemma nodup_toList (a : Arena α) : a.toList.Nodup := by
  refine (Std.TreeMap.distinct_keys_toList (t := a.cells)).imp ?_
  intro x y differ same
  exact differ (by rw [same]; exact Std.ReflCmp.compare_self)

/-- An arena that has one value more than another one lists that value more. -/
lemma toList_perm_cons {a b : Arena α} {k x} (new : b.get? k = none)
    (same : ∀ id, a.get? id = if id = k then some x else b.get? id) :
    a.toList.Perm ((k, x) :: b.toList) := by
  have absent : (k, x) ∉ b.toList := by
    rw [mem_toList, new]
    exact nofun
  refine (List.perm_ext_iff_of_nodup a.nodup_toList ?_).2 ?_
  · exact List.nodup_cons.2 ⟨absent, b.nodup_toList⟩
  · rintro ⟨id, y⟩
    rw [mem_toList, same, List.mem_cons, mem_toList, Prod.mk.injEq]
    by_cases h : id = k
    · subst h
      simp [new, eq_comm]
    · simp [h]

/-- A value more adds its contribution. -/
lemma total_cons {a b : Arena α} {k x} (f : α → M) (new : b.get? k = none)
    (same : ∀ id, a.get? id = if id = k then some x else b.get? id) :
    a.total f = f x + b.total f := by
  rw [total, ((toList_perm_cons new same).map fun e => f e.2).sum_eq, List.map_cons, List.sum_cons,
    total]

@[simp] lemma total_empty (f : α → M) : (empty : Arena α).total f = 0 := by
  have none_listed : (empty : Arena α).toList = [] := by
    refine List.eq_nil_iff_forall_not_mem.2 ?_
    rintro ⟨id, x⟩ h
    rw [mem_toList, get?_empty] at h
    cases h
  rw [total, none_listed, List.map_nil, List.sum_nil]

/-- An insertion adds the contribution of the new value. -/
@[simp] lemma total_insert (a : Arena α) (x : α) (f : α → M) :
    (a.insert x).total f = f x + a.total f :=
  total_cons f (a.get?_of_next_le (Nat.le_refl _)) (a.get?_insert x)

/-- Erasing takes the contribution of the value away. -/
lemma total_erase {a : Arena α} {id x} (f : α → M) (h : a.get? id = some x) :
    a.total f = f x + (a.erase id).total f := by
  refine total_cons f (k := id) (by rw [get?_erase, if_pos rfl]) ?_
  intro other
  rw [get?_erase]
  split
  case isTrue e => rw [e, h]
  case isFalse => rfl

/-- After setting, the rest of the arena contributes beside the new value. -/
lemma total_set_eq {a : Arena α} {id x y} (f : α → M) (h : a.get? id = some x) :
    (a.set id y).total f = f y + (a.erase id).total f := by
  refine total_cons f (k := id) (by rw [get?_erase, if_pos rfl]) ?_
  intro other
  rw [get?_set, get?_erase, h]
  by_cases e : other = id <;> simp [e]

/-- Setting puts the contribution of the new value in place of that of the old one. -/
lemma total_set {a : Arena α} {id x y} (f : α → M) (h : a.get? id = some x) :
    f x + (a.set id y).total f = f y + a.total f := by
  rw [total_set_eq f h, total_erase f h]
  abel

/-- Setting a value to one that contributes the same keeps the total. -/
lemma total_set_of_eq {a : Arena α} {id x y} (f : α → M) (h : a.get? id = some x)
    (same : f y = f x) :
    (a.set id y).total f = a.total f := by
  rw [total_set_eq f h, total_erase f h, same]

/-- What one value contributes is in the total. -/
lemma mem_total {β : Type} {a : Arena α} {id x} {f : α → Multiset β} {b} (h : a.get? id = some x)
    (hb : b ∈ f x) : b ∈ a.total f := by
  rw [total_erase f h]
  exact Multiset.mem_add.2 (.inl hb)

private lemma length_toList (a : Arena α) : a.toList.length = a.size := Std.TreeMap.length_toList

/-- A total of at most one for each value is at most their number. -/
lemma total_le_size (a : Arena α) (f : α → Nat) (bound : ∀ x, f x ≤ 1) : a.total f ≤ a.size := by
  have h := List.sum_le_card_nsmul (a.toList.map fun e => f e.2) 1 ?_
  · simpa [total, length_toList] using h
  · intro n hn
    obtain ⟨e, _, rfl⟩ := List.mem_map.1 hn
    exact bound e.2

lemma total_one (a : Arena α) : (a.total fun _ => 1) = a.size := by
  simp [total, length_toList]

@[simp] lemma size_insert (a : Arena α) (x : α) : (a.insert x).size = a.size + 1 := by
  rw [← total_one, total_insert, total_one, add_comm]

lemma size_set {a : Arena α} {id x y} (h : a.get? id = some x) :
    (a.set id y).size = a.size := by
  rw [← total_one, ← total_one]
  exact total_set_of_eq _ h rfl

lemma size_erase {a : Arena α} {id x} (h : a.get? id = some x) :
    a.size = (a.erase id).size + 1 := by
  rw [← total_one, ← total_one, total_erase _ h, add_comm]

end Arena

namespace Table

variable {κ α M : Type} [DecidableEq κ] [AddCommMonoid M]

/-- What the values of a table contribute together. -/
def total (t : Table κ α) (f : α → M) : M := (t.entries.map fun e => f e.2).sum

/-- Among distinct keys, what is listed is found. -/
private lemma lookup_eq_some_iff {l : List (κ × α)} (distinct : (l.map (·.1)).Nodup) {k x} :
    l.lookup k = some x ↔ (k, x) ∈ l := by
  induction l with
  | nil => simp
  | cons e l ih =>
    obtain ⟨k', y⟩ := e
    rw [List.map_cons, List.nodup_cons] at distinct
    by_cases h : k = k'
    · subst h
      have other : (k, x) ∉ l := fun hx => distinct.1 (List.mem_map.2 ⟨_, hx, rfl⟩)
      simp [other, eq_comm]
    · have hb : (k == k') = false := by simpa using h
      simp [List.lookup_cons, hb, ih distinct.2, h]

/-- The entries of a table are exactly those that can be looked up. -/
lemma find?_eq_some_iff {t : Table κ α} {k x} : t.find? k = some x ↔ (k, x) ∈ t.entries :=
  lookup_eq_some_iff t.distinct

omit [DecidableEq κ] in
/-- No entry is listed twice. -/
lemma nodup_entries (t : Table κ α) : t.entries.Nodup := t.distinct.of_map

/-- The entries of a table are one of them and those of the other keys. -/
lemma entries_perm_cons {t : Table κ α} {k x} (h : t.find? k = some x) :
    t.entries.Perm ((k, x) :: (t.erase k).entries) := by
  have absent : (k, x) ∉ (t.erase k).entries := by
    rw [← find?_eq_some_iff, find?_erase, if_pos rfl]
    exact nofun
  refine (List.perm_ext_iff_of_nodup t.nodup_entries ?_).2 ?_
  · exact List.nodup_cons.2 ⟨absent, (t.erase k).nodup_entries⟩
  · rintro ⟨k', y⟩
    rw [List.mem_cons, ← find?_eq_some_iff, ← find?_eq_some_iff, find?_erase, Prod.mk.injEq]
    by_cases e : k' = k
    · subst e
      simp [h, eq_comm]
    · simp [e]

/-- Erasing takes the contribution of the value away. -/
lemma total_erase {t : Table κ α} {k x} (f : α → M) (h : t.find? k = some x) :
    t.total f = f x + (t.erase k).total f := by
  rw [total, ((entries_perm_cons h).map fun e => f e.2).sum_eq, List.map_cons, List.sum_cons, total]

/-- Erasing a key without a value changes nothing. -/
lemma erase_of_find?_eq_none {t : Table κ α} {k} (h : t.find? k = none) : t.erase k = t := by
  have all_other : ∀ e ∈ t.entries, decide (e.1 ≠ k) = true := by
    rintro ⟨k', x⟩ he
    rw [← find?_eq_some_iff] at he
    refine decide_eq_true ?_
    rintro rfl
    rw [h] at he
    cases he
  have same : (t.erase k).entries = t.entries := List.filter_eq_self.2 all_other
  cases t
  simpa [erase] using same

/-- An insertion puts the contribution of the new value beside those of the other keys. -/
lemma total_insert (t : Table κ α) (k : κ) (x : α) (f : α → M) :
    (t.insert k x).total f = f x + (t.erase k).total f := rfl

/-- What one value contributes is in the total. -/
lemma mem_total {β : Type} {t : Table κ α} {k x} {f : α → Multiset β} {b} (h : t.find? k = some x)
    (hb : b ∈ f x) : b ∈ t.total f := by
  rw [total_erase f h]
  exact Multiset.mem_add.2 (.inl hb)

end Table

end FiberVM
