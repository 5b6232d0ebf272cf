import FiberVM.Proofs.Heap.Fading

/-!
# What becomes of variables

Most of what is done to a heap leaves the variables of all owners as they are
(`Heap.SameVariables`). A declaration puts a variable behind the others of its owner, so that
declarations which succeed extend the variables of an owner (`Heap.Extends`). If their owner is
released, nothing is left of them.
-/

namespace FiberVM

lemma Table.eq_of_entries {κ α : Type} {t u : Table κ α} (same : t.entries = u.entries) :
    t = u := by
  cases t
  cases u
  cases same
  rfl

lemma Table.erase_erase {κ α : Type} [DecidableEq κ] (t : Table κ α) (k : κ) :
    (t.erase k).erase k = t.erase k :=
  erase_of_find?_eq_none (by rw [find?_erase, if_pos rfl])

/-- What a key had does not matter once it is forgotten. -/
lemma Table.erase_insert {κ α : Type} [DecidableEq κ] (t : Table κ α) (k : κ) (x : α) :
    (t.insert k x).erase k = t.erase k := by
  have entries : ((k, x) :: (t.erase k).entries).filter (·.1 ≠ k) = (t.erase k).entries := by
    rw [List.filter_cons_of_neg (by simp)]
    exact List.filter_eq_self.2 fun _ kept => (List.mem_filter.1 kept).2
  exact eq_of_entries entries

namespace Heap

variable {h h' h'' : Heap} {owner o : Owner} {name : String} {r : Ref} {v : Value}
  {new : List (String × Ref)}

lemma entries_of_none (none : h.directory.find? owner = none) : h.entries owner = [] := by
  rw [entries, none]
  rfl

/-- All owners have the variables that they had. -/
def SameVariables (h h' : Heap) : Prop := h'.directory = h.directory

instance : Std.Refl SameVariables := ⟨fun _ => rfl⟩

instance : IsTrans Heap SameVariables := ⟨fun _ _ _ first later => Eq.trans later first⟩

lemma SameVariables.entries (same : SameVariables h h') (owner : Owner) :
    h'.entries owner = h.entries owner := by
  rw [Heap.entries, same]
  rfl

lemma SameVariables.lookup? (same : SameVariables h h') (owner : Owner) (key : Key) :
    h'.lookup? owner key = h.lookup? owner key := by
  cases key with
  | index n => rw [Heap.lookup?, Heap.lookup?, same.entries]
  | name s => rw [Heap.lookup?, Heap.lookup?, same.entries]

/-! ## What leaves variables alone -/

lemma same_releaseValue (h : Heap) (v : Value) : SameVariables h (h.releaseValue v) :=
  (h.sheds_releaseValue v).directory

lemma same_releaseValues (vs : List Value) (h : Heap) : SameVariables h (h.releaseValues vs) := by
  induction vs generalizing h with
  | nil => exact Std.Refl.refl h
  | cons v rest ih => exact IsTrans.trans _ _ _ (h.same_releaseValue v) (ih _)

lemma same_release (h : Heap) (r : Ref) :
    SameVariables h (h.release r) := (h.sheds_release r).directory

lemma same_releaseAll (rs : List Ref) (h : Heap) : SameVariables h (h.releaseAll rs) :=
  (sheds_releaseAll rs h).directory

lemma same_releaseWeak (h : Heap) (r : Ref) :
    SameVariables h (h.releaseWeak r) := (h.fades_releaseWeak r).2

lemma same_releaseWeakAll (rs : List Ref) (h : Heap) : SameVariables h (rs.foldl releaseWeak h) :=
  (fades_releaseWeakAll rs h).2

lemma same_retain? (taken : h.retain? r = some h') : SameVariables h h' := by
  obtain ⟨c, -, -, rfl⟩ := retain?_eq_some taken
  rfl

lemma same_retainWeak? (taken : h.retainWeak? r = some h') : SameVariables h h' := by
  obtain ⟨c, -, rfl⟩ := retainWeak?_eq_some taken
  rfl

lemma same_overwrite (h : Heap) (r : Ref) (v : Value) : SameVariables h (h.overwrite r v) := by
  unfold overwrite
  split
  · split
    · rfl
    · rfl
  · rfl

/-! ## The variables of one owner -/

/-- All owners but one have the variables that they had. -/
def Spares (owner : Owner) (h h' : Heap) : Prop :=
  h'.directory.erase owner = h.directory.erase owner

instance : Std.Refl (Spares owner) := ⟨fun _ => rfl⟩

instance : IsTrans Heap (Spares owner) := ⟨fun _ _ _ first later => Eq.trans later first⟩

namespace Spares

lemma of_same (same : SameVariables h h') : Spares owner h h' := by rw [Spares, same]

/-- The variables of the owner may be forgotten. -/
lemma of_forgotten (forgotten : h'.directory = h.directory.erase owner) : Spares owner h h' := by
  rw [Spares, forgotten, Table.erase_erase]

/-- Where nothing is left of the owner, it was forgotten. -/
lemma forgotten (x : Spares owner h h') (none : h'.directory.find? owner = none) :
    h'.directory = h.directory.erase owner := by
  rw [← x, Table.erase_of_find?_eq_none none]

lemma find? (x : Spares owner h h') (other : o ≠ owner) :
    h'.directory.find? o = h.directory.find? o := by
  have rest := congrArg (·.find? o) x
  simp only [Table.find?_erase, if_neg other] at rest
  exact rest

lemma entries (x : Spares owner h h') (other : o ≠ owner) : h'.entries o = h.entries o := by
  rw [Heap.entries, x.find? other]
  rfl

end Spares

/-- An owner has some variables behind those that it had, and other owners have theirs. -/
structure Extends (owner : Owner) (new : List (String × Ref)) (h h' : Heap) : Prop where
  own : h'.entries owner = h.entries owner ++ new
  others : Spares owner h h'

lemma Extends.after_same (same : SameVariables h h') (x : Extends owner new h' h'') :
    Extends owner new h h'' where
  own := by rw [x.own, same.entries]
  others := IsTrans.trans _ _ _ (Spares.of_same same) x.others

/-- A variable is declared behind the others of its owner, or it cannot be declared. -/
lemma declare_cases (owner : Owner) (name : String) (v : Value) (h : Heap) :
    (∃ r h', declare owner name v h = .ok r h' ∧ Extends owner [(name, r)] h h') ∨
    ∃ h', declare owner name v h = .error .heapExhausted h' ∧ SameVariables h h' := by
  unfold declare alloc
  by_cases full : h.isFull
  · exact .inr ⟨h.releaseValue v, by rw [if_pos full], h.same_releaseValue v⟩
  · rw [if_neg full]
    refine .inl ⟨_, _, rfl, ?_, Table.erase_insert _ _ _⟩
    rw [entries, Table.find?_insert, if_pos rfl]
    rfl

/-- Variables are as before, or a global one was declared that did not exist. -/
def Names (h h' : Heap) : Prop :=
  SameVariables h h' ∨ ∃ name r, h.lookup? .global (.name name) = none ∧
    Extends .global [(name, r)] h h'

end Heap

end FiberVM
