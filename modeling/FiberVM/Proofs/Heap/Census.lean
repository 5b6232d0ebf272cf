import FiberVM.Heap.Directory
import FiberVM.Proofs.Data.Total

/-!
# The census of references

What the counts of a heap stand for. The strong references to a cell are held by owners, who have
named it (`Heap.named`), by the values of cells (`Heap.nested`), or by somebody outside of the heap.
A heap accounts for the references in somebody's hand if every count is the number of references
that are held (`Heap.Accounts`).

Cells change in three ways: one is replaced, freed or added. Each way has a lemma that says which
hands it accounts for afterwards.
-/

namespace FiberVM

lemma Ref.eq_of_id_eq {r s : Ref} (h : r.id = s.id) : r = s := by
  cases r
  cases s
  exact congrArg Ref.mk h

/-- The fiber whose own cell holds the value. -/
def Value.instance? : Value → Option FiberId
  | .instance f => some f
  | _ => none

/-- The references that the value of a cell owns. -/
def Cell.refs (c : Cell) : Multiset Ref := (c.value.elim [] Value.refs : List Ref)

/-- A cell has its value as long as it is strongly referenced, and is there for a reason. -/
def Cell.Lives (c : Cell) : Prop := (c.value.isSome ↔ 0 < c.strong) ∧ (0 < c.strong ∨ 0 < c.weak)

lemma Cell.Lives.value_eq_none {c : Cell} (lives : c.Lives) (unheld : c.strong = 0) :
    c.value = none := by
  have valued := lives.1
  rw [unheld] at valued
  simpa using valued

namespace Heap

variable {h h' : Heap} {r s : Ref} {c d : Cell} {v : Value} {K K' L L' : Multiset Ref}

/-- The number of strong references to a cell; a freed cell has none. -/
def strong (h : Heap) (r : Ref) : Nat := (h.cell? r).elim 0 (·.strong)

/-- The number of weak references to a cell; a freed cell has none. -/
def weak (h : Heap) (r : Ref) : Nat := (h.cell? r).elim 0 (·.weak)

/-- The references that the values of all cells own. -/
def nested (h : Heap) : Multiset Ref := h.cells.total Cell.refs

/-- The references that owners hold to their variables. -/
def named (h : Heap) : Multiset Ref :=
  h.directory.total fun entries => (entries.map (·.2) : List Ref)

/-- The heap with one cell more. -/
def extend (h : Heap) (c : Cell) : Heap := { h with cells := h.cells.insert c }

/-- The reference of the cell that is added next. -/
def fresh (h : Heap) : Ref := ⟨h.cells.next⟩

/-! ## Looking up cells -/

/-- A cell is set, and the others are as they were. -/
lemma cell?_setCell (present : h.cell? r = some c) :
    (h.setCell r d).cell? s = if s = r then some d else h.cell? s := by
  have held : (h.cells.get? r.id).isSome := by
    rw [show h.cells.get? r.id = some c from present]
    rfl
  rw [cell?, setCell, Arena.get?_set]
  by_cases e : s = r
  · simp [e, held]
  · have ne : s.id ≠ r.id := fun same => e (Ref.eq_of_id_eq same)
    simp [e, ne, cell?]

lemma cell?_free : (h.free r).cell? s = if s = r then none else h.cell? s := by
  rw [cell?, free, Arena.get?_erase]
  by_cases e : s = r
  · simp [e]
  · have ne : s.id ≠ r.id := fun same => e (Ref.eq_of_id_eq same)
    simp [e, ne, cell?]

lemma cell?_extend : (h.extend c).cell? s = if s = h.fresh then some c else h.cell? s := by
  rw [cell?, extend, Arena.get?_insert]
  by_cases e : s = h.fresh
  · simp [e, fresh]
  · have ne : s.id ≠ h.cells.next := fun same => e (Ref.eq_of_id_eq same)
    simp [e, ne, cell?]

lemma cell?_empty (capacity : Option Nat) (r : Ref) :
    ({ capacity } : Heap).cell? r = none := Arena.get?_empty r.id

lemma cell?_fresh : h.cell? h.fresh = none := h.cells.get?_of_next_le (Nat.le_refl _)

/-- A cell that can be looked up was issued. -/
lemma lt_next_of_cell? (hc : h.cell? r = some c) : r.id < h.cells.next := by
  by_contra late
  rw [cell?, h.cells.get?_of_next_le (Nat.le_of_not_lt late)] at hc
  cases hc

lemma get?_of_cell? (hc : h.cell? r = some c) : h.get? r = c.value := by
  rw [get?, hc]
  rfl

/-- A cell with a value can be looked up. -/
lemma cell?_of_get? {v} (hv : h.get? r = some v) :
    ∃ c, h.cell? r = some c ∧ c.value = some v := by
  rw [get?] at hv
  exact Option.bind_eq_some_iff.1 hv

lemma get?_setCell (present : h.cell? r = some c) :
    (h.setCell r d).get? s = if s = r then d.value else h.get? s := by
  rw [get?, cell?_setCell present]
  split
  · rfl
  · rfl

lemma get?_free : (h.free r).get? s = if s = r then none else h.get? s := by
  rw [get?, cell?_free]
  split
  · rfl
  · rfl

lemma get?_extend : (h.extend c).get? s = if s = h.fresh then c.value else h.get? s := by
  rw [get?, cell?_extend]
  split
  · rfl
  · rfl

lemma strong_of_cell? (hc : h.cell? r = some c) : h.strong r = c.strong := by rw [strong, hc]; rfl

lemma weak_of_cell? (hc : h.cell? r = some c) : h.weak r = c.weak := by rw [weak, hc]; rfl

/-- A cell that is strongly referenced can be looked up. -/
lemma cell?_of_strong_pos (live : 0 < h.strong r) :
    ∃ c, h.cell? r = some c ∧ 0 < c.strong := by
  rw [strong] at live
  cases hc : h.cell? r with
  | none => simp [hc] at live
  | some c => exact ⟨c, rfl, by simpa [hc] using live⟩

/-! ## How counts change -/

/-- A strong reference is taken to a cell that has its value. -/
lemma retain?_eq_some (taken : h.retain? r = some h') :
    ∃ c, h.cell? r = some c ∧ c.value.isSome ∧ h' = h.setCell r
      { c with strong := c.strong + 1 } := by
  unfold retain? at taken
  cases hc : h.cell? r with
  | none => simp [hc] at taken
  | some c =>
    simp only [hc, Option.ite_none_right_eq_some, Option.some.injEq] at taken
    exact ⟨c, rfl, taken.1, taken.2.symm⟩

/-- A weak reference is taken to any cell. -/
lemma retainWeak?_eq_some (taken : h.retainWeak? r = some h') :
    ∃ c, h.cell? r = some c ∧ h' = h.setCell r { c with weak := c.weak + 1 } := by
  obtain ⟨c, hc, rfl⟩ := Option.map_eq_some_iff.1 taken
  exact ⟨c, hc, rfl⟩

/-- With its last weak reference goes a cell that has lost its value. -/
lemma releaseWeak?_eq_some (given : h.releaseWeak? r = some h') :
    ∃ c, h.cell? r = some c ∧
      (c.weak = 1 ∧ c.strong = 0 ∧ h' = h.free r ∨
        0 < c.weak ∧ (1 < c.weak ∨ 0 < c.strong) ∧
          h' = h.setCell r { c with weak := c.weak - 1 }) := by
  unfold releaseWeak? at given
  cases hc : h.cell? r with
  | none => simp [hc] at given
  | some c =>
    refine ⟨c, rfl, ?_⟩
    simp only [hc] at given
    split at given
    case isTrue => cases given
    case isFalse counted =>
      split at given
      case isTrue last =>
        cases given
        exact .inl ⟨last.1, last.2, rfl⟩
      case isFalse more =>
        cases given
        exact .inr ⟨by omega, by omega, rfl⟩

/-- A weak reference is refused only if none is counted. -/
lemma releaseWeak?_eq_none : h.releaseWeak? r = none ↔ h.weak r = 0 := by
  unfold releaseWeak? weak
  cases h.cell? r with
  | none => exact iff_of_true rfl rfl
  | some c =>
    simp only [Option.elim_some]
    split
    case isTrue zero => exact iff_of_true rfl zero
    case isFalse counted =>
      split
      · exact iff_of_false (Option.some_ne_none _) counted
      · exact iff_of_false (Option.some_ne_none _) counted

/-! ## What values own -/

lemma refs_nested (hc : h.cell? r = some c) (hs : s ∈ c.refs) : s ∈ h.nested :=
  Arena.mem_total hc hs

lemma nested_setCell (hc : h.cell? r = some c) :
    c.refs + (h.setCell r d).nested = d.refs + h.nested :=
  Arena.total_set Cell.refs hc

lemma nested_free (hc : h.cell? r = some c) : h.nested = c.refs + (h.free r).nested :=
  Arena.total_erase Cell.refs hc

lemma nested_extend : (h.extend c).nested = c.refs + h.nested := h.cells.total_insert c Cell.refs

/-! ## What owners hold -/

/-- A variable more is held by its owner. -/
lemma named_insert (owner : Owner) (x : String × Ref) :
    ({ h with directory := h.directory.insert owner (h.entries owner ++ [x]) } : Heap).named =
      {x.2} + h.named := by
  rw [named, Table.total_insert, named, entries]
  cases found : h.directory.find? owner with
  | none =>
    rw [Table.erase_of_find?_eq_none found]
    rfl
  | some xs =>
    rw [Table.total_erase (fun entries : List (String × Ref) => (entries.map (·.2) : Multiset Ref))
      found]
    simp only [Option.getD_some, List.map_append, ← Multiset.coe_add]
    change (xs.map (·.2) : Multiset Ref) + {x.2} + _ = _
    abel

/-- An owner who is forgotten holds its variables no more. -/
lemma named_erase (owner : Owner) :
    h.named = ((h.entries owner).map (·.2) : List Ref) +
      ({ h with directory := h.directory.erase owner } : Heap).named := by
  rw [named, named, entries]
  cases found : h.directory.find? owner with
  | none =>
    rw [Table.erase_of_find?_eq_none found]
    exact (zero_add _).symm
  | some xs => exact Table.total_erase _ found

/-! ## Accounting -/

/-- A heap accounts for the strong references in one hand and the weak ones in the other: every
count is the number of references that are held. -/
structure Accounts (hand weakHand : Multiset Ref) (h : Heap) : Prop where
  strong : ∀ r, h.strong r = (hand + h.named + h.nested).count r
  weak : ∀ r, h.weak r = weakHand.count r

/-- Nothing is held of a heap without cells. -/
lemma accounts_empty (capacity : Option Nat) : Accounts 0 0 { capacity } where
  strong r := by
    have nested : ({ capacity } : Heap).nested = 0 := Arena.total_empty Cell.refs
    rw [Heap.strong, cell?_empty, nested]
    rfl
  weak r := by
    rw [Heap.weak, cell?_empty]
    rfl

/-- A change of one cell is accounted for if the hand makes up for what changes in the counts and in
the value of that cell. A cell that is not there counts nothing and owns nothing. -/
private lemma Accounts.change {h' : Heap} {old} (ok : Accounts K L h) (new : Option Cell)
    (was : h.cell? r = old) (now : ∀ s, h'.cell? s = if s = r then new else h.cell? s)
    (named : h'.named = h.named)
    (nested : old.elim 0 Cell.refs + h'.nested = new.elim 0 Cell.refs + h.nested)
    (hand : K' + Multiset.replicate (old.elim 0 (·.strong)) r + new.elim 0 Cell.refs =
      K + Multiset.replicate (new.elim 0 (·.strong)) r + old.elim 0 Cell.refs)
    (weakHand : L' + Multiset.replicate (old.elim 0 (·.weak)) r =
      L + Multiset.replicate (new.elim 0 (·.weak)) r) :
    Accounts K' L' h' where
  strong x := by
    have count := congrArg (Multiset.count x) hand
    have inside := congrArg (Multiset.count x) nested
    have before := ok.strong x
    simp only [Multiset.count_add, Multiset.count_replicate] at count inside before ⊢
    rw [Heap.strong, now, named]
    by_cases e : x = r
    · subst e
      rw [Heap.strong, was] at before
      simp only [if_true] at count ⊢
      omega
    · rw [if_neg (Ne.symm e), if_neg (Ne.symm e)] at count
      rw [if_neg e]
      change h.strong x = _
      omega
  weak x := by
    have count := congrArg (Multiset.count x) weakHand
    have before := ok.weak x
    simp only [Multiset.count_add, Multiset.count_replicate] at count
    rw [Heap.weak, now]
    by_cases e : x = r
    · subst e
      rw [Heap.weak, was] at before
      simp only [if_true] at count ⊢
      omega
    · rw [if_neg (Ne.symm e), if_neg (Ne.symm e)] at count
      rw [if_neg e]
      change h.weak x = _
      omega

/-- Replacing a cell is accounted for if the hand makes up for what changes in the counts and in the
value of the cell. -/
lemma Accounts.setCell (ok : Accounts K L h) (hc : h.cell? r = some c)
    (hand : K' + Multiset.replicate c.strong r + d.refs =
      K + Multiset.replicate d.strong r + c.refs)
    (weakHand : L' + Multiset.replicate c.weak r = L + Multiset.replicate d.weak r) :
    Accounts K' L' (h.setCell r d) :=
  ok.change (some d) hc (fun _ => cell?_setCell hc) rfl (nested_setCell hc) hand weakHand

/-- Freeing a cell is accounted for if the hand loses the references to it and gains what its value
owned. -/
lemma Accounts.free (ok : Accounts K L h)
    (hc : h.cell? r = some c)
    (hand : K' + Multiset.replicate c.strong r = K + c.refs)
    (weakHand : L' + Multiset.replicate c.weak r = L) :
    Accounts K' L' (h.free r) := by
  refine ok.change none hc (fun _ => cell?_free) rfl ?_ ?_ ?_
  · simpa using (nested_free hc).symm
  · simpa using hand
  · simpa using weakHand

/-- A cell that is added is accounted for if its value takes what it owns from the hand, which gains
the references to the cell. -/
lemma Accounts.extend (ok : Accounts K L h)
    (hand : K' + c.refs = K + Multiset.replicate c.strong h.fresh)
    (weakHand : L' = L + Multiset.replicate c.weak h.fresh) :
    Accounts K' L' (h.extend c) := by
  refine ok.change (some c) cell?_fresh (fun _ => cell?_extend) rfl ?_ ?_ ?_
  · simpa using nested_extend
  · simpa using hand
  · simpa using weakHand

/-- A strong reference that is taken comes into the hand. -/
lemma Accounts.retain? (ok : Accounts K L h) (taken : h.retain? r = some h') :
    Accounts ({r} + K) L h' := by
  obtain ⟨c, hc, -, rfl⟩ := retain?_eq_some taken
  refine ok.setCell hc ?_ rfl
  rw [Multiset.replicate_succ, ← Multiset.singleton_add]
  simp only [Cell.refs]
  abel

/-- A weak reference that is taken comes into the other hand. -/
lemma Accounts.retainWeak? (ok : Accounts K L h) (taken : h.retainWeak? r = some h') :
    Accounts K ({r} + L) h' := by
  obtain ⟨c, hc, rfl⟩ := retainWeak?_eq_some taken
  refine ok.setCell hc rfl ?_
  rw [Multiset.replicate_succ, ← Multiset.singleton_add]
  abel

/-- A weak reference that is given up leaves the other hand. -/
lemma Accounts.releaseWeak? (ok : Accounts K ({r} + L) h) (given : h.releaseWeak? r = some h')
    (lives : ∀ c, h.cell? r = some c → c.Lives) : Accounts K L h' := by
  obtain ⟨c, hc, ⟨last, lost, rfl⟩ | ⟨counted, -, rfl⟩⟩ := releaseWeak?_eq_some given
  · refine ok.free hc ?_ ?_
    · rw [lost, Multiset.replicate_zero, Cell.refs, (lives c hc).value_eq_none lost]
      rfl
    · rw [last, Multiset.replicate_one, add_comm]
  · refine ok.setCell hc rfl ?_
    have one_more : c.weak = c.weak - 1 + 1 := by omega
    conv_lhs => rw [one_more, Multiset.replicate_succ, ← Multiset.singleton_add]
    abel

/-- A new cell takes over what its value owns, and the reference to it comes into the hand. -/
lemma Accounts.add (ok : Accounts (v.refs + K) L h) (owner : Owner) :
    Accounts ({h.fresh} + K) L (h.extend ⟨some v, owner, 1, 0⟩) := by
  refine ok.extend ?_ (add_zero L).symm
  simp only [Cell.refs, Option.elim_some, Multiset.replicate_one]
  abel

/-- A cell takes over what its new value owns, and what the former one owned comes into the hand. -/
lemma Accounts.replace {former} (ok : Accounts K L h) (hc : h.cell? r = some c)
    (value : c.value = some former) (hand : K' + v.refs = K + former.refs) :
    Accounts K' L (h.setCell r { c with value := some v }) := by
  refine ok.setCell hc ?_ rfl
  simp only [Cell.refs, value, Option.elim_some]
  calc K' + Multiset.replicate c.strong r + v.refs
      = (K' + v.refs) + Multiset.replicate c.strong r := by abel
    _ = K + Multiset.replicate c.strong r + former.refs := by rw [hand]; abel

/-- A cell that is named is held by its owner and no more in the hand. -/
lemma Accounts.name (ok : Accounts ({r} + K) L h) (owner : Owner) (name : String) :
    Accounts K L { h with
      directory := h.directory.insert owner (h.entries owner ++ [(name, r)]) } where
  strong s := by
    rw [named_insert]
    refine (ok.strong s).trans (congrArg (Multiset.count s) ?_)
    change {r} + K + h.named + h.nested = K + ({r} + h.named) + h.nested
    abel
  weak := ok.weak

/-- What an owner held comes into the hand when the owner is forgotten. -/
lemma Accounts.forget (ok : Accounts K L h) (owner : Owner) :
    Accounts (((h.entries owner).map (·.2) : List Ref) + K) L
      { h with directory := h.directory.erase owner } where
  strong s := by
    refine (ok.strong s).trans (congrArg (Multiset.count s) ?_)
    change K + h.named + h.nested = _ + K + _ + h.nested
    rw [named_erase owner]
    abel
  weak := ok.weak

/-- Accounting is about counts, so it does not matter how the hand is written. -/
lemma Accounts.cast (ok : Accounts K L h) (hand : K = K') (weakHand : L = L') :
    Accounts K' L' h := by
  subst hand
  subst weakHand
  exact ok

/-- What is in the hand is strongly referenced. -/
lemma Accounts.strong_pos_of_mem (ok : Accounts K L h) (hr : r ∈ K) : 0 < h.strong r := by
  rw [ok.strong, Multiset.count_pos, Multiset.mem_add, Multiset.mem_add]
  exact .inl (.inl hr)

/-- What is named is strongly referenced. -/
lemma Accounts.strong_pos_of_named (ok : Accounts K L h) (hr : r ∈ h.named) : 0 < h.strong r := by
  rw [ok.strong, Multiset.count_pos, Multiset.mem_add, Multiset.mem_add]
  exact .inl (.inr hr)

/-- What a value owns is strongly referenced. -/
lemma Accounts.strong_pos_of_nested (ok : Accounts K L h) (hr : r ∈ h.nested) : 0 < h.strong r := by
  rw [ok.strong, Multiset.count_pos, Multiset.mem_add]
  exact .inr hr

end Heap

end FiberVM
