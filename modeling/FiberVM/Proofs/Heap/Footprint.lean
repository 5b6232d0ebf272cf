import FiberVM.Proofs.Heap.Collapse
import FiberVM.Proofs.Heap.Fading

/-!
# What a release reaches

Giving up references reaches only cells to which they lead. Where some cells refer to none but each
other, two heaps that agree on them agree after the same references to them are given up, and
nothing else is touched (`Heap.Agrees.releaseAll`).

So cells may be added behind the others for a while (`Heap.Sprouts`): as long as nobody else refers
to them they can be given up again, and of everything that happens meanwhile only that remains which
concerns the older cells.
-/

namespace FiberVM.Heap

variable {S : Ref → Prop} {p : FiberId → Bool} {h h' h'' k k' : Heap} {r s : Ref} {v : Value}
  {rs given : List Ref} {pending : List Value}

/-! ## Heaps that agree on some cells -/

/-- Two heaps have some cells in common, which refer to none but each other, and the same orphans as
far as they matter. -/
structure Agrees (S : Ref → Prop) (p : FiberId → Bool) (h k : Heap) : Prop where
  cell : ∀ r, S r → k.cell? r = h.cell? r
  within : ∀ r v, S r → h.get? r = some v → ∀ s ∈ v.refs, S s
  orphans : k.orphans.filter p = h.orphans.filter p

/-- Nothing changes but some cells. -/
def Confined (S : Ref → Prop) (k k' : Heap) : Prop := ∀ r, ¬ S r → k'.cell? r = k.cell? r

lemma Confined.trans {k''} (first : Confined S k k') (later : Confined S k' k'') :
    Confined S k k'' :=
  fun r outside => (later r outside).trans (first r outside)

/-- Values that are given up refer to some cells only. -/
def Lead (S : Ref → Prop) (vs : List Value) : Prop := ∀ v ∈ vs, ∀ s ∈ v.refs, S s

namespace Agrees

lemma refl (within : ∀ r v, S r → h.get? r = some v → ∀ s ∈ v.refs, S s) : Agrees S p h h :=
  ⟨fun _ _ => rfl, within, rfl⟩

lemma losing (agrees : Agrees S p h k) (fibers : List FiberId) :
    Agrees S p (h.losing fibers) (k.losing fibers) := by
  refine ⟨agrees.cell, agrees.within, ?_⟩
  simp [Heap.losing, List.filter_append, agrees.orphans]

/-- A reference is given up in both heaps or in none. -/
lemma decrement? (agrees : Agrees S p h k) (inside : S r) :
    (h.decrement? r = none ∧ k.decrement? r = none) ∨
    ∃ v? h' k', h.decrement? r = some (v?, h') ∧ k.decrement? r = some (v?, k') ∧
      Agrees S p h' k' ∧ Confined S k k' ∧ Lead S v?.toList := by
  have strong : k.strong r = h.strong r := by simp only [Heap.strong, agrees.cell r inside]
  have value : k.get? r = h.get? r := by simp only [Heap.get?, agrees.cell r inside]
  cases taken : h.decrement? r with
  | none => exact .inl ⟨rfl, decrement?_eq_none.2 (strong.trans (decrement?_eq_none.1 taken))⟩
  | some result =>
    obtain ⟨v?, h'⟩ := result
    have counted : 0 < k.strong r := by
      rw [strong]
      apply Nat.pos_of_ne_zero
      intro zero
      cases taken.symm.trans (decrement?_eq_none.2 zero)
    obtain ⟨w?, k', taken'⟩ := decrement?_of_strong_pos counted
    have same : w? = v? := by rw [value_decrement? taken, value_decrement? taken', strong, value]
    subst same
    obtain ⟨-, -, -, orphans⟩ := frame_decrement? taken
    obtain ⟨-, -, -, orphans'⟩ := frame_decrement? taken'
    refine .inr ⟨w?, h', k', rfl, taken', ⟨fun s within => ?_, fun s v within found => ?_, ?_⟩,
      fun s outside => ?_, ?_⟩
    · rw [cell?_decrement? taken, cell?_decrement? taken', agrees.cell r inside,
        agrees.cell s within]
    · exact agrees.within s v within ((Recount.release taken).fades.get?_eq found)
    · rw [orphans, orphans', agrees.orphans]
    · rw [cell?_decrement? taken', if_neg]
      rintro rfl
      exact outside inside
    · intro v dropped
      have held : h.get? r = some v := by
        have dropped := Option.mem_toList.1 dropped
        rw [value_decrement? taken] at dropped
        split at dropped
        · exact dropped
        · cases dropped
      exact agrees.within r v inside held

/-- The same values wait when the same references are given up. -/
lemma decrementAll (agrees : Agrees S p h k) (inside : ∀ r ∈ rs, S r) (waiting : Lead S pending) :
    (decrementAll rs pending k).1 = (decrementAll rs pending h).1 ∧
      Lead S (decrementAll rs pending h).1 ∧
      Agrees S p (decrementAll rs pending h).2 (decrementAll rs pending k).2 ∧
      Confined S k (decrementAll rs pending k).2 := by
  induction rs generalizing pending h k with
  | nil => exact ⟨rfl, waiting, agrees, fun _ _ => rfl⟩
  | cons r rest ih =>
    have later : ∀ r ∈ rest, S r := fun r listed => inside r (List.mem_cons_of_mem _ listed)
    rcases agrees.decrement? (inside r List.mem_cons_self) with
      ⟨kept, kept'⟩ | ⟨v?, h', k', taken, taken', agrees', confined, lead⟩
    · simp only [Heap.decrementAll, kept, kept']
      exact ih agrees later waiting
    · have waiting' : Lead S (v?.toList ++ pending) := by
        intro v listed
        rcases List.mem_append.1 listed with dropped | before
        · exact lead v dropped
        · exact waiting v before
      obtain ⟨same, lead', agrees'', confined'⟩ := ih agrees' later waiting'
      cases v? with
      | none =>
        simp only [Heap.decrementAll, taken, taken']
        exact ⟨same, lead', agrees'', confined.trans confined'⟩
      | some v =>
        simp only [Heap.decrementAll, taken, taken']
        exact ⟨same, lead', agrees'', confined.trans confined'⟩

/-- Two heaps that agree settle alike. -/
lemma settles (agrees : Agrees S p h k) (waiting : Lead S pending)
    (settled : Settles pending h h') :
    ∃ k', Settles pending k k' ∧ Agrees S p h' k' ∧ Confined S k k' := by
  induction settled generalizing k with
  | done h => exact ⟨k, .done k, agrees, fun _ _ => rfl⟩
  | @take v pending h h' _ ih =>
    have first : ∀ s ∈ v.refs, S s := waiting v List.mem_cons_self
    have others : Lead S pending := fun w listed => waiting w (List.mem_cons_of_mem _ listed)
    obtain ⟨same, lead, agrees', confined⟩ :=
      (agrees.losing v.instance?.toList).decrementAll first others
    obtain ⟨k', settled, agrees'', confined'⟩ := ih agrees' lead
    rw [← same] at settled
    exact ⟨k', .take settled, agrees'', Confined.trans confined confined'⟩

end Agrees

/-- What is left when no value waits is determined. -/
lemma Settles.unique (settled : Settles pending h h') (settled' : Settles pending h h'') :
    h'' = h' := by
  induction settled with
  | done h =>
    cases settled'
    rfl
  | take _ ih =>
    cases settled' with
    | take rest => exact ih rest

namespace Agrees

/-- They release a reference alike. -/
lemma release (agrees : Agrees S p h k) (inside : S r) :
    Agrees S p (h.release r) (k.release r) ∧ Confined S k (k.release r) := by
  rcases agrees.decrement? inside with ⟨kept, kept'⟩ |
    ⟨v?, h', k', taken, taken', agrees', confined, lead⟩
  · simp only [Heap.release, release?, kept, kept', Option.getD_none]
    exact ⟨agrees, fun _ _ => rfl⟩
  · cases v? with
    | none =>
      simp only [Heap.release, release?, taken, taken', Option.getD_some]
      exact ⟨agrees', confined⟩
    | some v =>
      simp only [Heap.release, release?, taken, taken', Option.getD_some]
      obtain ⟨k'', settled, agrees'', confined'⟩ := agrees'.settles lead (h'.settles_releaseValue v)
      rw [settled.unique (k'.settles_releaseValue v)]
      exact ⟨agrees'', confined.trans confined'⟩

lemma releaseAll (agrees : Agrees S p h k) (inside : ∀ r ∈ rs, S r) :
    Agrees S p (h.releaseAll rs) (k.releaseAll rs) ∧ Confined S k (k.releaseAll rs) := by
  induction rs generalizing h k with
  | nil => exact ⟨agrees, fun _ _ => rfl⟩
  | cons r rest ih =>
    obtain ⟨agrees', confined⟩ := agrees.release (inside r List.mem_cons_self)
    obtain ⟨agrees'', confined'⟩ := ih agrees' fun r listed =>
      inside r (List.mem_cons_of_mem _ listed)
    exact ⟨agrees'', confined.trans confined'⟩

end Agrees

/-! ## Cells of which nobody else knows -/

/-- A cell with one strong reference and so many weak ones. Its value owns nothing, and is no
instance that matters. -/
def Private (p : FiberId → Bool) (owner : Owner) (weak : Nat) (k : Heap) (r : Ref) : Prop :=
  ∃ v : Value, k.cell? r = some ⟨some v, owner, 1, weak⟩ ∧ v.refs = [] ∧ ∀ f, v.instance? = some f →
    p f = false

variable {owner : Owner} {weak : Nat}

lemma Private.congr (alone : k.Private p owner weak r) (same : k'.cell? r = k.cell? r) :
    k'.Private p owner weak r := by
  obtain ⟨v, found, nothing, unseen⟩ := alone
  exact ⟨v, same.trans found, nothing, unseen⟩

/-- Giving up a value that owns nothing makes at most an orphan. -/
lemma releaseValue_of_refs (nothing : v.refs = []) (k : Heap) :
    k.releaseValue v = k.losing v.instance?.toList := by
  rw [releaseValue, settle_succ, nothing]
  cases k.size <;> rfl

/-- Nothing is left of a private cell when its reference is given up. -/
lemma Private.release (alone : k.Private p owner 0 r) :
    (∀ s, (k.release r).cell? s = if s = r then none else k.cell? s) ∧
      (k.release r).orphans.filter p = k.orphans.filter p ∧
        (k.release r).cells.next = k.cells.next := by
  obtain ⟨v, found, nothing, unseen⟩ := alone
  have taken : k.decrement? r = some (some v, k.free r) := by simp [decrement?, found]
  have released : k.release r = (k.free r).losing v.instance?.toList := by
    simp only [Heap.release, release?, taken, Option.getD_some, releaseValue_of_refs nothing]
  rw [released]
  refine ⟨fun s => cell?_free, ?_, rfl⟩
  change (k.orphans ++ v.instance?.toList).filter p = k.orphans.filter p
  cases fiber : v.instance? with
  | none => simp
  | some f => simp [unseen f fiber]

/-- A private cell loses its only weak reference. -/
lemma Private.releaseWeak (alone : k.Private p owner 1 r) :
    (k.releaseWeak r).Private p owner 0 r ∧ (∀ s, s ≠ r → (k.releaseWeak r).cell? s = k.cell? s) ∧
      (k.releaseWeak r).orphans = k.orphans ∧ (k.releaseWeak r).cells.next = k.cells.next := by
  obtain ⟨v, found, nothing, unseen⟩ := alone
  have released : k.releaseWeak r = k.setCell r ⟨some v, owner, 1, 0⟩ := by
    simp [Heap.releaseWeak, releaseWeak?, found]
  rw [released]
  refine ⟨⟨v, ?_, nothing, unseen⟩, fun s other => ?_, rfl, next_setCell⟩
  · rw [cell?_setCell found, if_pos rfl]
  · rw [cell?_setCell found, if_neg other]

/-- Weak references to private cells are given up. -/
lemma releaseWeakAll_private (distinct : rs.Nodup) (alone : ∀ r ∈ rs, k.Private p owner 1 r) :
    (∀ r ∈ rs, (rs.foldl Heap.releaseWeak k).Private p owner 0 r) ∧
      (∀ s, s ∉ rs → (rs.foldl Heap.releaseWeak k).cell? s = k.cell? s) ∧
      (rs.foldl Heap.releaseWeak k).orphans = k.orphans ∧
      (rs.foldl Heap.releaseWeak k).cells.next = k.cells.next := by
  induction rs generalizing k with
  | nil => exact ⟨nofun, fun _ _ => rfl, rfl, rfl⟩
  | cons r rest ih =>
    obtain ⟨new, distinct⟩ := List.nodup_cons.1 distinct
    obtain ⟨first, others, orphans, next⟩ := (alone r List.mem_cons_self).releaseWeak
    obtain ⟨later, others', orphans', next'⟩ := ih distinct fun s listed =>
      (alone s (List.mem_cons_of_mem _ listed)).congr (others s (ne_of_mem_of_not_mem listed new))
    refine ⟨fun s listed => ?_, fun s unlisted => ?_, orphans'.trans orphans, next'.trans next⟩
    · rcases List.mem_cons.1 listed with rfl | listed
      · exact first.congr (others' s new)
      · exact later s listed
    · simp only [List.mem_cons, not_or] at unlisted
      exact (others' s unlisted.2).trans (others s unlisted.1)

/-! ## Cells behind the others -/

/-- A heap is another one with some private cells behind those that were issued before. -/
structure Sprouts (n : Nat) (p : FiberId → Bool) (owner : Owner) (weak : Nat) (rs : List Ref)
    (h k : Heap) : Prop where
  agrees : Agrees (fun r => r.id < n) p h k
  new : ∀ r ∈ rs, n ≤ r.id ∧ k.Private p owner weak r
  nothing : ∀ r, n ≤ r.id → r ∉ rs → k.cell? r = none
  distinct : rs.Nodup
  next : n ≤ k.cells.next

/-- The values of a heap refer to cells that were issued. -/
def Genuine (h : Heap) : Prop := ∀ r v, h.get? r = some v → ∀ s ∈ v.refs, s.id < h.cells.next

namespace Sprouts

variable {n : Nat}

lemma refl (genuine : h.Genuine) : Sprouts h.cells.next p owner weak [] h h where
  agrees := .refl fun _ _ _ found => genuine _ _ found
  new := nofun
  nothing _ late _ := h.cells.get?_of_next_le late
  distinct := List.nodup_nil
  next := le_rfl

/-- What is known of the cells is all that matters. -/
lemma congr (x : Sprouts n p owner weak rs h k) (cells : k'.cells = k.cells)
    (orphans : k'.orphans = k.orphans) :
    Sprouts n p owner weak rs h k' := by
  have same : ∀ r, k'.cell? r = k.cell? r := fun r => by rw [cell?, cells, cell?]
  refine ⟨⟨fun r old => (same r).trans (x.agrees.cell r old), x.agrees.within, ?_⟩, fun r listed =>
    ?_, ?_, x.distinct,
    ?_⟩
  · rw [orphans, x.agrees.orphans]
  · exact ⟨(x.new r listed).1, (x.new r listed).2.congr (same r)⟩
  · exact fun r late unlisted => (same r).trans (x.nothing r late unlisted)
  · rw [cells]
    exact x.next

lemma perm {rs'} (x : Sprouts n p owner weak rs h k) (same : rs.Perm rs') :
    Sprouts n p owner weak rs' h k where
  agrees := x.agrees
  new r listed := x.new r (same.mem_iff.2 listed)
  nothing r late unlisted := x.nothing r late fun listed => unlisted (same.mem_iff.1 listed)
  distinct := same.nodup_iff.1 x.distinct
  next := x.next

/-- A cell is added. -/
lemma add (x : Sprouts n p owner weak rs h k)
    (cells : ∀ s, k'.cell? s = if s = k.fresh then some ⟨some v, owner, 1, weak⟩ else k.cell? s)
    (next : k'.cells.next = k.cells.next + 1) (orphans : k'.orphans = k.orphans)
    (nothing : v.refs = []) (unseen : ∀ f, v.instance? = some f → p f = false) :
    Sprouts n p owner weak (rs ++ [k.fresh]) h k' := by
  have issued : ∀ {r c}, k.cell? r = some c → r ≠ k.fresh := by
    rintro r c found rfl
    cases cell?_fresh.symm.trans found
  have old : ∀ r ∈ rs, r ≠ k.fresh := by
    intro r listed
    obtain ⟨-, v, found, -⟩ := x.new r listed
    exact issued found
  refine ⟨⟨fun r early => ?_, x.agrees.within, ?_⟩, fun r listed => ?_, fun r late unlisted =>
    ?_, ?_, ?_⟩
  · rw [cells, if_neg]
    · exact x.agrees.cell r early
    · rintro rfl
      exact absurd x.next (Nat.not_le_of_lt early)
  · rw [orphans, x.agrees.orphans]
  · rcases List.mem_append.1 listed with listed | last
    · refine ⟨(x.new r listed).1, (x.new r listed).2.congr ?_⟩
      rw [cells, if_neg (old r listed)]
    · cases List.mem_singleton.1 last
      exact ⟨x.next, v, by rw [cells, if_pos rfl], nothing, unseen⟩
  · simp only [List.mem_append, List.mem_singleton, not_or] at unlisted
    rw [cells, if_neg unlisted.2]
    exact x.nothing r late unlisted.1
  · refine List.nodup_append.2 ⟨x.distinct, List.nodup_singleton _, fun r listed s last => ?_⟩
    rw [List.mem_singleton.1 last]
    exact old r listed
  · rw [next]
    exact Nat.le_succ_of_le x.next

/-- References to older cells are given up. -/
lemma releaseAll (x : Sprouts n p owner weak rs h k) (old : ∀ r ∈ given, r.id < n) :
    Sprouts n p owner weak rs (h.releaseAll given) (k.releaseAll given) := by
  obtain ⟨agrees, confined⟩ := x.agrees.releaseAll old
  have late : ∀ r, n ≤ r.id → (k.releaseAll given).cell? r = k.cell? r :=
    fun r late => confined r (Nat.not_lt_of_le late)
  refine ⟨agrees, fun r listed =>
    ⟨(x.new r listed).1, (x.new r listed).2.congr (late r (x.new r listed).1)⟩,
    fun r behind unlisted => (late r behind).trans (x.nothing r behind unlisted), x.distinct, ?_⟩
  exact x.next.trans (sheds_releaseAll given k).keeps.next_le

/-- A private cell is given up. -/
lemma drop (x : Sprouts n p owner 0 (r :: rs) h k) : Sprouts n p owner 0 rs h (k.release r) := by
  obtain ⟨new, distinct⟩ := List.nodup_cons.1 x.distinct
  obtain ⟨late, alone⟩ := x.new r List.mem_cons_self
  obtain ⟨cells, orphans, next⟩ := alone.release
  refine ⟨⟨fun s early => ?_, x.agrees.within, orphans.trans x.agrees.orphans⟩, fun s listed => ?_,
    fun s behind unlisted => ?_, distinct, next ▸ x.next⟩
  · rw [cells, if_neg]
    · exact x.agrees.cell s early
    · rintro rfl
      exact absurd late (Nat.not_le_of_lt early)
  · refine ⟨(x.new s (List.mem_cons_of_mem _ listed)).1,
      (x.new s (List.mem_cons_of_mem _ listed)).2.congr ?_⟩
    rw [cells, if_neg (ne_of_mem_of_not_mem listed new)]
  · rw [cells]
    split
    case isTrue => rfl
    case isFalse other =>
      exact x.nothing s behind fun listed =>
        (List.mem_cons.1 listed).elim other unlisted

lemma dropAll {ts} (x : Sprouts n p owner 0 (ts ++ rs) h k) :
    Sprouts n p owner 0 rs h (k.releaseAll ts) := by
  induction ts generalizing k with
  | nil => exact x
  | cons r rest ih => exact ih x.drop

/-- Weak references to the new cells are given up. -/
lemma releaseWeakAll (x : Sprouts n p owner 1 rs h k) :
    Sprouts n p owner 0 rs h (rs.foldl Heap.releaseWeak k) := by
  obtain ⟨alone, others, orphans, next⟩ := releaseWeakAll_private x.distinct fun r listed =>
    (x.new r listed).2
  have early : ∀ r, r.id < n → r ∉ rs := fun r early listed =>
    absurd (x.new r listed).1 (Nat.not_le_of_lt early)
  refine ⟨⟨fun r old => ?_, x.agrees.within, ?_⟩, fun r listed =>
    ⟨(x.new r listed).1, alone r listed⟩,
    fun r late unlisted => ?_, x.distinct, next ▸ x.next⟩
  · exact (others r (early r old)).trans (x.agrees.cell r old)
  · rw [orphans, x.agrees.orphans]
  · exact (others r unlisted).trans (x.nothing r late unlisted)

end Sprouts

end FiberVM.Heap
