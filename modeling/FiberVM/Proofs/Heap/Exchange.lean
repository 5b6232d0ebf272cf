import FiberVM.Proofs.Heap.Copying

/-!
# References taken and given up

An operation may take references and give up others, also such as it took itself, in any order. What
is left of the heap depends only on which references were taken and which were given up in the end
(`Heap.Trades`): it is as if all of them were taken first (`Heap.Raised`) and given up then
(`Heap.Collapsed`). A reference that is taken and given up again does not show, even if values were
dropped in between.
-/

namespace FiberVM

/-- Values that refer to one cell each. To give them up is to give up the references. -/
def Value.handles (rs : Multiset Ref) : Multiset Value := rs.map .fiber

/-- One reference more and one attempt more come to the same. -/
lemma Cell.reduce_raise {c : Cell} (held : 0 < c.strong) (n : Nat) :
    ({ c with strong := c.strong + 1 } : Cell).reduce (n + 1) = c.reduce n := by
  by_cases enough : c.strong ≤ n
  · rw [reduce_of_le held enough, reduce_of_le (Nat.succ_pos _) (Nat.succ_le_succ enough)]
    rfl
  · rw [reduce_of_lt (Nat.lt_of_not_le enough),
      reduce_of_lt (Nat.succ_lt_succ (Nat.lt_of_not_le enough))]
    simp only [Nat.add_sub_add_right]

namespace Heap

variable {h h' k k' : Heap} {r s : Ref} {vs : Multiset Value} {D E : Finset Ref}
  {attempts taken more given : Multiset Ref} {done : List Value}

/-! ## One reference more at the start -/

namespace Raised

/-- Raised counts leave cells filled. -/
lemma filled (filled : h.Filled) (x : Raised h taken h') : h'.Filled := by
  intro r c hc
  rw [x.cell] at hc
  obtain ⟨d, hd, rfl⟩ := Option.map_eq_some_iff.1 hc
  by_cases mem : r ∈ taken
  · have valued := x.valued r mem
    rw [get?_of_cell? hd] at valued
    exact iff_of_true valued (Nat.add_pos_right _ (Multiset.count_pos.2 mem))
  · simp only [Multiset.count_eq_zero_of_notMem mem, Nat.add_zero]
    exact filled r d hd

lemma held (x : Raised h taken h') (D : Finset Ref) : h'.held D = h.held D := by
  rw [Heap.held, Heap.held, funext x.get?]

/-- Of the references that were taken, some may have been taken later than others. -/
lemma later (x : Raised h taken k) (y : Raised h (taken + more) h') : Raised k more h' := by
  refine ⟨fun r mem => ?_, fun r => ?_, y.directory.trans x.directory.symm,
    y.capacity.trans x.capacity.symm, y.next.trans x.next.symm, y.orphans.trans x.orphans.symm⟩
  · rw [x.get?]
    exact y.valued r (Multiset.mem_add.2 (.inr mem))
  · rw [y.cell, x.cell, Option.map_map, Multiset.count_add]
    refine congrFun (congrArg Option.map (funext fun c => ?_)) (h.cell? r)
    simp only [Function.comp_apply, Nat.add_assoc]

lemma valued_self (x : Raised h {r} h') :
    (h.get? r).isSome := x.valued r (Multiset.mem_singleton_self r)

lemma strong_self (x : Raised h {r} h') : h'.strong r = h.strong r + 1 := by
  rw [x.strong x.valued_self, Multiset.count_singleton_self]

lemma cell_of_ne (x : Raised h {r} h') (other : s ≠ r) : h'.cell? s = h.cell? s := by
  rw [x.cell, Multiset.count_singleton, if_neg other]
  exact congrFun Option.map_id (h.cell? s)

lemma strong_of_ne (x : Raised h {r} h') (other : s ≠ r) : h'.strong s = h.strong s := by
  rw [Heap.strong, Heap.strong, x.cell_of_ne other]

/-- One attempt more makes up for the reference. -/
lemma reduce_cons (filled : h.Filled) (x : Raised h {r} h') (attempts : Multiset Ref) (s : Ref) :
    (h'.cell? s).bind (Cell.reduce ((r ::ₘ attempts).count s)) = (h.cell? s).bind
      (Cell.reduce (attempts.count s)) := by
  by_cases named : s = r
  · obtain ⟨c, hc, held⟩ := cell?_of_strong_pos (filled.strong_pos x.valued_self)
    rw [named, x.cell, hc, Multiset.count_cons_self, Multiset.count_singleton_self, Option.map_some,
      Option.bind_some, Option.bind_some, Cell.reduce_raise held]
  · rw [x.cell_of_ne named, Multiset.count_cons_of_ne named]

/-- A reference that was taken first can be given up without loss. -/
lemma emptied_cons (filled : h.Filled) (x : Raised h {r} h') (attempts : Multiset Ref) :
    h'.emptied (r ::ₘ attempts) = h.emptied attempts := by
  refine Finset.ext fun s => ?_
  rw [mem_emptied, mem_emptied]
  by_cases named : s = r
  · have counted := filled.strong_pos x.valued_self
    rw [named, x.strong_self, Multiset.count_cons_self]
    omega
  · rw [x.strong_of_ne named, Multiset.count_cons_of_ne named]

/-- Closed cells stay closed if the reference is given up as well. -/
lemma closed_add (filled : h.Filled) (x : Raised h {r} h') (closed : h.Closed vs E) :
    h'.Closed (vs + {.fiber r}) E := by
  intro s counted enough
  have nested : Value.nested (vs + {.fiber r} + h'.held E) =
      Value.nested (vs + h.held E) + {r} := by
    rw [x.held, add_right_comm, Value.nested_add]
    rfl
  rw [nested, Multiset.count_add, Multiset.count_singleton] at enough
  by_cases named : s = r
  · rw [named, x.strong_self, if_pos rfl] at enough
    rw [named]
    exact closed r (filled.strong_pos x.valued_self) (Nat.le_of_succ_le_succ enough)
  · rw [x.strong_of_ne named, if_neg named, Nat.add_zero] at enough
    rw [x.strong_of_ne named] at counted
    exact closed s counted enough

/-- Where the cell is not among closed cells, those of them that are closed with the reference are
closed without. -/
lemma closed_inter (x : Raised h {r} h') (closed : h.Closed vs D) (kept : r ∉ D)
    (closed' : h'.Closed vs E) :
    h.Closed vs (E ∩ D) := by
  intro s counted enough
  have within : ∀ {F}, E ∩ D ⊆ F → h.strong s ≤ (Value.nested (vs + h.held F)).count s :=
    fun subset =>
    enough.trans (Multiset.count_le_of_le s
      (Value.nested_mono (by gcongr; exact held_mono subset h)))
  have mem : s ∈ D := closed s counted (within Finset.inter_subset_right)
  have same := x.strong_of_ne fun named => kept (named ▸ mem)
  refine Finset.mem_inter.2 ⟨closed' s (by omega) ?_, mem⟩
  rw [same, x.held]
  exact within Finset.inter_subset_left

end Raised

/-! ## References taken and given up while nothing waits -/

namespace Collapsing

/-- Only what is left counts. -/
lemma congr (x : Collapsing h vs attempts [] done [] k) (alike : Alike k k') :
    Collapsing h vs attempts [] done [] k' :=
  ⟨fun r => (alike.cell r).trans (x.cell r), alike.directory.trans x.directory,
    alike.capacity.trans x.capacity,
    alike.next.trans x.next, alike.orphans.trans x.orphans, x.spent, x.values, x.least⟩

/-- A cell that has its value at the end has references left. -/
lemma lt_of_valued (filled : h.Filled) (x : Collapsing h vs attempts [] done [] k)
    (valued : (k.get? r).isSome) :
    ∃ c, h.cell? r = some c ∧ attempts.count r < c.strong := by
  rw [Heap.get?, x.cell] at valued
  cases hc : h.cell? r with
  | none =>
    rw [hc] at valued
    cases valued
  | some c =>
    refine ⟨c, rfl, ?_⟩
    by_contra enough
    rw [hc, Option.bind_some] at valued
    by_cases held : 0 < c.strong
    · rw [Cell.reduce_of_le held (Nat.le_of_not_lt enough), Cell.value_hollow?] at valued
      cases valued
    · rw [Cell.reduce_of_unheld (Nat.eq_zero_of_not_pos held)] at valued
      exact held ((filled r c hc).1 valued)

/-- A reference that is taken at the end might as well have been taken at the start. -/
lemma retain? (filled : h.Filled) (x : Collapsing h vs attempts [] done [] k)
    (held : k.retain? r = some k') :
    ∃ h', Raised h {r} h' ∧ Collapsing h' vs attempts [] done [] k' := by
  have late := raised_retain? held
  obtain ⟨c, hc, left⟩ := x.lt_of_valued filled late.valued_self
  have counted := strong_of_cell? hc
  obtain ⟨h', held'⟩ := exists_retain? (filled.get?_isSome (r := r) (by omega))
  have early := raised_retain? held'
  have kept : r ∉ h.emptied attempts := by
    rw [mem_emptied]
    omega
  have same : h'.emptied attempts = h.emptied attempts := by
    refine Finset.ext fun s => ?_
    rw [mem_emptied, mem_emptied]
    by_cases named : s = r
    · rw [named, early.strong_self]
      omega
    · rw [early.strong_of_ne named]
  refine ⟨h', early, fun s => ?_, late.directory.trans (x.directory.trans early.directory.symm),
    late.capacity.trans (x.capacity.trans early.capacity.symm),
      late.next.trans (x.next.trans early.next.symm), ?_,
    x.spent, ?_, fun E closed => ?_⟩
  · by_cases named : s = r
    · rw [late.cell, x.cell, early.cell, named, hc, Multiset.count_singleton_self, Option.bind_some,
        Cell.reduce_of_lt left, Option.map_some, Option.map_some, Option.bind_some,
        Cell.reduce_of_lt (Nat.lt_succ_of_lt left)]
      simp only [Nat.sub_add_comm left.le]
    · rw [late.cell_of_ne named, x.cell, early.cell_of_ne named]
  · rw [late.orphans, x.orphans, early.orphans]
  · rw [same, early.held]
    exact x.values
  · -- The cell is not among those that were emptied, which are closed without the reference.
    rw [same]
    have inter := early.closed_inter (x.collapsed filled).least.1 kept closed
    exact (x.least _ inter).trans Finset.inter_subset_left

/-- One more reference is given up. -/
lemma release (filled : h.Filled) (x : Collapsing h vs attempts [] done [] k) (r : Ref) :
    ∃ attempts' done', Collapsing h (vs + {.fiber r}) attempts' [] done' [] (k.release r) := by
  obtain ⟨attempts', opened⟩ := (x.more (.fiber r)).take.decrementAll filled
  change Collapsing _ _ _ _ _ (Heap.decrementAll [r] [] (k.losing [])).1
    (Heap.decrementAll [r] [] (k.losing [])).2 at opened
  rw [losing_nil, Heap.decrementAll] at opened
  rw [Heap.release, release?]
  split
  case h_1 tried =>
    rw [tried] at opened
    exact ⟨_, _, opened⟩
  case h_2 k' tried =>
    rw [tried] at opened
    exact ⟨_, _, opened⟩
  case h_3 v k' tried =>
    rw [tried] at opened
    have enough : [v].length + k'.valued ≤ k'.size + 1 := by
      have := k'.valued_le_size
      rw [List.length_singleton]
      omega
    exact opened.settle filled _ enough

/-- A reference that is taken at the start and given up does not show. -/
lemma cancel (filled : h.Filled) (early : Raised h {r} h')
    (x : Collapsing h' (vs + {.fiber r}) attempts [] done [] k) :
    ∃ attempts' done', Collapsing h vs attempts' [] done' [] k := by
  have values := x.values
  have spent := x.spent
  rw [Multiset.coe_nil, add_zero] at values spent
  have listed : Value.fiber r ∈ done := by
    rw [← Multiset.mem_coe, values]
    exact Multiset.mem_add.2 (.inl (Multiset.mem_add.2 (.inr (Multiset.mem_singleton_self _))))
  obtain ⟨before, after, rfl⟩ := List.append_of_mem listed
  have apart : ((before ++ .fiber r :: after : List Value) : Multiset Value) =
      .fiber r ::ₘ (before ++ after : List Value) := Multiset.coe_eq_coe.2 List.perm_middle
  obtain rfl : attempts = r ::ₘ Value.nested (before ++ after : List Value) := by
    rw [spent, apart, Value.nested, Multiset.cons_bind]
    rfl
  refine ⟨_, before ++ after, fun s => ?_, x.directory.trans early.directory,
    x.capacity.trans early.capacity,
    x.next.trans early.next, ?_, add_zero _, ?_, fun E closed => ?_⟩
  · rw [x.cell, early.reduce_cons filled]
  · rw [x.orphans, early.orphans]
    simp only [Value.instances, List.filterMap_append, List.filterMap_cons, Value.instance?]
  · rw [apart, early.emptied_cons filled, early.held, add_right_comm, add_comm,
      Multiset.singleton_add] at values
    exact (add_zero _).trans ((Multiset.cons_inj_right _).1 values)
  · rw [← early.emptied_cons filled]
    exact x.least E (early.closed_add filled closed)

/-- Without a value that is given up, nothing happens. -/
lemma alike (x : Collapsing h 0 attempts [] done [] k) : Alike h k := by
  have nothing : h.emptied attempts = ∅ := by
    refine Finset.subset_empty.1 (x.least ∅ fun r counted enough => ?_)
    exact absurd (Nat.lt_of_lt_of_le counted enough) (Nat.lt_irrefl 0)
  have values := x.values
  have attempts_eq := x.attempts_eq
  rw [nothing] at values attempts_eq
  obtain rfl : attempts = 0 := attempts_eq
  obtain rfl : done = [] := (Multiset.coe_eq_zero _).1 ((add_zero _).symm.trans values)
  refine ⟨fun r => ?_, x.directory, x.capacity, x.next, x.orphans.trans (List.append_nil _)⟩
  rw [x.cell, Multiset.count_zero, funext Cell.reduce_zero, Option.bind_fun_some]

end Collapsing

/-! ## Trades -/

/-- Some references were taken and others were given up. -/
def Trades (h : Heap) (taken given : Multiset Ref) (h' : Heap) : Prop :=
  ∃ k attempts done, Raised h taken k ∧ Collapsing k (Value.handles given) attempts [] done [] h'

lemma trades_refl (h : Heap) : Trades h 0 0 h :=
  ⟨h, 0, [], raised_zero_iff.2 (alike_refl h), h.collapsing_refl⟩

namespace Trades

lemma retain? (filled : h.Filled) (x : Trades h taken given k) (held : k.retain? r = some k') :
    Trades h (r ::ₘ taken) given k' := by
  obtain ⟨l, attempts, done, raised, collapsing⟩ := x
  obtain ⟨l', early, collapsing'⟩ := collapsing.retain? (raised.filled filled) held
  have both := raised.trans early
  rw [add_comm, Multiset.singleton_add] at both
  exact ⟨l', attempts, done, both, collapsing'⟩

lemma release (filled : h.Filled) (x : Trades h taken given k) (r : Ref) :
    Trades h taken (r ::ₘ given) (k.release r) := by
  obtain ⟨l, attempts, done, raised, collapsing⟩ := x
  obtain ⟨attempts', done', released⟩ := collapsing.release (raised.filled filled) r
  refine ⟨l, attempts', done', raised, ?_⟩
  rwa [Value.handles, Multiset.map_cons, ← Multiset.singleton_add, add_comm]

/-- What is taken and given up again does not show. -/
lemma cancel (filled : h.Filled) (x : Trades h (r ::ₘ taken) (r ::ₘ given) k) :
    Trades h taken given k := by
  obtain ⟨l, attempts, done, raised, collapsing⟩ := x
  obtain ⟨l', -, lowered⟩ := raised.decrement? filled
  rw [← Multiset.singleton_add, add_comm] at raised
  have early : Raised l' {r} l := lowered.later raised
  rw [Value.handles, Multiset.map_cons, ← Multiset.singleton_add, add_comm] at collapsing
  obtain ⟨attempts', done', collapsing'⟩ := collapsing.cancel (lowered.filled filled) early
  exact ⟨l', attempts', done', lowered, collapsing'⟩

/-- A reference that was taken is given up again. -/
lemma giveBack (filled : h.Filled) (x : Trades h (r ::ₘ taken) given k) :
    Trades h taken given (k.release r) :=
  (x.release filled r).cancel filled

/-- A reference that is given away might be one that was taken for the purpose. -/
lemma handOver (filled : h.Filled) (valued : (h.get? r).isSome) : Trades h {r} {r} h := by
  obtain ⟨k, held⟩ := exists_retain? valued
  have raised := raised_retain? held
  obtain ⟨attempts, done, released⟩ := k.collapsing_refl.release (raised.filled filled) r
  rw [zero_add] at released
  have back : Alike h (k.release r) := raised_zero_iff.1 (raised.release filled)
  exact ⟨k, attempts, done, raised, released.congr back.symm⟩

/-- What is left is what is left if all references are taken before any is given up. -/
lemma collapsed (filled : h.Filled) (x : Trades h taken given h') :
    ∃ k D, Raised h taken k ∧ Collapsed k (Value.handles given) D h' := by
  obtain ⟨k, attempts, done, raised, collapsing⟩ := x
  exact ⟨k, _, raised, collapsing.collapsed (raised.filled filled)⟩

/-- Where nothing is given up, nothing is dropped. -/
lemma raised (x : Trades h taken 0 h') : Raised h taken h' := by
  obtain ⟨k, attempts, done, raised, collapsing⟩ := x
  have both := raised.trans (raised_zero_iff.2 collapsing.alike)
  rwa [add_zero] at both

end Trades

end Heap

end FiberVM
