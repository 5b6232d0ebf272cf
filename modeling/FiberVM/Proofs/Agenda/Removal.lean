import FiberVM.Proofs.Agenda.Bonds
import FiberVM.Proofs.Agenda.Lists

/-!
# Taking continuations out

An agenda names its continuations in three more places: with their fibers, with their parents and in
the lists. It is tidy if what these places name is there. Taking continuations out of a tidy agenda
is then described by the identities that are gone: each place is left without them and otherwise as
it was, in its order. Cancelling takes out exactly what descends from what is cancelled.
-/

namespace FiberVM

/-- A continuation without some of its children. -/
def Continuation.without (k : Continuation) (gone : List ContinuationId) : Continuation :=
  { k with children := k.children.filter (· ∉ gone) }

lemma Continuation.without_eq_self {k : Continuation} {gone}
    (others : ∀ id ∈ k.children, id ∉ gone) : k.without gone = k := by
  have all : k.children.filter (· ∉ gone) = k.children :=
    List.filter_eq_self.2 fun id child => decide_eq_true (others id child)
  rw [without, all]

namespace Agenda

variable {a a' a'' : Agenda} {id other top : ContinuationId} {k c : Continuation}
  {gone gone' pending : List ContinuationId} {f : FiberId}

/-- What the indexes of an agenda name is there. -/
structure Tidy (a : Agenda) : Prop where
  entry : ∀ f, a.owned.find? f ≠ some []
  owned_nodup : ∀ f, (a.ownedBy f).Nodup
  owned : ∀ {f id}, id ∈ a.ownedBy f → ∃ k, a.get? id = some k ∧ k.fiber = f
  children_nodup : ∀ {id k}, a.get? id = some k → k.children.Nodup
  children : ∀ {p k id}, a.get? p = some k → id ∈ k.children →
    ∃ c, a.get? id = some c ∧ c.parent = some p
  listed : ∀ {name l id}, (name, l) ∈ a.lists → id ∈ l.ids →
    ∃ k, a.get? id = some k ∧ k.list = name ∧ l.takes k.wake

/-! ## Single continuations -/

lemma get?_set (a : Agenda) (id : ContinuationId) (c : Continuation) (other : ContinuationId) :
    (a.set id c).get? other = if other = id ∧ (a.get? id).isSome then some c else a.get? other := by
  have found : (a.set id c).get? other =
      if other.id = id.id ∧ (a.get? id).isSome then some c else a.get? other :=
    a.continuations.get?_set id.id c other.id
  rw [found]
  exact if_congr (and_congr_left' ⟨ContinuationId.eq_of_id_eq, congrArg _⟩) rfl rfl

/-- Only the one continuation is changed. -/
lemma get?_modify (a : Agenda) (id : ContinuationId) (change : Continuation → Continuation)
    (other : ContinuationId) :
    (a.modify id change).get? other =
      if other = id then (a.get? other).map change else a.get? other := by
  by_cases same : other = id
  · subst same
    rw [if_pos rfl]
    cases found : a.get? other with
    | none =>
      rw [Agenda.modify, found]
      exact found
    | some c =>
      rw [Agenda.modify, found]
      exact (a.get?_set other (change c) other).trans (if_pos ⟨rfl, found ▸ rfl⟩)
  · rw [if_neg same]
    unfold Agenda.modify
    split
    case h_1 => rw [get?_set, if_neg fun h => same h.1]
    case h_2 => rfl

/-- Changes a continuation that need not be known. -/
def modifyParent (a : Agenda) (parent : Option ContinuationId)
    (change : Continuation → Continuation) :
    Agenda :=
  match parent with
  | some p => a.modify p change
  | none => a

/-- Only the parent is changed. -/
lemma get?_modifyParent (a : Agenda) (parent : Option ContinuationId)
    (change : Continuation → Continuation) (other : ContinuationId) :
    (a.modifyParent parent change).get? other =
      if parent = some other then (a.get? other).map change else a.get? other := by
  cases parent with
  | none => rfl
  | some p =>
    rw [modifyParent, get?_modify]
    exact if_congr ⟨fun same => same ▸ rfl, fun same => (Option.some.inj same).symm⟩ rfl rfl

lemma modify_eq (a : Agenda) (id : ContinuationId) (change : Continuation → Continuation) :
    ∃ continuations, a.modify id change = { a with continuations } ∧
      continuations.next = a.continuations.next := by
  unfold Agenda.modify
  split
  · exact ⟨_, rfl, a.continuations.next_set _ _⟩
  · exact ⟨_, rfl, rfl⟩

lemma modifyParent_eq (a : Agenda) (parent : Option ContinuationId)
    (change : Continuation → Continuation) :
    ∃ continuations, a.modifyParent parent change = { a with continuations } ∧
      continuations.next = a.continuations.next := by
  cases parent with
  | none => exact ⟨_, rfl, rfl⟩
  | some p => exact a.modify_eq p change

/-! ## What is gone -/

/-- A later agenda is an earlier one without some continuations: each place that named them is left
without them, and the rest is as it was, in its order. -/
structure Drops (gone : List ContinuationId) (a a' : Agenda) : Prop where
  next : a'.continuations.next = a.continuations.next
  tick : a'.tick = a.tick
  /-- A continuation that is left has lost at most children. -/
  get : ∀ id, a'.get? id = if id ∈ gone then none else (a.get? id).map (·.without gone)
  entry : ∀ f, a'.owned.find? f ≠ some []
  owned : ∀ f, a'.ownedBy f = (a.ownedBy f).filter (· ∉ gone)
  lists : a'.lists = a.lists.map fun x => (x.1, x.2.keep (· ∉ gone))

namespace Drops

lemma refl (tidy : a.Tidy) : Drops [] a a where
  next := rfl
  tick := rfl
  get id := by
    rw [if_neg List.not_mem_nil]
    cases a.get? id with
    | none => rfl
    | some k => rw [Option.map_some, Continuation.without_eq_self fun _ _ => List.not_mem_nil]
  entry := tidy.entry
  owned f := (List.filter_eq_self.2 fun id _ => decide_eq_true List.not_mem_nil).symm
  lists := by
    have same : ∀ l : WaitList, l.keep (· ∉ ([] : List ContinuationId)) = l := fun l =>
      WaitList.keep_eq_self fun id _ => decide_eq_true List.not_mem_nil
    simp only [same, Prod.mk.eta, List.map_id']

/-- What is left was there before. -/
lemma get_of (x : Drops gone a a') (left : a'.get? id = some k) :
    id ∉ gone ∧ ∃ c, a.get? id = some c ∧ c.without gone = k := by
  rw [x.get] at left
  split at left
  case isTrue => cases left
  case isFalse stays => exact ⟨stays, Option.map_eq_some_iff.1 left⟩

lemma get_of_not_mem (x : Drops gone a a') (stays : id ∉ gone) (found : a.get? id = some k) :
    a'.get? id = some (k.without gone) := by
  rw [x.get, if_neg stays, found]
  rfl

lemma mem_children_without {k : Continuation} :
    id ∈ (k.without gone).children ↔ id ∈ k.children ∧ id ∉ gone := by
  rw [Continuation.without, List.mem_filter, decide_eq_true_iff]

private lemma stays_append (gone gone' : List ContinuationId) :
    (fun id => decide (id ∉ gone') && decide (id ∉ gone)) = fun id =>
      decide (id ∉ gone ++ gone') := by
  funext id
  rw [← Bool.decide_and]
  exact decide_eq_decide.2 (by rw [List.mem_append, not_or, and_comm])

private lemma without_without (k : Continuation) (gone gone' : List ContinuationId) :
    (k.without gone).without gone' = k.without (gone ++ gone') := by
  simp only [Continuation.without, List.filter_filter, stays_append]

lemma trans (x : Drops gone a a') (y : Drops gone' a' a'') : Drops (gone ++ gone') a a'' where
  next := y.next.trans x.next
  tick := y.tick.trans x.tick
  get id := by
    by_cases first : id ∈ gone
    · rw [y.get, x.get, if_pos first, if_pos (List.mem_append_left _ first)]
      exact ite_self none
    · by_cases later : id ∈ gone'
      · rw [y.get, if_pos later, if_pos (List.mem_append_right _ later)]
      · have stays : id ∉ gone ++ gone' := fun h => (List.mem_append.1 h).elim first later
        rw [y.get, x.get, if_neg first, if_neg later, if_neg stays, Option.map_map]
        exact congrArg (Option.map · (a.get? id)) (funext fun k => without_without k gone gone')
  entry := y.entry
  owned f := by rw [y.owned, x.owned, List.filter_filter, stays_append]
  lists := by
    rw [y.lists, x.lists, List.map_map]
    refine List.map_congr_left fun x _ => ?_
    rw [Function.comp_apply, WaitList.keep_keep, stays_append]

/-- What is left names only what is left. -/
lemma tidy (x : Drops gone a a') (tidy : a.Tidy) : a'.Tidy where
  entry := x.entry
  owned_nodup f := by
    rw [x.owned]
    exact (tidy.owned_nodup f).filter _
  owned {f id} listed := by
    rw [x.owned, List.mem_filter, decide_eq_true_iff] at listed
    obtain ⟨k, found, fiber⟩ := tidy.owned listed.1
    exact ⟨_, x.get_of_not_mem listed.2 found, fiber⟩
  children_nodup found := by
    obtain ⟨-, c, before, rfl⟩ := x.get_of found
    exact (tidy.children_nodup before).filter _
  children found child := by
    obtain ⟨-, c, before, rfl⟩ := x.get_of found
    obtain ⟨child, stays⟩ := mem_children_without.1 child
    obtain ⟨k, there, parent⟩ := tidy.children before child
    exact ⟨_, x.get_of_not_mem stays there, parent⟩
  listed list waits := by
    rw [x.lists] at list
    obtain ⟨⟨name, l⟩, before, same⟩ := List.mem_map.1 list
    cases same
    rw [WaitList.ids_keep, List.mem_filter, decide_eq_true_iff] at waits
    obtain ⟨k, there, named, takes⟩ := tidy.listed before waits.1
    refine ⟨_, x.get_of_not_mem waits.2 there, named, ?_⟩
    rw [WaitList.takes_keep]
    exact takes

end Drops

/-- The agenda that is left when a continuation is taken out. -/
private def detached (a : Agenda) (id : ContinuationId) (c : Continuation) : Agenda :=
  let erased := { a with continuations := a.continuations.erase id.id }.modifyList c.list
    (·.remove id)
  let freed := erased.modifyParent c.parent fun p =>
      { p with children := p.children.filter (· ≠ id) }
  let left := (freed.ownedBy c.fiber).filter (· ≠ id)
  { freed with
    owned := if left = [] then freed.owned.erase c.fiber else freed.owned.insert c.fiber left }

private lemma detach_eq (found : a.get? id = some c) : a.detach id = some (c, a.detached id c) := by
  rw [detach, found]
  rfl

/-- What taking a continuation out changes. -/
private lemma detached_eq (a : Agenda) (id : ContinuationId) (c : Continuation) :
    ∃ continuations, continuations.next = a.continuations.next ∧
      a.detached id c =
        { continuations
          lists := (a.modifyList c.list (·.remove id)).lists
          owned :=
            if (a.ownedBy c.fiber).filter (· ≠ id) = [] then a.owned.erase c.fiber
            else a.owned.insert c.fiber ((a.ownedBy c.fiber).filter (· ≠ id))
          tick := a.tick } := by
  obtain ⟨continuations, freed, next⟩ := modifyParent_eq
    ({ a with continuations := a.continuations.erase id.id }.modifyList c.list (·.remove id))
      c.parent
    fun p => { p with children := p.children.filter (· ≠ id) }
  refine ⟨continuations, next, ?_⟩
  rw [detached, freed]
  rfl

/-- What is left of each continuation and of the parent. -/
private lemma get?_detached (a : Agenda) (id : ContinuationId) (c : Continuation)
    (x : ContinuationId) :
    (a.detached id c).get? x =
      if c.parent = some x then
        (if x = id then none else a.get? x).map fun p =>
          { p with children := p.children.filter (· ≠ id) }
      else if x = id then none else a.get? x := by
  have erased : { a with continuations := a.continuations.erase id.id }.get? x =
      if x = id then none else a.get? x :=
    (a.continuations.get?_erase id.id x.id).trans
      (if_congr ⟨ContinuationId.eq_of_id_eq, congrArg _⟩ rfl rfl)
  rw [← erased]
  exact get?_modifyParent _ c.parent _ x

private lemma stays_singleton (id : ContinuationId) :
    (fun x => decide (x ≠ id)) = fun x => decide (x ∉ [id]) := by
  funext x
  exact decide_eq_decide.2 (by rw [List.mem_singleton])

/-- In a tidy agenda only the parent has listed the one that is taken out. -/
private lemma get_detached (tidy : a.Tidy) (found : a.get? id = some c) (x : ContinuationId) :
    (a.detached id c).get? x = if x ∈ [id] then none else (a.get? x).map (·.without [id]) := by
  rw [get?_detached]
  by_cases same : x = id
  · rw [if_pos same, if_pos (List.mem_singleton.2 same)]
    exact ite_self none
  · rw [if_neg same, if_neg fun h => same (List.mem_singleton.1 h)]
    split
    case isTrue =>
      rw [stays_singleton]
      rfl
    case isFalse orphan =>
      -- only the parent has the continuation among its children
      cases there : a.get? x with
      | none => rfl
      | some k =>
        rw [Option.map_some, Continuation.without_eq_self]
        intro child listed gone
        rw [List.mem_singleton.1 gone] at listed
        obtain ⟨k', found', parent⟩ := tidy.children there listed
        rw [found] at found'
        cases found'
        exact absurd parent orphan

/-- The fiber no longer lists the one that is taken out. -/
private lemma owned_detached (tidy : a.Tidy) (found : a.get? id = some c) (f : FiberId) :
    (a.detached id c).owned.find? f ≠ some [] ∧
      (a.detached id c).ownedBy f = (a.ownedBy f).filter (· ∉ [id]) := by
  obtain ⟨continuations, -, whole⟩ := a.detached_eq id c
  rw [ownedBy, whole, ← stays_singleton]
  by_cases same : f = c.fiber
  · subst same
    dsimp only
    split
    case isTrue none_left =>
      rw [Table.find?_erase, if_pos rfl, none_left]
      exact ⟨(Option.some_ne_none []).symm, rfl⟩
    case isFalse some_left =>
      rw [Table.find?_insert, if_pos rfl]
      exact ⟨fun none_left => some_left (Option.some.inj none_left), rfl⟩
  · have others : (a.ownedBy f).filter (· ≠ id) = a.ownedBy f := by
      refine List.filter_eq_self.2 fun x listed => decide_eq_true fun gone => ?_
      rw [gone] at listed
      obtain ⟨k, there, fiber⟩ := tidy.owned listed
      rw [found] at there
      cases there
      exact same fiber.symm
    rw [others]
    dsimp only
    split
    · rw [Table.find?_erase, if_neg same]
      exact ⟨tidy.entry f, rfl⟩
    · rw [Table.find?_insert, if_neg same]
      exact ⟨tidy.entry f, rfl⟩

/-- No list holds the one that is taken out. -/
private lemma lists_detached (tidy : a.Tidy) (found : a.get? id = some c) :
    (a.detached id c).lists = a.lists.map fun x => (x.1, x.2.keep (· ∉ [id])) := by
  obtain ⟨continuations, -, whole⟩ := a.detached_eq id c
  rw [whole, ← stays_singleton]
  dsimp only
  rw [lists_modifyList]
  refine List.map_congr_left fun x listed => ?_
  by_cases same : x.1 = c.list
  · rw [if_pos same, WaitList.remove_eq_keep]
  · rw [if_neg same, WaitList.keep_eq_self]
    intro y waits
    refine decide_eq_true fun gone => ?_
    rw [gone] at waits
    obtain ⟨k, there, named, -⟩ := tidy.listed listed waits
    rw [found] at there
    cases there
    exact same named.symm

/-- Taking out a continuation leaves a tidy agenda without it. -/
lemma drops_detach (tidy : a.Tidy) (found : a.get? id = some c) :
    ∃ a', a.detach id = some (c, a') ∧ Drops [id] a a' := by
  obtain ⟨continuations, next, whole⟩ := a.detached_eq id c
  refine ⟨_, detach_eq found, ?_, ?_, get_detached tidy found, fun f =>
    (owned_detached tidy found f).1,
    fun f => (owned_detached tidy found f).2, lists_detached tidy found⟩
  · rw [whole]
    exact next
  · rw [whole]

/-! ## Descendants -/

/-- A continuation is a child of another one. -/
def Child (a : Agenda) (p id : ContinuationId) : Prop := ∃ k, a.get? p = some k ∧ id ∈ k.children

/-- A continuation is another one or was registered beneath it. -/
def Descends (a : Agenda) : ContinuationId → ContinuationId → Prop := Relation.ReflTransGen a.Child

/-- A continuation is there and descends from one of some. -/
def Beneath (a : Agenda) (tops : List ContinuationId) (id : ContinuationId) : Prop :=
  (a.get? id).isSome ∧ ∃ top ∈ tops, a.Descends top id

/-- Nothing else descends from what is not there. -/
lemma Descends.eq_of_gone (path : a.Descends top id) (gone : a.get? top = none) : id = top := by
  rcases Relation.ReflTransGen.cases_head path with same | ⟨child, ⟨k, there, -⟩, -⟩
  · exact same.symm
  · rw [gone] at there
    cases there

lemma Drops.child (x : Drops gone a a') (child : a'.Child top id) : a.Child top id := by
  obtain ⟨k, left, listed⟩ := child
  obtain ⟨-, c, there, rfl⟩ := x.get_of left
  exact ⟨c, there, (mem_children_without.1 listed).1⟩

lemma Drops.child_of_not_mem (x : Drops gone a a') (child : a.Child top id) (stays : top ∉ gone)
    (stays' : id ∉ gone) : a'.Child top id := by
  obtain ⟨k, there, listed⟩ := child
  exact ⟨_, x.get_of_not_mem stays there, mem_children_without.2 ⟨listed, stays'⟩⟩

lemma Drops.descends (x : Drops gone a a') (path : a'.Descends top id) : a.Descends top id :=
  Relation.ReflTransGen.mono (fun _ _ child => x.child child) top id path

lemma Drops.isSome_iff (x : Drops gone a a') :
    (a'.get? id).isSome ↔ (a.get? id).isSome ∧ id ∉ gone := by
  rw [x.get]
  split
  case isTrue lost => simp [lost]
  case isFalse stays => simp [stays]

/-! ## Cancelling -/

/-- Of pending continuations none is there, or there is a first one. -/
private lemma pending_cases (a : Agenda) (pending : List ContinuationId) :
    (∀ id ∈ pending, a.get? id = none) ∧ pending.dropWhile (fun id => (a.get? id).isNone) = [] ∨
      ∃ dead id c rest, pending = dead ++ id :: rest ∧ (∀ x ∈ dead, a.get? x = none) ∧
        a.get? id = some c ∧ pending.dropWhile (fun id => (a.get? id).isNone) = id :: rest := by
  induction pending with
  | nil => exact .inl ⟨fun _ h => absurd h List.not_mem_nil, rfl⟩
  | cons first rest ih =>
    cases there : a.get? first with
    | some c =>
      refine .inr ⟨[], first, c, rest, rfl, fun _ h => absurd h List.not_mem_nil, there, ?_⟩
      rw [List.dropWhile_cons, there]
      rfl
    | none =>
      have skip : (first :: rest).dropWhile (fun id => (a.get? id).isNone) =
          rest.dropWhile (fun id => (a.get? id).isNone) := by
        rw [List.dropWhile_cons, there]
        rfl
      rw [skip]
      rcases ih with ⟨dead, dropped⟩ | ⟨dead, id, c, later, split, skipped, found, dropped⟩
      · exact .inl ⟨List.forall_mem_cons.2 ⟨there, dead⟩, dropped⟩
      · refine .inr ⟨first :: dead, id, c, later, ?_, List.forall_mem_cons.2 ⟨there, skipped⟩,
          found, dropped⟩
        rw [split, List.cons_append]

private lemma cancelAll_nil {fuel}
    (skipped : pending.dropWhile (fun id => (a.get? id).isNone) = []) :
    cancelAll fuel pending a = ([], a) := by
  unfold cancelAll
  rw [skipped]
  cases fuel <;> rfl

private lemma cancelAll_succ {fuel rest}
    (first : pending.dropWhile (fun id => (a.get? id).isNone) = id :: rest)
    (detached : a.detach id = some (c, a')) :
    (cancelAll (fuel + 1) pending a).2 = (cancelAll fuel (c.children.reverse ++ rest) a').2 := by
  conv_lhs => unfold cancelAll
  rw [first]
  simp only [detached]

/-- A path that leads past a continuation that is taken out begins anew at one of its children. -/
private lemma Drops.descends_or (x : Drops [id] a a') (found : a.get? id = some c)
    (path : a.Descends top other) (differ : other ≠ id) :
    a'.Descends top other ∨ ∃ child ∈ c.children, a'.Descends child other := by
  have gone : a'.get? id = none := by rw [x.get, if_pos (List.mem_singleton_self id)]
  induction path using Relation.ReflTransGen.head_induction_on with
  | refl => exact .inl .refl
  | @head top next step _ ih =>
    rcases ih with direct | beneath
    · have next_ne : next ≠ id := by
        intro same
        rw [same] at direct
        exact differ (direct.eq_of_gone gone)
      by_cases same : top = id
      · obtain ⟨k, there, listed⟩ := step
        rw [same, found] at there
        cases there
        exact .inr ⟨next, listed, direct⟩
      · have step' := x.child_of_not_mem step (fun h => same (List.mem_singleton.1 h))
          fun h => next_ne (List.mem_singleton.1 h)
        exact .inl (.head step' direct)
    · exact .inr beneath

/-- What is beneath the pending continuations is the first one that is there, and what is beneath
its children and the others afterwards. -/
private lemma Drops.beneath_iff {dead rest} (x : Drops [id] a a') (found : a.get? id = some c)
    (skipped : ∀ x ∈ dead, a.get? x = none) :
    a.Beneath (dead ++ id :: rest) other ↔
      other = id ∨ a'.Beneath (c.children.reverse ++ rest) other := by
  have gone : a'.get? id = none := by rw [x.get, if_pos (List.mem_singleton_self id)]
  constructor
  · rintro ⟨there, top, listed, path⟩
    by_cases same : other = id
    · exact .inl same
    · have there' : (a'.get? other).isSome :=
        x.isSome_iff.2 ⟨there, fun h => same (List.mem_singleton.1 h)⟩
      rcases x.descends_or found path same with direct | ⟨child, listed', beneath⟩
      · rcases List.mem_append.1 listed with early | late
        · rw [path.eq_of_gone (skipped top early), skipped top early] at there
          cases there
        · rcases List.mem_cons.1 late with first | late
          · rw [first] at direct
            exact absurd (direct.eq_of_gone gone) same
          · exact .inr ⟨there', top, List.mem_append_right _ late, direct⟩
      · exact .inr ⟨there', child, List.mem_append_left _ (List.mem_reverse.2 listed'), beneath⟩
  · rintro (same | ⟨there, top, listed, path⟩)
    · rw [same]
      exact ⟨found ▸ rfl, id, List.mem_append_right _ List.mem_cons_self, .refl⟩
    · refine ⟨(x.isSome_iff.1 there).1, ?_⟩
      rcases List.mem_append.1 listed with child | late
      · exact ⟨id, List.mem_append_right _ List.mem_cons_self,
          .head ⟨c, found, List.mem_reverse.1 child⟩ (x.descends path)⟩
      · exact ⟨top, List.mem_append_right _ (List.mem_cons_of_mem _ late), x.descends path⟩

private lemma get?_of_card_cells (none_left : a.cells.card = 0) (id : ContinuationId) :
    a.get? id = none := by
  cases there : a.get? id with
  | none => rfl
  | some k =>
    have held := mem_cells (bond?_of_get? there)
    rw [Multiset.card_eq_zero.1 none_left] at held
    cases held

private lemma not_beneath (dead : ∀ id ∈ pending, a.get? id = none) : ¬ a.Beneath pending id := by
  rintro ⟨there, top, listed, path⟩
  rw [path.eq_of_gone (dead top listed), dead top listed] at there
  cases there

/-- Cancelling takes out what is beneath the pending continuations, if it may take out so many. -/
lemma drops_cancelAll (fuel : Nat) (tidy : a.Tidy) (enough : a.cells.card ≤ fuel)
    (pending : List ContinuationId) :
    ∃ gone, Drops gone a (cancelAll fuel pending a).2 ∧ ∀ id, id ∈ gone ↔ a.Beneath pending id := by
  induction fuel generalizing a pending with
  | zero =>
    have dead := fun id (_ : id ∈ pending) => get?_of_card_cells (Nat.le_zero.1 enough) id
    have left : (cancelAll 0 pending a).2 = a := by
      unfold cancelAll
      rfl
    rw [left]
    exact ⟨[], .refl tidy, fun id => ⟨fun h => absurd h List.not_mem_nil,
      fun h => absurd h (not_beneath dead)⟩⟩
  | succ fuel ih =>
    obtain ⟨dead, none_first⟩ | ⟨dead, id, c, rest, split, skipped, found, first⟩ :=
      a.pending_cases pending
    · rw [cancelAll_nil none_first]
      exact ⟨[], .refl tidy, fun id => ⟨fun h => absurd h List.not_mem_nil,
        fun h => absurd h (not_beneath dead)⟩⟩
    · obtain ⟨a', detached, dropped⟩ := drops_detach tidy found
      have fewer : a'.cells.card ≤ fuel := by
        have counted := congrArg Multiset.card (sheds_detach detached).1.cells
        rw [Multiset.card_add, Multiset.card_singleton] at counted
        omega
      obtain ⟨gone, later, exactly⟩ := ih (dropped.tidy tidy) fewer (c.children.reverse ++ rest)
      rw [cancelAll_succ first detached]
      refine ⟨[id] ++ gone, dropped.trans later, fun other => ?_⟩
      rw [split, dropped.beneath_iff found skipped, List.mem_append, List.mem_singleton, exactly]

/-- Every continuation holds one reference. -/
lemma card_cells (a : Agenda) : a.cells.card = a.size := by
  have length_eq : a.continuations.toList.length = a.size := Std.TreeMap.length_toList
  rw [cells, Arena.total, ← length_eq]
  generalize a.continuations.toList = entries
  induction entries with
  | nil => rfl
  | cons first rest ih =>
    rw [List.map_cons, List.sum_cons, Multiset.card_add, ih, Multiset.card_singleton,
      List.length_cons, Nat.add_comm]

/-- Cancelling a continuation takes out what is beneath it. -/
lemma drops_cancel (tidy : a.Tidy) (id : ContinuationId) :
    ∃ gone, Drops gone a (a.cancel id).2 ∧ ∀ x, x ∈ gone ↔ a.Beneath [id] x :=
  drops_cancelAll a.size tidy (Nat.le_of_eq a.card_cells) [id]

/-- If all that descends from what is gone is gone as well, the other paths are left. -/
private lemma Drops.descends_of_closed (x : Drops gone a a')
    (closed : ∀ x ∈ gone, a.Descends x other → other ∈ gone) (stays : other ∉ gone)
    (path : a.Descends top other) : a'.Descends top other := by
  induction path using Relation.ReflTransGen.head_induction_on with
  | refl => exact .refl
  | @head top next step rest ih =>
    have top_stays : top ∉ gone := fun lost => stays (closed top lost (.head step rest))
    have next_stays : next ∉ gone := fun lost => stays (closed next lost rest)
    exact .head (x.child_of_not_mem step top_stays next_stays) ih

/-- What is beneath some continuations is what is beneath the first one, and what is beneath the
others afterwards. -/
private lemma Drops.beneath_cons_iff {rest} (x : Drops gone a a')
    (exactly : ∀ x, x ∈ gone ↔ a.Beneath [id] x) :
    a.Beneath (id :: rest) other ↔ other ∈ gone ∨ a'.Beneath rest other := by
  constructor
  · rintro ⟨there, top, listed, path⟩
    by_cases lost : other ∈ gone
    · exact .inl lost
    · rcases List.mem_cons.1 listed with rfl | late
      · exact absurd ((exactly other).2 ⟨there, top, List.mem_cons_self, path⟩) lost
      · have closed : ∀ y ∈ gone, a.Descends y other → other ∈ gone := by
          intro y lost' onward
          obtain ⟨-, top', listed', path'⟩ := (exactly y).1 lost'
          exact (exactly other).2 ⟨there, top', listed', path'.trans onward⟩
        exact .inr ⟨x.isSome_iff.2 ⟨there, lost⟩, top, late, x.descends_of_closed closed lost path⟩
  · rintro (lost | ⟨there, top, listed, path⟩)
    · obtain ⟨there, top, listed, path⟩ := (exactly other).1 lost
      exact ⟨there, top, List.mem_cons.2 (.inl (List.mem_singleton.1 listed)), path⟩
    · exact ⟨(x.isSome_iff.1 there).1, top, List.mem_cons_of_mem _ listed, x.descends path⟩

/-- What is cancelled in turn is all that is beneath. -/
lemma drops_cancelEach (tidy : a.Tidy) (ids : List ContinuationId) :
    ∃ gone, Drops gone a (cancelEach ids a).2 ∧ ∀ x, x ∈ gone ↔ a.Beneath ids x := by
  induction ids generalizing a with
  | nil =>
    refine ⟨[], .refl tidy, fun x => ⟨fun h => absurd h List.not_mem_nil, ?_⟩⟩
    rintro ⟨-, top, listed, -⟩
    exact absurd listed List.not_mem_nil
  | cons id rest ih =>
    obtain ⟨gone, dropped, exactly⟩ := drops_cancel tidy id
    obtain ⟨gone', later, exactly'⟩ := ih (dropped.tidy tidy)
    refine ⟨gone ++ gone', dropped.trans later, fun x => ?_⟩
    rw [List.mem_append, exactly', dropped.beneath_cons_iff exactly]

private lemma ownedBy_forget (a : Agenda) (f g : FiberId) :
    { a with owned := a.owned.erase f }.ownedBy g = if g = f then [] else a.ownedBy g := by
  rw [ownedBy, Table.find?_erase]
  split <;> rfl

/-- A tidy agenda stays so if it forgets what belongs to a fiber. -/
lemma Tidy.forget (tidy : a.Tidy) (f : FiberId) : { a with owned := a.owned.erase f }.Tidy := by
  refine ⟨fun g => ?_, fun g => ?_, fun {g id} listed => ?_, tidy.children_nodup, tidy.children,
    tidy.listed⟩
  · rw [Table.find?_erase]
    split
    · exact (Option.some_ne_none []).symm
    · exact tidy.entry g
  · rw [ownedBy_forget]
    split
    · exact List.nodup_nil
    · exact tidy.owned_nodup g
  · rw [ownedBy_forget] at listed
    split at listed
    · exact absurd listed List.not_mem_nil
    · exact tidy.owned listed

/-- Cancelling the continuations of a fiber, in whichever order, takes out what is beneath them. -/
lemma drops_cancelOwned (tidy : a.Tidy) (f : FiberId) {ids}
    (owned : ∀ x, x ∈ ids ↔ x ∈ a.ownedBy f) :
    ∃ gone, Drops gone a (cancelEach ids { a with owned := a.owned.erase f }).2 ∧
      ∀ x, x ∈ gone ↔ a.Beneath (a.ownedBy f) x := by
  obtain ⟨gone, dropped, beneath⟩ := drops_cancelEach (tidy.forget f) ids
  have exactly : ∀ x, x ∈ gone ↔ a.Beneath (a.ownedBy f) x := by
    intro x
    rw [beneath]
    exact and_congr_right fun _ => exists_congr fun top => and_congr_left fun _ => owned top
  refine ⟨gone, ⟨dropped.next, dropped.tick, dropped.get, dropped.entry, fun g =>
    ?_, dropped.lists⟩, exactly⟩
  have left := dropped.owned g
  rw [ownedBy_forget] at left
  rw [left]
  split
  case isTrue same =>
    -- each continuation of the fiber was there, so it is gone
    subst same
    refine (List.filter_eq_nil_iff.2 fun x listed => ?_).symm
    obtain ⟨k, there, -⟩ := tidy.owned listed
    have lost : x ∈ gone := (exactly x).2 ⟨there ▸ rfl, x, listed, .refl⟩
    exact fun stays => of_decide_eq_true stays lost
  case isFalse => rfl

/-- Cancelling the continuations of a fiber takes out what is beneath them. -/
lemma drops_cancelFiber (tidy : a.Tidy) (f : FiberId) :
    ∃ gone, Drops gone a (a.cancelFiber f).2 ∧ ∀ x, x ∈ gone ↔ a.Beneath (a.ownedBy f) x :=
  drops_cancelOwned tidy f fun _ => Iff.rfl

end Agenda

end FiberVM
