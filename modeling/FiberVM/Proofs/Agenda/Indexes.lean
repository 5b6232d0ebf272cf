import FiberVM.Proofs.Agenda.Removal

/-!
# The indexes of the agenda

Every call keeps an agenda tidy, whatever its arguments are: what the fibers, the parents and the
lists name is there. If the parents that calls name were issued before, the converse holds as well,
so that the indexes name exactly the continuations that are there (`indexes_exact`).
-/

namespace FiberVM

namespace Continuation

variable {k : Continuation} {id self child : ContinuationId} {parent : Option ContinuationId}

/-- A continuation with one more child, if it is the parent that the child names. -/
def adopt (k : Continuation) (self : ContinuationId) (parent : Option ContinuationId)
    (child : ContinuationId) : Continuation :=
  { k with children := if parent = some self then k.children ++ [child] else k.children }

lemma mem_children_adopt :
    id ∈ (k.adopt self parent child).children ↔ id ∈ k.children ∨ id = child ∧
      parent = some self := by
  unfold adopt
  dsimp only
  split
  case isTrue named => rw [List.mem_append, List.mem_singleton, and_iff_left named]
  case isFalse other => rw [or_iff_left fun new => other new.2]

lemma nodup_children_adopt (nodup : k.children.Nodup) (new : child ∉ k.children) :
    (k.adopt self parent child).children.Nodup := by
  unfold adopt
  dsimp only
  split
  · exact nodup.append (List.nodup_singleton _) (List.disjoint_singleton.2 new)
  · exact nodup

end Continuation

namespace Agenda

variable {a a' : Agenda} {id p x : ContinuationId} {k c : Continuation} {f : FiberId}

/-- Whatever has a parent that is there is one of its children, and is younger. -/
structure Linked (a : Agenda) : Prop where
  /-- Parents are registered first. -/
  older : ∀ {id k p}, a.get? id = some k → k.parent = some p → p.id < id.id
  /-- A parent knows its children. -/
  child : ∀ {id k p c}, a.get? id = some k → k.parent = some p → a.get? p = some c → id ∈ c.children

/-! ## Lists -/

/-- An agenda stays tidy if its lists lose entries. -/
lemma Tidy.relist (tidy : a.Tidy) {lists tick}
    (old : ∀ {name l id}, (name, l) ∈ lists → id ∈ l.ids → ∃ l₀, (name, l₀) ∈ a.lists ∧
      id ∈ l₀.ids ∧ l₀.takes = l.takes) :
    { a with lists, tick }.Tidy where
  entry := tidy.entry
  owned_nodup := tidy.owned_nodup
  owned := tidy.owned
  children_nodup := tidy.children_nodup
  children := tidy.children
  listed list waits := by
    obtain ⟨l₀, before, waited, kind⟩ := old list waits
    rw [← kind]
    exact tidy.listed before waited

lemma Tidy.addList (tidy : a.Tidy) (name : String) {list : WaitList} (empty : list.size = 0) :
    (a.addList name list).Tidy := by
  refine tidy.relist fun {n l id} listed waits => ?_
  rcases mem_putList listed with new | old
  · cases new
    rw [WaitList.ids_eq_nil empty] at waits
    exact absurd waits List.not_mem_nil
  · exact ⟨l, old, waits, rfl⟩

/-- Posting changes the list of the event. -/
lemma post_cases {list event} (posted : a.post list event = .ok a') :
    ∃ l l', a.list? list = some l ∧ l.post? event = some l' ∧ a' = a.modifyList list fun _ =>
      l' := by
  unfold Agenda.post at posted
  split at posted
  case h_1 => cases posted
  case h_2 l found =>
    split at posted
    case h_1 => cases posted
    case h_2 l' posted' => exact ⟨l, l', found, posted', (Except.ok.inj posted).symm⟩

/-- An event leaves an agenda tidy. -/
lemma Tidy.post {list event} (tidy : a.Tidy) (posted : a.post list event = .ok a') :
    a'.Tidy := by
  obtain ⟨l, l', found, posted', rfl⟩ := post_cases posted
  refine tidy.relist fun {n l₁ id} listed waits => ?_
  obtain ⟨⟨n₀, l₀⟩, before, same⟩ := List.mem_map.1 listed
  dsimp only at same
  split at same
  case isTrue named =>
    cases same
    subst named
    rw [WaitList.ids_post? posted'] at waits
    exact ⟨l, mem_lists found, waits, (WaitList.takes_post? posted').symm⟩
  case isFalse =>
    cases same
    exact ⟨l₁, before, waits, rfl⟩

lemma takeReady_eq (a : Agenda) (now : Binary64) :
    a.takeReady now =
      (a.lists.flatMap fun x => (x.2.takeReady now (a.tick + 1)).1,
        { a with
          lists := a.lists.map fun x => (x.1, (x.2.takeReady now (a.tick + 1)).2)
          tick := a.tick + 1 }) := by
  have taken := takeReadyFrom_eq now (a.tick + 1) a.lists
  simp only [Agenda.takeReady, taken]

lemma Tidy.takeReady (tidy : a.Tidy) (now : Binary64) : (a.takeReady now).2.Tidy := by
  rw [takeReady_eq]
  refine tidy.relist fun {n l id} listed waits => ?_
  obtain ⟨⟨n₀, l₀⟩, before, same⟩ := List.mem_map.1 listed
  cases same
  have waited : id ∈ l₀.ids :=
    (l₀.ids_takeReady now (a.tick + 1)).mem_iff.1 (List.mem_append_right _ waits)
  exact ⟨l₀, before, waited, (l₀.takes_takeReady now (a.tick + 1)).symm⟩

/-- What is due is there. -/
lemma Tidy.ready {now} (tidy : a.Tidy) (ready : id ∈ (a.takeReady now).1) :
    ∃ k, a.get? id = some k := by
  rw [takeReady_eq] at ready
  obtain ⟨⟨name, l⟩, listed, ready'⟩ := List.mem_flatMap.1 ready
  have waited : id ∈ l.ids :=
    (l.ids_takeReady now (a.tick + 1)).mem_iff.1 (List.mem_append_left _ ready')
  obtain ⟨k, found, -⟩ := tidy.listed listed waited
  exact ⟨k, found⟩

/-- Links are between continuations, whatever else an agenda holds. -/
lemma Linked.of_get? (linked : a.Linked) (same : ∀ id, a'.get? id = a.get? id) : a'.Linked where
  older found parent := by
    rw [same] at found
    exact linked.older found parent
  child found parent there := by
    rw [same] at found there
    exact linked.child found parent there

/-- Links outlast the loss of continuations. -/
lemma Linked.drops {gone} (linked : a.Linked) (x : Drops gone a a') :
    a'.Linked where
  older found parent := by
    obtain ⟨-, k, before, rfl⟩ := x.get_of found
    exact linked.older before parent
  child found parent there := by
    obtain ⟨stays, k, before, rfl⟩ := x.get_of found
    obtain ⟨-, c, before', rfl⟩ := x.get_of there
    exact Drops.mem_children_without.2 ⟨linked.child before parent before', stays⟩

/-! ## Registering -/

/-- The identity that is issued next. -/
def issue (a : Agenda) : ContinuationId := ⟨a.continuations.next⟩

lemma get?_issue (a : Agenda) :
    a.get? a.issue = none := a.continuations.get?_of_next_le (Nat.le_refl _)

lemma ne_issue (found : a.get? x = some k) : x ≠ a.issue := by
  rintro rfl
  rw [get?_issue] at found
  cases found

/-- A continuation in its list and known to its parent. -/
private def linking (a : Agenda) (c : Continuation) : Agenda :=
  let listed := { a with continuations := a.continuations.insert c }.modifyList c.list
    (·.insert a.issue c.wake)
  listed.modifyParent c.parent fun p => { p with children := p.children ++ [a.issue] }

/-- What an insertion changes. -/
private lemma insert_eq (a : Agenda) (c : Continuation) :
    ∃ continuations, continuations.next = a.continuations.next + 1 ∧
      (a.insert c).2 =
        { continuations
          lists := (a.modifyList c.list (·.insert a.issue c.wake)).lists
          owned := a.owned.insert c.fiber (a.ownedBy c.fiber ++ [a.issue])
          tick := a.tick } := by
  obtain ⟨continuations, linked, next⟩ := modifyParent_eq
    ({ a with continuations := a.continuations.insert c }.modifyList c.list
      (·.insert a.issue c.wake))
    c.parent fun p => { p with children := p.children ++ [a.issue] }
  refine ⟨continuations, next, ?_⟩
  have whole : (a.insert c).2 =
      { a.linking c with
        owned := (a.linking c).owned.insert c.fiber
          ((a.linking c).ownedBy c.fiber ++ [a.issue]) } := rfl
  rw [whole, linking, linked]
  rfl

/-- A new continuation is there, and its parent has one child more. -/
lemma get?_insert (a : Agenda) (c : Continuation) (x : ContinuationId) :
    (a.insert c).2.get? x =
      (if x = a.issue then some c else a.get? x).map (·.adopt x c.parent a.issue) := by
  have added : { a with continuations := a.continuations.insert c }.get? x =
      if x = a.issue then some c else a.get? x :=
    (a.continuations.get?_insert c x.id).trans
      (if_congr ⟨fun same => ContinuationId.eq_of_id_eq same, congrArg _⟩ rfl rfl)
  rw [← added]
  have linked : (a.insert c).2.get? x = if c.parent = some x then
      ({ a with continuations := a.continuations.insert c }.get? x).map fun p : Continuation =>
        { p with children := p.children ++ [a.issue] }
      else { a with continuations := a.continuations.insert c }.get? x :=
    get?_modifyParent _ c.parent _ x
  rw [linked]
  unfold Continuation.adopt
  split
  · rfl
  · exact Option.map_id'.symm

lemma lists_insert (a : Agenda) (c : Continuation) :
    (a.insert c).2.lists =
      a.lists.map fun x => (x.1, WaitList.insertInto c.list a.issue c.wake x.1 x.2) := by
  obtain ⟨continuations, -, whole⟩ := a.insert_eq c
  rw [whole]
  exact a.lists_insertInto c.list a.issue c.wake

lemma next_insert (a : Agenda) (c : Continuation) :
    (a.insert c).2.continuations.next = a.continuations.next + 1 := by
  obtain ⟨continuations, next, whole⟩ := a.insert_eq c
  rw [whole]
  exact next

lemma tick_insert (a : Agenda) (c : Continuation) : (a.insert c).2.tick = a.tick := by
  obtain ⟨continuations, -, whole⟩ := a.insert_eq c
  rw [whole]

private lemma find?_insert (a : Agenda) (c : Continuation) (f : FiberId) :
    (a.insert c).2.owned.find? f =
      if f = c.fiber then some (a.ownedBy f ++ [a.issue]) else a.owned.find? f := by
  obtain ⟨continuations, -, whole⟩ := a.insert_eq c
  rw [whole, Table.find?_insert]
  split
  case isTrue same => rw [same]
  case isFalse => rfl

private lemma ownedBy_insert (a : Agenda) (c : Continuation) (f : FiberId) :
    (a.insert c).2.ownedBy f = if f = c.fiber then a.ownedBy f ++ [a.issue] else a.ownedBy f := by
  rw [ownedBy, find?_insert]
  split <;> rfl

private lemma mem_ownedBy_insert :
    id ∈ (a.insert c).2.ownedBy f ↔ id ∈ a.ownedBy f ∨ id = a.issue ∧ f = c.fiber := by
  rw [ownedBy_insert]
  by_cases same : f = c.fiber
  · rw [if_pos same, List.mem_append, List.mem_singleton, and_iff_left same]
  · rw [if_neg same, or_iff_left fun new => same new.2]

/-- What is there stays, and may get a child. -/
private lemma get?_insert_of_get? (found : a.get? x = some k) (c : Continuation) :
    (a.insert c).2.get? x = some (k.adopt x c.parent a.issue) := by
  rw [get?_insert, if_neg (ne_issue found), found]
  rfl

private lemma get?_insert_issue (a : Agenda) (c : Continuation) :
    (a.insert c).2.get? a.issue = some (c.adopt a.issue c.parent a.issue) := by
  rw [get?_insert, if_pos rfl]
  rfl

/-- What is there after an insertion is the new continuation or was there before. -/
lemma get?_insert_cases (found : (a.insert c).2.get? x = some k) :
    ∃ k₀, (x = a.issue ∧ k₀ = c ∨ a.get? x = some k₀) ∧ k = k₀.adopt x c.parent a.issue := by
  rw [get?_insert] at found
  obtain ⟨k₀, origin, same⟩ := Option.map_eq_some_iff.1 found
  refine ⟨k₀, ?_, same.symm⟩
  split at origin
  case isTrue new => exact .inl ⟨new, (Option.some.inj origin).symm⟩
  case isFalse => exact .inr origin

/-- An insertion leaves an agenda tidy. -/
lemma Tidy.insert (tidy : a.Tidy) (childless : c.children = []) : (a.insert c).2.Tidy := by
  have unlisted : ∀ {f}, a.issue ∉ a.ownedBy f := by
    intro f listed
    obtain ⟨k, there, -⟩ := tidy.owned listed
    exact ne_issue there rfl
  -- the children of what was there are old, and what is new has none
  have old_children : ∀ {x k}, (x = a.issue ∧ k = c ∨ a.get? x = some k) →
      k.children.Nodup ∧ ∀ id ∈ k.children, ∃ k', a.get? id = some k' ∧ k'.parent = some x := by
    rintro x k (⟨-, rfl⟩ | there)
    · rw [childless]
      exact ⟨List.nodup_nil, fun _ listed => absurd listed List.not_mem_nil⟩
    · exact ⟨tidy.children_nodup there, fun _ => tidy.children there⟩
  refine ⟨fun f => ?_, fun f => ?_, fun {f id} listed => ?_, fun {x k} found => ?_,
    fun {x k id} found child => ?_, fun {name l id} list waits => ?_⟩
  · rw [find?_insert]
    split
    · exact fun none_left => List.append_ne_nil_of_right_ne_nil _ (List.cons_ne_nil _ _)
        (Option.some.inj none_left)
    · exact tidy.entry f
  · rw [ownedBy_insert]
    split
    · exact (tidy.owned_nodup f).append (List.nodup_singleton _)
        (List.disjoint_singleton.2 unlisted)
    · exact tidy.owned_nodup f
  · rcases mem_ownedBy_insert.1 listed with old | ⟨rfl, rfl⟩
    · obtain ⟨k, there, fiber⟩ := tidy.owned old
      exact ⟨_, get?_insert_of_get? there c, fiber⟩
    · exact ⟨_, a.get?_insert_issue c, rfl⟩
  · obtain ⟨k₀, origin, rfl⟩ := get?_insert_cases found
    obtain ⟨nodup, old⟩ := old_children origin
    refine Continuation.nodup_children_adopt nodup fun listed => ?_
    obtain ⟨k', there, -⟩ := old a.issue listed
    exact ne_issue there rfl
  · obtain ⟨k₀, origin, rfl⟩ := get?_insert_cases found
    rcases Continuation.mem_children_adopt.1 child with listed | ⟨rfl, parent⟩
    · obtain ⟨k', there, parent⟩ := (old_children origin).2 id listed
      exact ⟨_, get?_insert_of_get? there c, parent⟩
    · exact ⟨_, a.get?_insert_issue c, parent⟩
  · rw [lists_insert] at list
    obtain ⟨⟨n, l₀⟩, before, same⟩ := List.mem_map.1 list
    cases same
    rw [WaitList.takes_insertInto]
    rcases WaitList.mem_ids_insertInto waits with old | ⟨rfl, named, takes⟩
    · obtain ⟨k, there, named, takes⟩ := tidy.listed before old
      exact ⟨_, get?_insert_of_get? there c, named, takes⟩
    · exact ⟨_, a.get?_insert_issue c, named.symm, takes⟩

/-- An insertion links a child to its parent. -/
lemma Linked.insert (linked : a.Linked)
    (issued : ∀ p, c.parent = some p → p.id < a.continuations.next) :
    (a.insert c).2.Linked := by
  refine ⟨fun {id k p} found parent => ?_, fun {id k p kp} found parent there => ?_⟩
  · obtain ⟨k₀, ⟨rfl, rfl⟩ | before, rfl⟩ := get?_insert_cases found
    · exact issued p parent
    · exact linked.older before parent
  · obtain ⟨k₀, ⟨rfl, rfl⟩ | before, rfl⟩ := get?_insert_cases found
    · obtain ⟨kp₀, -, rfl⟩ := get?_insert_cases there
      exact Continuation.mem_children_adopt.2 (.inr ⟨rfl, parent⟩)
    · obtain ⟨kp₀, ⟨rfl, -⟩ | before', rfl⟩ := get?_insert_cases there
      · -- what was there before has no parent that is only now issued
        have younger : a.continuations.next < id.id := linked.older before parent
        have none_yet := a.continuations.get?_of_next_le (Nat.le_of_lt younger)
        rw [get?, none_yet] at before
        cases before
      · exact Continuation.mem_children_adopt.2 (.inl (linked.child before parent before'))

/-! ## Settling what has fired -/

section

variable {change : ContinuationId → Continuation → Continuation}

/-- An agenda stays tidy if continuations keep their fibers and children, and children their
parents. -/
private lemma Tidy.of_map (tidy : a.Tidy) (owned : a'.owned = a.owned)
    (get : ∀ x, a'.get? x = (a.get? x).map (change x)) (fiber : ∀ x k, (change x k).fiber = k.fiber)
    (children : ∀ x k, (change x k).children = k.children)
    (parent : ∀ {p k x c}, a.get? p = some k → x ∈ k.children → a.get? x = some c →
      (change x c).parent = c.parent)
    (listed : ∀ {name l id}, (name, l) ∈ a'.lists → id ∈ l.ids → ∃ k, a.get? id = some k ∧
      (change id k).list = name ∧ l.takes (change id k).wake) :
    a'.Tidy := by
  have there : ∀ {x k}, a.get? x = some k → a'.get? x = some (change x k) := by
    intro x k found
    rw [get, found]
    rfl
  have ownedBy_eq : ∀ f, a'.ownedBy f = a.ownedBy f := fun f => by rw [ownedBy, owned, ownedBy]
  refine ⟨fun f => ?_, fun f => ?_, fun {f id} h => ?_, fun {x k} found =>
    ?_, fun {p k x} found child => ?_,
    fun {name l id} list waits => ?_⟩
  · rw [owned]
    exact tidy.entry f
  · rw [ownedBy_eq]
    exact tidy.owned_nodup f
  · rw [ownedBy_eq] at h
    obtain ⟨k, found, same⟩ := tidy.owned h
    exact ⟨_, there found, (fiber id k).trans same⟩
  · rw [get] at found
    obtain ⟨k₀, before, rfl⟩ := Option.map_eq_some_iff.1 found
    rw [children]
    exact tidy.children_nodup before
  · rw [get] at found
    obtain ⟨k₀, before, rfl⟩ := Option.map_eq_some_iff.1 found
    rw [children] at child
    obtain ⟨c, before', same⟩ := tidy.children before child
    exact ⟨_, there before', (parent before child before').trans same⟩
  · obtain ⟨k, found, named, takes⟩ := listed list waits
    exact ⟨_, there found, named, takes⟩

/-- Links stay if continuations keep their children and keep or lose their parents. -/
private lemma Linked.of_map (linked : a.Linked) (get : ∀ x, a'.get? x = (a.get? x).map (change x))
    (children : ∀ x k, (change x k).children = k.children)
    (parent : ∀ x k p, (change x k).parent = some p → k.parent = some p) : a'.Linked := by
  refine ⟨fun {x k p} found known => ?_, fun {x k p c} found known there => ?_⟩
  · rw [get] at found
    obtain ⟨k₀, before, rfl⟩ := Option.map_eq_some_iff.1 found
    exact linked.older before (parent x k₀ p known)
  · rw [get] at found there
    obtain ⟨k₀, before, rfl⟩ := Option.map_eq_some_iff.1 found
    obtain ⟨c₀, before', rfl⟩ := Option.map_eq_some_iff.1 there
    rw [children]
    exact linked.child before (parent x k₀ p known) before'

end

/-- Continuations that lose their parents. -/
def orphan (a : Agenda) (ids : List ContinuationId) : Agenda :=
  ids.foldl (fun a child => a.modify child ({ · with parent := none })) a

/-- Children that lose their parent are all that changes. -/
lemma orphan_eq (a : Agenda) (ids : List ContinuationId) :
    ∃ continuations, a.orphan ids = { a with continuations } ∧
      continuations.next = a.continuations.next := by
  induction ids generalizing a with
  | nil => exact ⟨_, rfl, rfl⟩
  | cons id rest ih =>
    obtain ⟨continuations, first, next⟩ := a.modify_eq id ({ · with parent := none })
    obtain ⟨continuations', later, next'⟩ := ih (a.modify id ({ · with parent := none }))
    refine ⟨continuations', ?_, ?_⟩
    · rw [first] at later
      rw [orphan, List.foldl_cons, first]
      exact later
    · rw [next', first]
      exact next

/-- Only the parents of the given ones are forgotten. -/
lemma get?_orphan (a : Agenda) (ids : List ContinuationId) (x : ContinuationId) :
    (a.orphan ids).get? x =
      (a.get? x).map fun k => { k with parent := if x ∈ ids then none else k.parent } := by
  induction ids generalizing a with
  | nil => exact Option.map_id'.symm
  | cons id rest ih =>
    have later := ih (a.modify id ({ · with parent := none }))
    rw [get?_modify] at later
    rw [orphan, List.foldl_cons]
    refine later.trans ?_
    by_cases same : x = id
    · subst same
      rw [if_pos rfl, Option.map_map]
      refine congrArg (Option.map · _) (funext fun k => ?_)
      simp only [Function.comp_apply, ite_self, List.mem_cons, true_or, if_true]
    · rw [if_neg same]
      simp only [List.mem_cons, same, false_or]

lemma retire_eq (tidy : a.Tidy) (found : a.get? id = some c) :
    ∃ a', Drops [id] a a' ∧ (a.retire id).2 = a'.orphan c.children := by
  obtain ⟨a', detached, dropped⟩ := drops_detach tidy found
  refine ⟨a', dropped, ?_⟩
  rw [retire, detached]
  rfl

/-- A continuation that has fired for the last time leaves its children without a parent. -/
lemma Tidy.retire (tidy : a.Tidy) (id : ContinuationId) : (a.retire id).2.Tidy := by
  cases found : a.get? id with
  | none =>
    have same : (a.retire id).2 = a := by rw [Agenda.retire, detach, found]
    rw [same]
    exact tidy
  | some c =>
    obtain ⟨a', dropped, whole⟩ := retire_eq tidy found
    obtain ⟨continuations, orphaned, -⟩ := a'.orphan_eq c.children
    have tidy' := dropped.tidy tidy
    rw [whole]
    refine tidy'.of_map (by rw [orphaned]) (a'.get?_orphan c.children) (fun _ _ => rfl)
      (fun _ _ => rfl) (fun {p k x c'} there child there' => ?_) fun {name l x} list waits => ?_
    · -- a child of what is gone is not a child of what is left
      have other : x ∉ c.children := by
        intro orphan
        obtain ⟨k₁, before, known⟩ := tidy.children found orphan
        obtain ⟨k₂, before', known'⟩ := tidy'.children there child
        obtain ⟨-, k₃, before'', rfl⟩ := dropped.get_of before'
        rw [before] at before''
        cases before''
        have same : some p = some id := known'.symm.trans known
        cases same
        exact (dropped.get_of there).1 (List.mem_singleton_self _)
      exact if_neg other
    · rw [orphaned] at list
      exact tidy'.listed list waits

/-- Links outlast a retirement. -/
lemma Linked.retire (linked : a.Linked) (tidy : a.Tidy) (id : ContinuationId) :
    (a.retire id).2.Linked := by
  cases found : a.get? id with
  | none =>
    have same : (a.retire id).2 = a := by rw [Agenda.retire, detach, found]
    rw [same]
    exact linked
  | some c =>
    obtain ⟨a', dropped, whole⟩ := retire_eq tidy found
    rw [whole]
    refine (linked.drops dropped).of_map (a'.get?_orphan c.children) (fun _ _ => rfl) ?_
    intro x k p known
    dsimp only at known
    split at known
    · cases known
    · exact known

/-- A continuation that is armed again waits for the same kind of thing. -/
lemma rearmed_eq (c : Continuation) :
    ∃ wake recurrence, rearmed c = { c with wake, recurrence } ∧
      ∀ l : WaitList, l.takes wake = l.takes c.wake := by
  obtain ⟨fiber, cell, parent, children, pc, wake, recurrence, delta, list⟩ := c
  unfold rearmed
  cases wake with
  | «at» expiry =>
    split
    · exact ⟨_, _, rfl, fun l => by cases l <;> rfl⟩
    · exact ⟨_, _, rfl, fun l => by cases l <;> rfl⟩
  | on discriminator =>
    split
    · exact ⟨_, _, rfl, fun _ => rfl⟩
    · exact ⟨_, _, rfl, fun _ => rfl⟩

/-- Arming again changes one continuation. -/
lemma get?_rearm (found : a.get? id = some c) (name : String) (change : WaitList → WaitList)
    (x : ContinuationId) :
    ((a.set id (rearmed c)).modifyList name change).get? x =
      (a.get? x).map fun k => if x = id then rearmed k else k := by
  refine (a.get?_set id (rearmed c) x).trans ?_
  by_cases same : x = id
  · subst same
    rw [found, if_pos ⟨rfl, rfl⟩]
    simp only [Option.map_some, if_true]
  · rw [if_neg fun h => same h.1]
    simp only [same, if_false, Option.map_id']

/-- Arming again leaves an agenda tidy. -/
private lemma Tidy.rearm (tidy : a.Tidy) (found : a.get? id = some c) :
    ((a.set id (rearmed c)).modifyList (rearmed c).list (·.insert id (rearmed c).wake)).Tidy := by
  have keeps : ∀ x k, ∃ wake recurrence,
      (if x = id then rearmed k else k) = { k with wake, recurrence } ∧
        ∀ l : WaitList, l.takes wake = l.takes k.wake := by
    intro x k
    split
    · exact rearmed_eq k
    · exact ⟨_, _, rfl, fun _ => rfl⟩
  have field : ∀ {α : Type} (read : Continuation → α)
      (_ : ∀ k wake recurrence, read { k with wake, recurrence } = read k) x k,
      read (if x = id then rearmed k else k) = read k := by
    intro α read other x k
    obtain ⟨wake, recurrence, whole, -⟩ := keeps x k
    rw [whole]
    exact other k wake recurrence
  refine tidy.of_map rfl (get?_rearm found _ _) (field _ fun _ _ _ => rfl) (field _ fun _ _ _ =>
    rfl)
    (fun _ _ _ => field _ (fun _ _ _ => rfl) _ _) fun {name l x} list waits => ?_
  rw [lists_insertInto] at list
  obtain ⟨⟨n, l₀⟩, before, same⟩ := List.mem_map.1 list
  cases same
  rw [WaitList.takes_insertInto]
  rcases WaitList.mem_ids_insertInto waits with old | ⟨rfl, named, takes⟩
  · obtain ⟨k, there, named, takes⟩ := tidy.listed before old
    obtain ⟨wake, recurrence, whole, same⟩ := keeps x k
    refine ⟨k, there, ?_, ?_⟩
    · rw [whole]
      exact named
    · rw [whole]
      exact (same l₀).trans takes
  · refine ⟨c, found, ?_, ?_⟩
    · rw [if_pos rfl]
      exact named.symm
    · rw [if_pos rfl]
      exact takes

/-- What is settled is retired or armed again. -/
lemma rearmOrRetire_cases {settled} (h : a.rearmOrRetire id = .ok settled) :
    ∃ c, a.get? id = some c ∧
      (settled = a.retire id ∨
        settled.2 = (a.set id (rearmed c)).modifyList (rearmed c).list
          (·.insert id (rearmed c).wake)) := by
  unfold rearmOrRetire at h
  split at h
  case h_1 => cases h
  case h_2 c found =>
    refine ⟨c, found, ?_⟩
    split at h
    · exact .inl (Except.ok.inj h).symm
    · exact .inr (Except.ok.inj h ▸ rfl)

lemma Tidy.rearmOrRetire {settled} (tidy : a.Tidy) (h : a.rearmOrRetire id = .ok settled) :
    settled.2.Tidy := by
  obtain ⟨c, found, rfl | armed⟩ := rearmOrRetire_cases h
  · exact tidy.retire id
  · rw [armed]
    exact tidy.rearm found

/-- Links outlast a settlement. -/
lemma Linked.rearmOrRetire {settled} (linked : a.Linked) (tidy : a.Tidy)
    (h : a.rearmOrRetire id = .ok settled) : settled.2.Linked := by
  obtain ⟨c, found, rfl | armed⟩ := rearmOrRetire_cases h
  · exact linked.retire tidy id
  · rw [armed]
    refine linked.of_map (get?_rearm found _ _) (fun x k => ?_) fun x k p known => ?_
    · split
      · obtain ⟨wake, recurrence, whole, -⟩ := rearmed_eq k
        rw [whole]
      · rfl
    · split at known
      · obtain ⟨wake, recurrence, whole, -⟩ := rearmed_eq k
        rw [whole] at known
        exact known
      · exact known

/-! ## Calls -/

section

variable {parent : Option ContinuationId}

/-- A call keeps an agenda tidy, whatever its arguments are. -/
lemma Effect.tidy (effect : Effect parent a a') (tidy : a.Tidy) : a'.Tidy := by
  cases effect with
  | refused => exact tidy
  | inserted k childless => exact tidy.insert childless
  | posted posted => exact tidy.post posted
  | taken now => exact tidy.takeReady now
  | settled settled => exact tidy.rearmOrRetire settled
  | cancelled id =>
    obtain ⟨gone, dropped, -⟩ := drops_cancel tidy id
    exact dropped.tidy tidy
  | ended f =>
    obtain ⟨gone, dropped, -⟩ := drops_cancelFiber tidy f
    exact dropped.tidy tidy
  | listed name empty =>
    obtain rfl | rfl := empty
    · exact tidy.addList name rfl
    · exact tidy.addList name rfl

/-- A call keeps the links, if a parent that it names was issued before. -/
private lemma Effect.linked (effect : Effect parent a a') (tidy : a.Tidy) (linked : a.Linked)
    (issued : ∀ p, parent = some p → p.id < a.continuations.next) : a'.Linked := by
  cases effect with
  | refused => exact linked
  | inserted k _ beneath => exact linked.insert fun p known => issued p (beneath.symm.trans known)
  | posted posted =>
    obtain ⟨l, l', -, -, rfl⟩ := post_cases posted
    exact linked.of_get? fun _ => rfl
  | taken now => exact linked.of_get? fun _ => rfl
  | settled settled => exact linked.rearmOrRetire tidy settled
  | cancelled id =>
    obtain ⟨gone, dropped, -⟩ := drops_cancel tidy id
    exact linked.drops dropped
  | ended f =>
    obtain ⟨gone, dropped, -⟩ := drops_cancelFiber tidy f
    exact linked.drops dropped
  | listed name => exact linked.of_get? fun _ => rfl

end

lemma Evolves.tidy (evolved : Evolves a a') (tidy : a.Tidy) : a'.Tidy :=
  evolved.keeps (fun call a tidy => (call.effect a).tidy tidy) tidy

/-! ## The indexes name what is there -/

lemma evolves_ofLists (names : List String) : Evolves {} (ofLists names) := by
  have added : ∀ a : Agenda, Evolves a (names.foldl addListeners a) := by
    induction names with
    | nil => exact .refl
    | cons name rest ih => exact fun a => (Evolves.call (.addListeners name) a).trans (ih _)
  exact (Evolves.call .addTimeline {}).trans (added _)

/-- An agenda without continuations is tidy. -/
lemma tidy_ofLists (names : List String) : (ofLists names).Tidy := by
  have nothing : ∀ {id k}, (({} : Agenda).get? id = some k) → False := by
    intro id k found
    rw [get?, Arena.get?_empty] at found
    cases found
  refine (evolves_ofLists names).tidy ⟨fun _ => (Option.some_ne_none []).symm, fun _ =>
    List.nodup_nil, ?_, ?_,
    ?_, ?_⟩
  · exact fun listed => absurd listed List.not_mem_nil
  · exact fun found => (nothing found).elim
  · exact fun found => (nothing found).elim
  · exact fun listed => absurd listed List.not_mem_nil

lemma ne_ofLists (names : List String) (id : ContinuationId) (k : Continuation) :
    (ofLists names).get? id ≠ some k := by
  rw [bond?_eq_none.1 (bond?_ofLists names id)]
  exact (Option.some_ne_none k).symm

lemma linked_ofLists (names : List String) : (ofLists names).Linked where
  older {id k _} found := absurd found (ne_ofLists names id k)
  child {id k _ _} found := absurd found (ne_ofLists names id k)

/-- A call that names as parent only what was issued before, which may be gone. -/
def Called (a a' : Agenda) : Prop :=
  ∃ call : Call, (∀ p, call.parent? = some p → p.id < a.continuations.next) ∧ call.perform a = a'

/-- One continuation is the parent of another one, and both are there. -/
def ParentOf (a : Agenda) (p id : ContinuationId) : Prop :=
  (a.get? p).isSome ∧ ∃ k, a.get? id = some k ∧ k.parent = some p

/-- The indexes of an agenda name exactly the continuations that are there. -/
structure Exact (a : Agenda) : Prop where
  /-- A fiber is listed with its continuations. -/
  owned : ∀ f id, id ∈ a.ownedBy f ↔ ∃ k, a.get? id = some k ∧ k.fiber = f
  /-- A fiber has no entry exactly if it has no continuation. -/
  absent : ∀ f, a.owned.find? f = none ↔ ∀ id k, a.get? id = some k → k.fiber ≠ f
  /-- A fiber is listed with as many continuations as it has. -/
  pending : ∀ f, (a.ownedBy f).length = (a.continuations.toList.filter (·.2.fiber = f)).length
  /-- A continuation is a child once. -/
  children_nodup : ∀ p k, a.get? p = some k → k.children.Nodup
  /-- The children of a continuation are those that have it as their parent. -/
  children : ∀ p k, a.get? p = some k → ∀ id, id ∈ k.children ↔ ∃ c, a.get? id = some c ∧
    c.parent = some p
  /-- No continuation is registered beneath itself. -/
  acyclic : ∀ id, ¬ Relation.TransGen a.ParentOf id id
  /-- What waits in a list is there, names the list, and waits for what the list is for. -/
  listed : ∀ name l id, (name, l) ∈ a.lists → id ∈ l.ids →
    ∃ k, a.get? id = some k ∧ k.list = name ∧ l.takes k.wake

private lemma mem_ownedBy_iff (tidy : a.Tidy) (known : a.Indexed) (f : FiberId)
    (id : ContinuationId) :
    id ∈ a.ownedBy f ↔ ∃ k, a.get? id = some k ∧ k.fiber = f := by
  constructor
  · exact tidy.owned
  · rintro ⟨k, found, rfl⟩
    exact known id k.fiber k.cell (bond?_of_get? found)

/-- Along parents the identities grow, so that no path comes back. -/
private lemma Linked.acyclic (linked : a.Linked) (id : ContinuationId) :
    ¬ Relation.TransGen a.ParentOf id id := by
  have younger : ∀ {x y}, Relation.TransGen a.ParentOf x y → x.id < y.id := by
    intro x y path
    induction path with
    | single step =>
      obtain ⟨-, k, found, parent⟩ := step
      exact linked.older found parent
    | tail _ step ih =>
      obtain ⟨-, k, found, parent⟩ := step
      exact ih.trans (linked.older found parent)
  exact fun path => Nat.lt_irrefl _ (younger path)

/-- A fiber is listed with as many continuations as it has. -/
private lemma length_ownedBy (tidy : a.Tidy) (known : a.Indexed) (f : FiberId) :
    (a.ownedBy f).length = (a.continuations.toList.filter (·.2.fiber = f)).length := by
  let there := (a.continuations.toList.filter (·.2.fiber = f)).map fun e => ContinuationId.mk e.1
  have nodup : there.Nodup := by
    refine List.Nodup.map_on ?_ (a.continuations.nodup_toList.filter _)
    rintro ⟨n, k⟩ hk ⟨m, k'⟩ hk' same
    cases same
    have found := Arena.mem_toList.1 (List.mem_filter.1 hk).1
    rw [Arena.mem_toList.1 (List.mem_filter.1 hk').1] at found
    cases found
    rfl
  have same : (a.ownedBy f).Perm there := by
    refine (List.perm_ext_iff_of_nodup (tidy.owned_nodup f) nodup).2 fun id => ?_
    rw [mem_ownedBy_iff tidy known, List.mem_map]
    constructor
    · rintro ⟨k, found, fiber⟩
      exact ⟨(id.id, k), List.mem_filter.2 ⟨Arena.mem_toList.2 found, decide_eq_true fiber⟩, rfl⟩
    · rintro ⟨⟨n, k⟩, listed, rfl⟩
      obtain ⟨present, fiber⟩ := List.mem_filter.1 listed
      exact ⟨k, Arena.mem_toList.1 present, of_decide_eq_true fiber⟩
  exact same.length_eq.trans (List.length_map _)

/-- Whatever is called, the indexes name exactly the continuations that are there. -/
theorem indexes_exact {names : List String} {a : Agenda}
    (called : Relation.ReflTransGen Called (ofLists names) a) : a.Exact := by
  have ok : a.Tidy ∧ a.Indexed ∧ a.Linked := by
    induction called with
    | refl => exact ⟨tidy_ofLists names, indexed_ofLists names, linked_ofLists names⟩
    | @tail a' a _ step ih =>
      obtain ⟨call, issued, rfl⟩ := step
      obtain ⟨tidy, known, linked⟩ := ih
      have effect := call.effect a'
      exact ⟨effect.tidy tidy, effect.indexed known, effect.linked tidy linked issued⟩
  obtain ⟨tidy, known, linked⟩ := ok
  have owned := mem_ownedBy_iff tidy known
  refine ⟨owned, fun f => ?_, length_ownedBy tidy known, fun _ _ => tidy.children_nodup,
    fun p k found id => ⟨tidy.children found, ?_⟩, linked.acyclic, fun _ _ _ => tidy.listed⟩
  · constructor
    · rintro absent id k found rfl
      have listed := (owned k.fiber id).2 ⟨k, found, rfl⟩
      rw [ownedBy, absent] at listed
      exact absurd listed List.not_mem_nil
    · intro nothing
      cases entry : a.owned.find? f with
      | none => rfl
      | some ids =>
        cases ids with
        | nil => exact absurd entry (tidy.entry f)
        | cons id rest =>
          have listed : id ∈ a.ownedBy f := by
            rw [ownedBy, entry]
            exact List.mem_cons_self
          obtain ⟨k, found, fiber⟩ := tidy.owned listed
          exact absurd fiber (nothing id k found)
  · rintro ⟨c, there, parent⟩
    exact linked.child there parent found

/-- Two fibers with a continuation each, of which one is registered beneath the other. -/
def parentAndChild : Agenda :=
  let first := Call.perform (.registerAt none ⟨0⟩ ⟨0⟩ .zero 1 0 .zero) (ofLists ["door"])
  Call.perform (.registerOn (some ⟨0⟩) ⟨1⟩ ⟨1⟩ "door" "open" 2 0) first

/-- A continuation of one fiber beneath one of another fiber. -/
theorem indexes_exact_parentAndChild :
    parentAndChild.ownedBy ⟨1⟩ = [⟨1⟩] ∧ parentAndChild.Exact := by
  have called : Relation.ReflTransGen Called (ofLists ["door"]) parentAndChild := by
    refine .tail (.tail .refl ⟨.registerAt none ⟨0⟩ ⟨0⟩ .zero 1 0 .zero, ?_, rfl⟩)
      ⟨.registerOn (some ⟨0⟩) ⟨1⟩ ⟨1⟩ "door" "open" 2 0, ?_, rfl⟩
    · exact fun p parent => absurd parent.symm (Option.some_ne_none p)
    · intro p parent
      cases parent
      decide +kernel
  exact ⟨by decide +kernel, indexes_exact called⟩

end Agenda

end FiberVM
