import FiberVM.Proofs.Agenda.Indexes

/-!
# Where continuations wait

A continuation that was registered waits in its list, or it is in flight: it was taken out as due
and has not been settled since. Each continuation is in one of these places, once, if its list takes
what it waits for. A list that does not take it ignores it, and nothing else takes it either: an
event is awaited in vain on the list `time`, and so is a point in time if a list for events is
called `time`.
-/

namespace FiberVM

/-- Whether the list of a continuation takes what it waits for, where the lists for events have the
given names. -/
def Continuation.Fits (k : Continuation) (names : List String) : Prop :=
  match k.wake with
  | .at _ => Agenda.timeName ∉ names
  | .on _ => k.list = Agenda.timeName → Agenda.timeName ∈ names

namespace Agenda

/-- What is asked of an agenda while continuations are in flight. Only these are settled. -/
inductive Serves : Agenda × List ContinuationId → Agenda × List ContinuationId → Prop
  | register {a flying} (call : Call) (registers : call.registers) :
    Serves (a, flying) (call.perform a, flying)
  | post {a flying} (list event : String) :
    Serves (a, flying) (Call.perform (.post list event) a, flying)
  | takeReady {a flying} (now : Binary64) :
    Serves (a, flying) ((a.takeReady now).2, flying ++ (a.takeReady now).1)
  | rearmOrRetire {a : Agenda} {flying id result} (due : id ∈ flying)
      (settled : a.rearmOrRetire id = .ok result) :
    Serves (a, flying) (result.2, flying.erase id)
  | cancel {a flying} (id : ContinuationId) :
    Serves (a, flying) ((a.cancel id).2, flying)
  | cancelFiber {a flying} (fiber : FiberId) :
    Serves (a, flying) ((a.cancelFiber fiber).2, flying)

variable {a a' : Agenda} {id x : ContinuationId} {k c : Continuation}
  {flying flying' : List ContinuationId} {names : List String} {l : WaitList}

/-- A continuation has a list, and for a point in time it is the list `time`. -/
def Homed (a : Agenda) (k : Continuation) : Prop :=
  (a.list? k.list).isSome ∧ ((WaitList.time {}).takes k.wake → k.list = timeName)

lemma Homed.congr {k₀} (homed : a.Homed k₀) (named : k.list = k₀.list)
    (takes : ∀ l : WaitList, l.takes k.wake = l.takes k₀.wake) : a.Homed k := by
  unfold Homed
  rw [named, takes]
  exact homed

/-- Each continuation waits once or is in flight once, if its list takes what it waits for. -/
structure Waits (names : List String) (a : Agenda) (flying : List ContinuationId) : Prop where
  tidy : a.Tidy
  distinct : (a.lists.map (·.1)).Nodup
  /-- The lists are of the kinds that they had at first. -/
  kind : ∀ name, (a.list? name).map WaitList.takes = ((ofLists names).list? name).map WaitList.takes
  home : ∀ {id k}, a.get? id = some k → a.Homed k
  issued : ∀ id ∈ flying, id.id < a.continuations.next
  once : ∀ {id k l}, a.get? id = some k → a.list? k.list = some l →
    l.ids.count id + flying.count id = if l.takes k.wake then 1 else 0

namespace Waits

/-- What can be registered has a list. -/
private lemma homed_of_admits (ok : Waits names a flying) (admitted : a.Admits k) : a.Homed k := by
  unfold Admits at admitted
  split at admitted
  case h_1 expiry wake =>
    refine ⟨?_, fun _ => admitted⟩
    have kind := ok.kind timeName
    rw [admitted]
    cases list : a.list? timeName with
    | some l => rfl
    | none =>
      rw [list, list?_ofLists, if_pos rfl] at kind
      split at kind
      · cases kind
      · cases kind
  case h_2 discriminator wake =>
    refine ⟨admitted, ?_⟩
    rw [wake]
    exact fun other => absurd other Bool.false_ne_true

/-- It is enough to count anew if each list is changed to one of its kind. -/
private lemma of_map (change : String → WaitList → WaitList) (ok : Waits names a flying)
    (tidy : a'.Tidy) (lists : a'.lists = a.lists.map fun x => (x.1, change x.1 x.2))
    (kind : ∀ {name l}, a.list? name = some l → (change name l).takes = l.takes)
    (home : ∀ {id k}, a'.get? id = some k → a.Homed k)
    (issued : ∀ id ∈ flying', id.id < a'.continuations.next)
    (once : ∀ {id k l}, a'.get? id = some k → a.list? k.list = some l →
      (change k.list l).ids.count id + flying'.count id = if l.takes k.wake then 1 else 0) :
    Waits names a' flying' := by
  have list?_eq : ∀ name, a'.list? name = (a.list? name).map (change name) := by
    intro name
    rw [list?, lists, lookup_map]
    rfl
  refine ⟨tidy, ?_, fun name => ?_, fun {id k} found => ?_, issued, fun {id k l} found listed => ?_⟩
  · rw [lists, List.map_map]
    exact ok.distinct
  · rw [← ok.kind name, list?_eq]
    cases listed : a.list? name with
    | none => rfl
    | some l => exact congrArg some (kind listed)
  · obtain ⟨listed, timed⟩ := home found
    refine ⟨?_, timed⟩
    rw [list?_eq, Option.isSome_map]
    exact listed
  · rw [list?_eq] at listed
    obtain ⟨l₀, before, rfl⟩ := Option.map_eq_some_iff.1 listed
    rw [kind before]
    exact once found before

/-- A new continuation waits in its list. -/
private lemma insert (ok : Waits names a flying) (childless : k.children = []) (homed : a.Homed k) :
    Waits names (a.insert k).2 flying := by
  have new : a.issue ∉ flying := fun flies => Nat.lt_irrefl _ (ok.issued a.issue flies)
  have unlisted : ∀ {l}, a.list? k.list = some l → a.issue ∉ l.ids := by
    intro l list waits
    obtain ⟨k', there, -⟩ := ok.tidy.listed (mem_lists list) waits
    exact ne_issue there rfl
  refine ok.of_map (WaitList.insertInto k.list a.issue k.wake) (ok.tidy.insert childless)
    (a.lists_insert k) (fun {name l} _ => l.takes_insertInto _ _ _ _) (fun {id k'} found => ?_)
    (fun id flies => ?_) fun {id k' l} found list => ?_
  · obtain ⟨k₀, ⟨-, rfl⟩ | before, rfl⟩ := get?_insert_cases found
    · exact homed
    · exact (ok.home before).congr rfl fun _ => rfl
  · rw [next_insert]
    exact Nat.lt_succ_of_lt (ok.issued id flies)
  · obtain ⟨k₀, ⟨rfl, rfl⟩ | before, rfl⟩ := get?_insert_cases found
    · have counted := WaitList.count_insertInto_self k₀.list a.issue k₀.wake l
      rw [List.count_eq_zero.2 (unlisted list), Nat.zero_add] at counted
      rw [List.count_eq_zero.2 new, Nat.add_zero]
      exact counted
    · have once := ok.once before list
      rw [WaitList.count_insertInto_of_ne (ne_issue before)]
      exact once

/-- An event moves nobody. -/
private lemma post {list event} (ok : Waits names a flying) (posted : a.post list event = .ok a') :
    Waits names a' flying := by
  obtain ⟨l, l', found, posted', rfl⟩ := post_cases posted
  have same : ∀ {name l₀}, a.list? name = some l₀ →
      (if name = list then l' else l₀).takes = l₀.takes ∧
        (if name = list then l' else l₀).ids = l₀.ids := by
    intro name l₀ listed
    split
    case isTrue named =>
      rw [named, found] at listed
      cases listed
      exact ⟨WaitList.takes_post? posted', WaitList.ids_post? posted'⟩
    case isFalse => exact ⟨rfl, rfl⟩
  refine ok.of_map (fun name l => if name = list then l' else l) (ok.tidy.post posted)
    (a.lists_modifyList _ _) (fun listed => (same listed).1) ok.home ok.issued
    fun {id k l₀} there listed => ?_
  rw [(same listed).2]
  exact ok.once there listed

/-- What is taken out of all lists is taken out of the list where it waits. -/
lemma count_ready (now : Binary64) (tick : Nat) {lists : List (String × WaitList)} {name}
    (distinct : (lists.map (·.1)).Nodup) (found : lists.lookup name = some l)
    (only : ∀ n l', (n, l') ∈ lists → n ≠ name → id ∉ l'.ids) :
    (lists.flatMap fun x => (x.2.takeReady now tick).1).count id =
      (l.takeReady now tick).1.count id := by
  have untouched : ∀ l' : WaitList, id ∉ l'.ids → id ∉ (l'.takeReady now tick).1 :=
    fun l' absent ready =>
    absent ((l'.ids_takeReady now tick).mem_iff.1 (List.mem_append_left _ ready))
  induction lists with
  | nil => cases found
  | cons first rest ih =>
    obtain ⟨n, l'⟩ := first
    obtain ⟨fresh, distinct'⟩ := List.nodup_cons.1 distinct
    rw [List.lookup_cons] at found
    rw [List.flatMap_cons, List.count_append]
    by_cases named : name = n
    · subst named
      rw [beq_self_eq_true] at found
      cases found
      have rest_none : id ∉ rest.flatMap fun x => (x.2.takeReady now tick).1 := by
        intro ready
        obtain ⟨x, listed, ready'⟩ := List.mem_flatMap.1 ready
        refine untouched x.2 (only x.1 x.2 (List.mem_cons_of_mem _ listed) fun same => ?_) ready'
        exact fresh (List.mem_map.2 ⟨x, listed, same⟩)
      rw [List.count_eq_zero.2 rest_none, Nat.add_zero]
    · rw [beq_eq_false_iff_ne.2 named] at found
      have first_none := untouched l' (only n l' List.mem_cons_self fun same => named same.symm)
      rw [List.count_eq_zero.2 first_none, Nat.zero_add]
      exact ih distinct' found fun n l' listed => only n l' (List.mem_cons_of_mem _ listed)

/-- What is due leaves its list and is in flight. -/
private lemma takeReady (ok : Waits names a flying) (now : Binary64) :
    Waits names (a.takeReady now).2 (flying ++ (a.takeReady now).1) := by
  have tidy := ok.tidy.takeReady now
  rw [takeReady_eq] at tidy ⊢
  refine ok.of_map (fun _ l => (l.takeReady now (a.tick + 1)).2) tidy rfl
    (fun {_ l} _ => l.takes_takeReady _ _) ok.home (fun id flies => ?_)
    fun {id k l} (found : a.get? id = some k) list => ?_
  · rcases List.mem_append.1 flies with old | ready
    · exact ok.issued id old
    · obtain ⟨⟨name, l⟩, listed, ready'⟩ := List.mem_flatMap.1 ready
      have waited := (l.ids_takeReady now (a.tick + 1)).mem_iff.1 (List.mem_append_left _ ready')
      obtain ⟨k, found, -⟩ := ok.tidy.listed listed waited
      exact lt_next_of_bond? (bond?_of_get? found)
  · -- it waits in one list only, so that of all that is due only the part from this list counts
    have elsewhere : ∀ n l', (n, l') ∈ a.lists → n ≠ k.list → id ∉ l'.ids := by
      intro n l' listed other waits
      obtain ⟨k', found', named, -⟩ := ok.tidy.listed listed waits
      rw [found] at found'
      cases found'
      exact other named.symm
    have ready := count_ready now (a.tick + 1) ok.distinct list elsewhere
    have parts := (l.ids_takeReady now (a.tick + 1)).count_eq id
    have before := ok.once found list
    rw [List.count_append] at parts
    rw [List.count_append, ready, ← before, ← parts]
    omega

/-- What is left after a loss waits as before. -/
lemma drops {gone} (ok : Waits names a flying) (x : Drops gone a a')
    (flight : ∀ id, id ∉ gone → flying'.count id = flying.count id)
    (subset : ∀ id ∈ flying', id ∈ flying) : Waits names a' flying' := by
  refine ok.of_map (fun _ l => l.keep (· ∉ gone)) (x.tidy ok.tidy) x.lists
    (fun {_ l} _ => l.takes_keep _)
    (fun {id k} found => ?_) (fun id flies => ?_) fun {id k l} found list => ?_
  · obtain ⟨-, c, before, rfl⟩ := x.get_of found
    exact (ok.home before).congr rfl fun _ => rfl
  · rw [x.next]
    exact ok.issued id (subset id flies)
  · obtain ⟨stays, c, before, rfl⟩ := x.get_of found
    have kept : (l.keep (· ∉ gone)).ids.count id = l.ids.count id := by
      rw [WaitList.ids_keep]
      exact List.count_filter (decide_eq_true stays)
    have once := ok.once before list
    rw [← flight id stays, ← kept] at once
    exact once

/-- A continuation in flight may be retired. -/
private lemma retire (ok : Waits names a flying) (id : ContinuationId)
    (found : a.get? id = some c) :
    Waits names (a.retire id).2 (flying.erase id) := by
  obtain ⟨a', dropped, whole⟩ := retire_eq ok.tidy found
  obtain ⟨continuations, orphaned, next⟩ := a'.orphan_eq c.children
  have tidy := ok.tidy.retire id
  have left : Waits names a' (flying.erase id) := ok.drops dropped
    (fun x stays => List.count_erase_of_ne fun same => stays (List.mem_singleton.2 same))
    fun x flies => List.mem_of_mem_erase flies
  rw [whole] at tidy ⊢
  have same : ∀ {x k}, (a'.orphan c.children).get? x = some k →
      ∃ k₀, a'.get? x = some k₀ ∧ k.wake = k₀.wake ∧ k.list = k₀.list := by
    intro x k there
    rw [get?_orphan] at there
    obtain ⟨k₀, before, rfl⟩ := Option.map_eq_some_iff.1 there
    exact ⟨k₀, before, rfl, rfl⟩
  refine left.of_map (fun _ l => l) tidy ?_ (fun _ => rfl) (fun {x k} there => ?_)
    (fun x flies => ?_) fun {x k l} there list => ?_
  · rw [orphaned]
    exact (List.map_id' _).symm
  · obtain ⟨k₀, before, wake, named⟩ := same there
    exact (left.home before).congr named fun l => congrArg l.takes wake
  · rw [orphaned]
    exact next ▸ left.issued x flies
  · obtain ⟨k₀, before, wake, named⟩ := same there
    rw [named] at list
    rw [wake]
    exact left.once before list

/-- A continuation in flight may be armed again. -/
private lemma rearm (ok : Waits names a flying) (due : id ∈ flying) (found : a.get? id = some c)
    (tidy : ((a.set id (rearmed c)).modifyList (rearmed c).list
      (·.insert id (rearmed c).wake)).Tidy) :
    Waits names ((a.set id (rearmed c)).modifyList (rearmed c).list (·.insert id (rearmed c).wake))
      (flying.erase id) := by
  have same : ∀ k, (rearmed k).list = k.list ∧ ∀ l :
      WaitList, l.takes (rearmed k).wake = l.takes k.wake := by
    intro k
    obtain ⟨wake, recurrence, whole, takes⟩ := rearmed_eq k
    rw [whole]
    exact ⟨rfl, takes⟩
  have origin : ∀ {x k},
      ((a.set id (rearmed c)).modifyList (rearmed c).list (·.insert id (rearmed c).wake)).get? x =
        some k → x = id ∧ k = rearmed c ∨ x ≠ id ∧ a.get? x = some k := by
    intro x k there
    rw [get?_rearm found] at there
    obtain ⟨k₀, before, rfl⟩ := Option.map_eq_some_iff.1 there
    split
    case isTrue e =>
      rw [e, found] at before
      cases before
      exact .inl ⟨e, rfl⟩
    case isFalse differ => exact .inr ⟨differ, before⟩
  refine ok.of_map (WaitList.insertInto (rearmed c).list id (rearmed c).wake) tidy
    (lists_insertInto _ _ _ _)
    (fun {name l} _ => l.takes_insertInto _ _ _ _) (fun {x k} there => ?_) (fun x flies => ?_)
    fun {x k l} there list => ?_
  · obtain ⟨-, rfl⟩ | ⟨-, before⟩ := origin there
    · exact (ok.home found).congr (same c).1 (same c).2
    · exact ok.home before
  · have next : (a.set id (rearmed c)).continuations.next = a.continuations.next :=
      a.continuations.next_set _ _
    exact next ▸ ok.issued x (List.mem_of_mem_erase flies)
  · obtain ⟨rfl, rfl⟩ | ⟨differ, before⟩ := origin there
    · -- it was in flight, so its list takes it and it did not wait there
      rw [(same c).1] at list
      have before := ok.once found list
      have flies : 0 < flying.count x := List.count_pos_iff.2 due
      rw [WaitList.count_insertInto_self, List.count_erase_self, (same c).2]
      cases takes : l.takes c.wake with
      | true =>
        rw [takes, if_pos rfl] at before
        rw [if_pos rfl]
        omega
      | false =>
        rw [takes, if_neg Bool.false_ne_true] at before
        omega
    · rw [WaitList.count_insertInto_of_ne differ, List.count_erase_of_ne differ]
      exact ok.once before list

/-- Each of the things that can be asked leaves each continuation in one place. -/
lemma serves {s : Agenda × List ContinuationId} {s'} (ok : Waits names s.1 s.2)
    (served : Serves s s') :
    Waits names s'.1 s'.2 := by
  cases served with
  | @register a flying call registers =>
    obtain same | ⟨k, childless, -, admitted, inserted⟩ := Call.perform_of_registers registers a
    · rw [same]
      exact ok
    · rw [inserted]
      exact ok.insert childless (ok.homed_of_admits admitted)
  | @post a flying list event =>
    cases posted : a.post list event with
    | ok a' =>
      simp only [Call.perform, posted]
      exact Waits.post ok posted
    | error =>
      simp only [Call.perform, posted]
      exact ok
  | takeReady now => exact Waits.takeReady ok now
  | @rearmOrRetire a flying id result due settled =>
    have tidy := ok.tidy.rearmOrRetire settled
    obtain ⟨c, found, rfl | armed⟩ := rearmOrRetire_cases settled
    · exact Waits.retire ok id found
    · rw [armed] at tidy
      rw [armed]
      exact Waits.rearm ok due found tidy
  | cancel id =>
    obtain ⟨gone, dropped, -⟩ := drops_cancel ok.tidy id
    exact Waits.drops ok dropped (fun _ _ => rfl) fun _ flies => flies
  | cancelFiber f =>
    obtain ⟨gone, dropped, -⟩ := drops_cancelFiber ok.tidy f
    exact Waits.drops ok dropped (fun _ _ => rfl) fun _ flies => flies

/-- What is gone need not be settled. -/
lemma erase (ok : Waits names a flying) (gone : a.get? id = none) :
    Waits names a (flying.erase id) := by
  refine ⟨ok.tidy, ok.distinct, ok.kind, ok.home, fun x flies =>
    ok.issued x (List.mem_of_mem_erase flies),
    fun {x k l} found list => ?_⟩
  have differ : x ≠ id := by
    rintro rfl
    rw [gone] at found
    cases found
  rw [List.count_erase_of_ne differ]
  exact ok.once found list

/-- Nothing is in flight twice. -/
lemma count_le_one (ok : Waits names a flying) (found : a.get? id = some k) :
    flying.count id ≤ 1 := by
  obtain ⟨l, list⟩ := Option.isSome_iff_exists.1 (ok.home found).1
  have once := ok.once found list
  split at once <;> omega

/-- What is in flight waits in no list. -/
lemma unlisted (ok : Waits names a flying) (flies : id ∈ flying) {name}
    (listed : (name, l) ∈ a.lists) :
    id ∉ l.ids := by
  intro waits
  obtain ⟨k, found, rfl, takes⟩ := ok.tidy.listed listed waits
  have once := ok.once found (list?_of_mem ok.distinct listed)
  have counted := List.count_pos_iff.2 waits
  have counted' := List.count_pos_iff.2 flies
  rw [if_pos takes] at once
  omega

end Waits

/-- At first nothing waits. -/
lemma waits_ofLists (names : List String) : Waits names (ofLists names) [] := by
  refine ⟨tidy_ofLists names, ?_, fun _ => rfl, fun {id k} found =>
    absurd found (ne_ofLists names id k),
    fun _ flies => absurd flies List.not_mem_nil, fun {id k _} found =>
      absurd found (ne_ofLists names id k)⟩
  refine List.pairwise_map.2 ((pairwise_ofLists names).imp ?_)
  intro x y less same
  rw [same] at less
  exact String.lt_irrefl _ less

private lemma waits_of_served {s} (served : Relation.ReflTransGen Serves (ofLists names, []) s) :
    Waits names s.1 s.2 := by
  induction served with
  | refl => exact waits_ofLists names
  | tail _ step ih => exact ih.serves step

/-- The list of a continuation takes what it waits for exactly if the continuation fits. -/
lemma Waits.takes_iff (ok : Waits names a flying) (found : a.get? id = some k)
    (list : a.list? k.list = some l) : l.takes k.wake ↔ k.Fits names := by
  obtain ⟨-, timed⟩ := ok.home found
  have kind := ok.kind k.list
  rw [list, list?_ofLists] at kind
  unfold Continuation.Fits
  cases wake : k.wake with
  | «at» expiry =>
    rw [wake] at timed
    rw [timed rfl, if_pos rfl] at kind
    dsimp only
    split at kind
    case isTrue listed =>
      rw [Option.some.inj kind]
      exact ⟨fun h => absurd h Bool.false_ne_true, fun h => absurd listed h⟩
    case isFalse unlisted =>
      rw [Option.some.inj kind]
      exact ⟨fun _ => unlisted, fun _ => rfl⟩
  | on discriminator =>
    dsimp only
    split at kind
    case isTrue listed =>
      rw [Option.some.inj kind]
      exact ⟨fun _ named => named ▸ listed, fun _ => rfl⟩
    case isFalse unlisted =>
      split at kind
      case isTrue named =>
        rw [Option.some.inj kind]
        rw [named] at unlisted
        exact ⟨fun h => absurd h Bool.false_ne_true, fun fits => absurd (fits named) unlisted⟩
      case isFalse => cases kind

/-- A continuation whose list takes what it waits for is in flight, or it waits in that list, once.
Any other continuation is in no list and never in flight. -/
theorem waits_once (served : Relation.ReflTransGen Serves (ofLists names, []) (a, flying))
    (found : a.get? id = some k) :
    ∃ l, a.list? k.list = some l ∧
      (k.Fits names → id ∈ flying ∧ id ∉ l.ids ∨ id ∉ flying ∧ l.ids.count id = 1) ∧
      (¬ k.Fits names → id ∉ flying ∧ ∀ x ∈ a.lists, id ∉ x.2.ids) := by
  have ok : Waits names a flying := waits_of_served served
  obtain ⟨l, list⟩ := Option.isSome_iff_exists.1 (ok.home found).1
  have takes := ok.takes_iff found list
  have once := ok.once found list
  refine ⟨l, list, fun fits => ?_, fun misfit => ?_⟩
  · rw [if_pos (takes.2 fits)] at once
    by_cases flies : id ∈ flying
    · have counted := List.count_pos_iff.2 flies
      have unlisted : l.ids.count id = 0 := by omega
      exact .inl ⟨flies, List.count_eq_zero.1 unlisted⟩
    · rw [List.count_eq_zero.2 flies] at once
      exact .inr ⟨flies, once⟩
  · rw [if_neg fun h => misfit (takes.1 h)] at once
    obtain ⟨unlisted, unflown⟩ := Nat.add_eq_zero_iff.1 once
    refine ⟨List.count_eq_zero.1 unflown, fun x listed waits => ?_⟩
    obtain ⟨k', found', named, -⟩ := ok.tidy.listed listed waits
    rw [found] at found'
    cases found'
    have same := list?_of_mem ok.distinct listed
    rw [← named, list] at same
    exact List.count_eq_zero.1 unlisted (Option.some.inj same ▸ waits)

/-- A continuation in flight, and one that waits for an event. -/
def inFlightAndListening : Agenda × List ContinuationId :=
  let waiting := Call.perform (.registerAt none ⟨0⟩ ⟨0⟩ .zero 1 0 .zero) (ofLists ["door"])
  let (due, taken) := waiting.takeReady .zero
  (Call.perform (.registerOn none ⟨0⟩ ⟨0⟩ "door" "open" 2 0) taken, due)

/-- The continuation that waits for an event is in its list. -/
theorem waits_once_inFlightAndListening :
    inFlightAndListening.2 = [⟨0⟩] ∧ ∃ l, inFlightAndListening.1.list? "door" = some l ∧
      l.ids.count ⟨1⟩ = 1 := by
  have served : Relation.ReflTransGen Serves (ofLists ["door"], [])
      (inFlightAndListening.1, inFlightAndListening.2) :=
    .tail (.tail (.tail .refl (.register (.registerAt none ⟨0⟩ ⟨0⟩ .zero 1 0 .zero) rfl))
      (.takeReady .zero)) (.register (.registerOn none ⟨0⟩ ⟨0⟩ "door" "open" 2 0) rfl)
  have flight : inFlightAndListening.2 = [⟨0⟩] := by decide +kernel
  have found : inFlightAndListening.1.get? ⟨1⟩ =
      some ⟨⟨0⟩, ⟨0⟩, none, [], 2, .on "open", 0, .zero, "door"⟩ := by decide +kernel
  obtain ⟨l, list, fitting, -⟩ := waits_once served found
  refine ⟨flight, l, list, ?_⟩
  rcases fitting fun named => absurd named (by decide) with ⟨flies, -⟩ | ⟨-, once⟩
  · rw [flight] at flies
    exact absurd flies (by decide)
  · exact once

/-- An event is awaited on the list `time`: the continuation is registered, and it waits nowhere. -/
theorem stranded_on_time :
    ∃ a, (ofLists []).registerOn none ⟨0⟩ ⟨0⟩ timeName "down" 7 0 = .ok (⟨0⟩, a) ∧
      Serves (ofLists [], []) (a, []) ∧ (a.get? ⟨0⟩).isSome ∧ ∀ x ∈ a.lists, ⟨0⟩ ∉ x.2.ids := by
  refine ⟨Call.perform (.registerOn none ⟨0⟩ ⟨0⟩ timeName "down" 7 0) (ofLists []), rfl,
    .register _ rfl, ?_, ?_⟩
  · decide +kernel
  · decide +kernel

end Agenda

end FiberVM
