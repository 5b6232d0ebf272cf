import FiberVM.Agenda.Basic
import FiberVM.Proofs.Agenda.Timeline

/-!
# Lists where continuations wait

A list is seen through the identities in it, `WaitList.ids`, and through the wakes that it takes. An
operation adds identities, takes some out, or leaves them alone; none changes the kind of a list.
The lists of an agenda are seen through their names.
-/

namespace FiberVM

namespace WaitList

variable {l l' : WaitList} {id other : ContinuationId} {wake : Wake} {p : ContinuationId → Bool}

/-- The continuations that wait, in order. -/
def ids : WaitList → List ContinuationId
  | time t => t.queue.map (·.2)
  | events l => l.waiting.map (·.id)

/-- Whether a list is of the kind that a wake asks for. -/
def takes : WaitList → Wake → Bool
  | time _, .at _ => true
  | events _, .on _ => true
  | _, _ => false

/-- A list of which only some continuations are left, in their order. -/
def keep (p : ContinuationId → Bool) : WaitList → WaitList
  | time t => time ⟨t.queue.filter (p ·.2)⟩
  | events l => events { l with waiting := l.waiting.filter (p ·.id) }

lemma ids_eq_nil (empty : l.size = 0) : l.ids = [] := by
  cases l with
  | time t => exact List.map_eq_nil_iff.2 (List.eq_nil_of_length_eq_zero empty)
  | events l => exact List.map_eq_nil_iff.2 (List.eq_nil_of_length_eq_zero empty)

@[simp] lemma ids_keep (p : ContinuationId → Bool) (l : WaitList) :
    (l.keep p).ids = l.ids.filter p := by
  cases l with
  | time t => exact List.filter_map.symm
  | events l => exact List.filter_map.symm

@[simp] lemma takes_keep (p : ContinuationId → Bool) (l : WaitList) :
    (l.keep p).takes = l.takes := by
  funext wake
  cases l <;> cases wake <;> rfl

/-- Nothing changes where all are kept. -/
lemma keep_eq_self (all : ∀ id ∈ l.ids, p id) : l.keep p = l := by
  cases l with
  | time t =>
    have left : t.queue.filter (p ·.2) = t.queue :=
      List.filter_eq_self.2 fun x hx => all x.2 (List.mem_map_of_mem hx)
    rw [keep, left]
  | events l =>
    have left : l.waiting.filter (p ·.id) = l.waiting :=
      List.filter_eq_self.2 fun x hx => all x.id (List.mem_map_of_mem hx)
    rw [keep, left]

lemma keep_keep (p q : ContinuationId → Bool) (l : WaitList) :
    (l.keep p).keep q = l.keep fun id => q id && p id := by
  cases l with
  | time t => simp only [keep, List.filter_filter]
  | events l => simp only [keep, List.filter_filter]

lemma remove_eq_keep (l : WaitList) (id : ContinuationId) : l.remove id = l.keep (· ≠ id) := by
  cases l <;> rfl

/-- A list takes in a continuation that waits for what the list is for. -/
lemma ids_insert (takes : l.takes wake) (id : ContinuationId) :
    (l.insert id wake).ids.Perm (id :: l.ids) := by
  cases l with
  | time t =>
    cases wake with
    | «at» expiry => exact (t.perm_insert expiry id).map (·.2)
    | on => cases takes
  | events l =>
    cases wake with
    | «at» => cases takes
    | on discriminator =>
      have added : (insert (events l) id (.on discriminator)).ids = l.waiting.map (·.id) ++ [id] :=
        List.map_append
      rw [added]
      exact List.perm_append_comm

/-- A list ignores a continuation that waits for something else. -/
lemma insert_of_not_takes (other : l.takes wake = false) (id : ContinuationId) :
    l.insert id wake = l := by
  cases l <;> cases wake <;> first | rfl | cases other

@[simp] lemma takes_insert (l : WaitList) (id : ContinuationId) (wake : Wake) :
    (l.insert id wake).takes = l.takes := by
  funext other
  cases l <;> cases wake <;> cases other <;> rfl

/-- Who is in a list after an insertion. -/
lemma mem_ids_insert (listed : id ∈ (l.insert other wake).ids) :
    id ∈ l.ids ∨ id = other ∧ l.takes wake := by
  cases kind : l.takes wake with
  | true =>
    rcases List.mem_cons.1 ((ids_insert kind other).mem_iff.1 listed) with new | old
    · exact .inr ⟨new, rfl⟩
    · exact .inl old
  | false =>
    rw [insert_of_not_takes kind] at listed
    exact .inl listed

/-- An insertion adds one place. -/
lemma count_insert (l : WaitList) (other : ContinuationId) (wake : Wake) (id : ContinuationId) :
    (l.insert other wake).ids.count id = l.ids.count id + if id = other ∧
      l.takes wake then 1 else 0 := by
  cases kind : l.takes wake with
  | true =>
    rw [(ids_insert kind other).count_eq, List.count_cons]
    refine congrArg (l.ids.count id + ·) (if_congr ?_ rfl rfl)
    rw [beq_iff_eq, and_iff_left rfl, eq_comm]
  | false =>
    rw [insert_of_not_takes kind]
    simp only [Bool.false_eq_true, and_false, if_false, Nat.add_zero]

/-- A list takes in a continuation if it has the name that the continuation gives. -/
def insertInto (into : String) (id : ContinuationId) (wake : Wake) (name : String) (l : WaitList) :
    WaitList :=
  if name = into then l.insert id wake else l

@[simp] lemma takes_insertInto (into : String) (id : ContinuationId) (wake : Wake) (name : String)
    (l : WaitList) : (insertInto into id wake name l).takes = l.takes := by
  unfold insertInto
  split
  · exact l.takes_insert id wake
  · rfl

lemma mem_ids_insertInto {into name} (listed : id ∈ (insertInto into other wake name l).ids) :
    id ∈ l.ids ∨ id = other ∧ name = into ∧ l.takes wake := by
  unfold insertInto at listed
  split at listed
  case isTrue named => exact (mem_ids_insert listed).imp_right fun new => ⟨new.1, named, new.2⟩
  case isFalse => exact .inl listed

lemma count_insertInto_of_ne (differ : id ≠ other) (into : String) (wake : Wake) (name : String)
    (l : WaitList) : (insertInto into other wake name l).ids.count id = l.ids.count id := by
  unfold insertInto
  split
  · rw [count_insert, if_neg fun h => differ h.1]
    rfl
  · rfl

/-- The list that a continuation names has one entry more if it takes what the continuation waits
for. -/
lemma count_insertInto_self (into : String) (id : ContinuationId) (wake : Wake) (l : WaitList) :
    (insertInto into id wake into l).ids.count id =
      l.ids.count id + if l.takes wake then 1 else 0 := by
  rw [insertInto, if_pos rfl, count_insert]
  exact congrArg (l.ids.count id + ·) (if_congr (and_iff_right rfl) rfl rfl)

lemma ids_post? {event} (posted : l.post? event = some l') : l'.ids = l.ids := by
  cases l with
  | time t => cases posted
  | events l =>
    cases posted
    rfl

lemma takes_post? {event} (posted : l.post? event = some l') : l'.takes = l.takes := by
  cases l with
  | time t => cases posted
  | events l =>
    cases posted
    funext wake
    cases wake <;> rfl

/-- Handing out events splits the listeners into the woken ones and those that go on waiting. -/
private lemma dispatch_perm (tick : Nat) (events : List String) (waiting : List Listener) :
    ((Listeners.dispatch tick events waiting).1 ++
      (Listeners.dispatch tick events waiting).2.map (·.id)).Perm (waiting.map (·.id)) := by
  induction events generalizing waiting with
  | nil => exact .refl _
  | cons event events ih =>
    have parts := List.filter_append_perm (Listeners.Matches tick event) waiting
    refine .trans ?_ (parts.map (·.id))
    rw [Listeners.dispatch, List.append_assoc, List.map_append]
    exact (ih _).append_left _

/-- What is due and what goes on waiting are together what waited. -/
lemma ids_takeReady (l : WaitList) (now : Binary64) (tick : Nat) :
    ((l.takeReady now tick).1 ++ (l.takeReady now tick).2.ids).Perm l.ids := by
  cases l with
  | time t =>
    change ((t.queue.take (t.reached now)).map (·.2) ++
      (t.queue.drop (t.reached now)).map (·.2)).Perm (t.queue.map (·.2))
    rw [← List.map_append, List.take_append_drop]
  | events l => exact dispatch_perm tick l.events l.waiting

@[simp] lemma takes_takeReady (l : WaitList) (now : Binary64) (tick : Nat) :
    (l.takeReady now tick).2.takes = l.takes := by
  funext wake
  cases l <;> cases wake <;> rfl

end WaitList

namespace Agenda

variable {a : Agenda} {lists : List (String × WaitList)} {name : String} {l : WaitList}

/-! ## Named lists -/

/-- A list that is found by its name is there. -/
lemma mem_lists (found : a.list? name = some l) : (name, l) ∈ a.lists := by
  have found' : a.lists.lookup name = some l := found
  generalize a.lists = lists at found'
  induction lists with
  | nil => cases found'
  | cons first rest ih =>
    obtain ⟨other, l'⟩ := first
    rw [List.lookup_cons] at found'
    split at found'
    case h_1 same =>
      cases found'
      rw [eq_of_beq same]
      exact List.mem_cons_self
    case h_2 => exact List.mem_cons_of_mem _ (ih found')

/-- A list that is there is found by its name, if no other has it. -/
lemma list?_of_mem (distinct : (a.lists.map (·.1)).Nodup) (listed : (name, l) ∈ a.lists) :
    a.list? name = some l := by
  rw [list?]
  generalize a.lists = lists at distinct listed
  induction lists with
  | nil => cases listed
  | cons first rest ih =>
    obtain ⟨fresh, distinct'⟩ := List.nodup_cons.1 distinct
    rw [List.lookup_cons]
    rcases List.mem_cons.1 listed with rfl | later
    · rw [beq_self_eq_true]
    · have differ : name ≠ first.1 := fun same => fresh (List.mem_map.2 ⟨_, later, same⟩)
      rw [beq_eq_false_iff_ne.2 differ]
      exact ih distinct' later

/-- Lists are changed under their names. -/
lemma lookup_map (lists : List (String × WaitList)) (change : String → WaitList → WaitList)
    (name : String) :
    (lists.map fun x => (x.1, change x.1 x.2)).lookup name = (lists.lookup name).map
      (change name) := by
  induction lists with
  | nil => rfl
  | cons first rest ih =>
    obtain ⟨other, l⟩ := first
    rw [List.map_cons, List.lookup_cons, List.lookup_cons, ih]
    cases same : name == other with
    | true =>
      rw [eq_of_beq same]
      rfl
    | false => rfl

lemma lists_modifyList (a : Agenda) (name : String) (change : WaitList → WaitList) :
    (a.modifyList name change).lists =
      a.lists.map fun x => (x.1, if x.1 = name then change x.2 else x.2) := by
  refine List.map_congr_left fun x _ => ?_
  obtain ⟨n, l⟩ := x
  change (if n = name then (n, change l) else (n, l)) = (n, if n = name then change l else l)
  split <;> rfl

lemma lists_insertInto (a : Agenda) (into : String) (id : ContinuationId) (wake : Wake) :
    (a.modifyList into (·.insert id wake)).lists =
      a.lists.map fun x => (x.1, WaitList.insertInto into id wake x.1 x.2) :=
  a.lists_modifyList into _

/-- Putting a list in place leaves the others. -/
lemma mem_putList {x} (listed : x ∈ putList name l lists) :
    x = (name, l) ∨ x ∈ lists := by
  induction lists with
  | nil => exact .inl (List.mem_singleton.1 listed)
  | cons first rest ih =>
    obtain ⟨other, l'⟩ := first
    unfold putList at listed
    split at listed
    case isTrue =>
      rcases List.mem_cons.1 listed with new | old
      · exact .inl new
      · exact .inr (List.mem_cons_of_mem _ old)
    case isFalse =>
      split at listed
      case isTrue => exact (List.mem_cons.1 listed).imp_right fun old => old
      case isFalse =>
        rcases List.mem_cons.1 listed with same | later
        · exact .inr (same ▸ List.mem_cons_self)
        · exact (ih later).imp_right fun old => List.mem_cons_of_mem _ old

/-- A list that is put takes the place of the one with its name. -/
lemma lookup_putList (name : String) (l : WaitList) (lists : List (String × WaitList))
    (other : String) :
    (putList name l lists).lookup other = if other = name then some l else lists.lookup other := by
  have head : ∀ rest, ((name, l) :: rest).lookup other =
      if other = name then some l else rest.lookup other := by
    intro rest
    rw [List.lookup_cons]
    by_cases same : other = name
    · rw [if_pos same, beq_iff_eq.2 same]
    · rw [if_neg same, beq_eq_false_iff_ne.2 same]
  induction lists with
  | nil => exact head []
  | cons first rest ih =>
    obtain ⟨n, l'⟩ := first
    unfold putList
    split
    case isTrue named =>
      subst named
      rw [head, List.lookup_cons]
      by_cases same : other = name
      · rw [if_pos same, if_pos same]
      · rw [if_neg same, if_neg same, beq_eq_false_iff_ne.2 same]
    case isFalse differ =>
      split
      · exact head _
      · rw [List.lookup_cons, List.lookup_cons, ih]
        by_cases same : other = name
        · rw [if_pos same, if_pos same, beq_eq_false_iff_ne.2 fun h => differ (same.symm.trans h)]
        · rw [if_neg same, if_neg same]

lemma list?_addList (a : Agenda) (name : String) (l : WaitList) (other : String) :
    (a.addList name l).list? other = if other = name then some l else a.list? other :=
  lookup_putList name l a.lists other

/-- The names of the lists stay in order. -/
lemma pairwise_putList (sorted : lists.Pairwise (·.1 < ·.1)) :
    (putList name l lists).Pairwise (·.1 < ·.1) := by
  induction lists with
  | nil => exact List.pairwise_singleton _ _
  | cons first rest ih =>
    obtain ⟨n, l'⟩ := first
    obtain ⟨before, sorted'⟩ := List.pairwise_cons.1 sorted
    unfold putList
    split
    case isTrue named =>
      subst named
      exact List.pairwise_cons.2 ⟨before, sorted'⟩
    case isFalse differ =>
      split
      case isTrue less =>
        refine List.pairwise_cons.2 ⟨fun x hx => ?_, sorted⟩
        rcases List.mem_cons.1 hx with rfl | later
        · exact less
        · exact String.lt_trans less (before x later)
      case isFalse notLess =>
        refine List.pairwise_cons.2 ⟨fun x hx => ?_, ih sorted'⟩
        rcases mem_putList hx with rfl | old
        · exact Std.lt_of_le_of_ne (String.not_lt.1 notLess) fun same => differ same.symm
        · exact before x old

/-- At first there are the lists for events, and the list `time` unless one of them is called so. -/
lemma list?_ofLists (names : List String) (name : String) :
    (ofLists names).list? name =
      if name ∈ names then some (.events {}) else if name =
        timeName then some (.time {}) else none := by
  have added : ∀ a : Agenda, (names.foldl addListeners a).list? name =
      if name ∈ names then some (.events {}) else a.list? name := by
    induction names with
    | nil => exact fun a => (if_neg List.not_mem_nil).symm
    | cons first rest ih =>
      intro a
      rw [List.foldl_cons, ih, addListeners, list?_addList]
      by_cases later : name ∈ rest
      · rw [if_pos later, if_pos (List.mem_cons_of_mem _ later)]
      · rw [if_neg later]
        exact if_congr ⟨fun same => List.mem_cons.2 (.inl same),
          fun listed => (List.mem_cons.1 listed).resolve_right later⟩ rfl rfl
  rw [ofLists, added, addTimeline, list?_addList]
  rfl

lemma pairwise_ofLists (names : List String) : (ofLists names).lists.Pairwise (·.1 < ·.1) := by
  have added : ∀ a : Agenda, a.lists.Pairwise (·.1 < ·.1) →
      (names.foldl addListeners a).lists.Pairwise (·.1 < ·.1) := by
    induction names with
    | nil => exact fun _ sorted => sorted
    | cons name rest ih => exact fun a sorted => ih (a.addListeners name) (pairwise_putList sorted)
  exact added _ (pairwise_putList .nil)

/-- Each list gives what is due and keeps the rest. -/
lemma takeReadyFrom_eq (now : Binary64) (tick : Nat) (lists : List (String × WaitList)) :
    takeReadyFrom now tick lists =
      (lists.flatMap fun x => (x.2.takeReady now tick).1,
        lists.map fun x => (x.1, (x.2.takeReady now tick).2)) := by
  induction lists with
  | nil => rfl
  | cons first rest ih =>
    rw [takeReadyFrom, ih]
    rfl

end Agenda

end FiberVM
