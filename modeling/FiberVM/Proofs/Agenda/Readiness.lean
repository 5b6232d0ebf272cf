import FiberVM.Proofs.Agenda.Waiting
import Mathlib.Data.List.TakeWhile

/-!
# What is due

A list is in order if the expiries grow along it, or if its listeners were armed no later than in
the tick that was last. What is taken out of a list in order is exactly what is due: the
continuations whose expiry is reached, and those whose event is to be handed out
(`WaitList.ready_perm`). The lists for events stay in order whatever is asked of an agenda, and the
list `time` does while all expiries are numbers (`Agenda.Ordered`).
-/

namespace FiberVM

/-- Whether a wake is for an event or for a point in time that is a number. -/
def Wake.isNumber : Wake → Bool
  | .at expiry => !expiry.isNaN
  | .on _ => true

namespace WaitList

variable {l l' : WaitList} {id other : ContinuationId} {wake wake' : Wake} {tick : Nat}
  {now : Binary64}

/-- What the continuations of a list wait for. -/
def entries : WaitList → List (Wake × ContinuationId)
  | time t => t.queue.map fun x => (.at x.1, x.2)
  | events l => l.waiting.map fun x => (.on x.discriminator, x.id)

/-- Whether a list is in order when a tick was last. -/
def InOrder (tick : Nat) : WaitList → Prop
  | time t => t.queue.Pairwise fun x y => x.1.le y.1
  | events l => l.tick ≤ tick ∧ ∀ x ∈ l.waiting, x.armed ≤ tick

/-- Whether a list is one of expiries. -/
def timed (l : WaitList) : Bool := l.takes (.at .zero)

/-- Whether what is waited for has come: the expiry is reached, or the event is to be handed out. -/
def due (now : Binary64) : WaitList → Wake → Bool
  | time _, .at expiry => expiry.le now
  | events l, .on discriminator => l.events.contains discriminator
  | _, _ => false

@[simp] lemma map_entries (l : WaitList) : l.entries.map (·.2) = l.ids := by
  cases l with
  | time t => exact List.map_map
  | events l => exact List.map_map

/-- A list of expiries takes points in time only. -/
lemma takes_time (kind : l.timed) (takes : l.takes wake) : (time {}).takes wake := by
  cases l with
  | time => cases wake <;> exact takes
  | events => cases kind

lemma mem_ids_of_mem_entries (entry : (wake, id) ∈ l.entries) : id ∈ l.ids :=
  l.map_entries ▸ List.mem_map_of_mem entry

/-! ## Changing a list -/

/-- Entries are kept in their order. -/
lemma entries_keep (p : ContinuationId → Bool) (l : WaitList) :
    (l.keep p).entries = l.entries.filter (p ·.2) := by
  cases l with
  | time t =>
    rw [entries, List.filter_map]
    rfl
  | events l =>
    rw [entries, List.filter_map]
    rfl

lemma InOrder.keep (ordered : l.InOrder tick) (p : ContinuationId → Bool) :
    (l.keep p).InOrder tick := by
  cases l with
  | time t => exact List.Pairwise.filter _ ordered
  | events l => exact ⟨ordered.1, fun x waits => ordered.2 x (List.mem_of_mem_filter waits)⟩

/-- An insertion adds one entry. -/
lemma mem_entries_insert (entry : (wake, id) ∈ (l.insert other wake').entries) :
    (wake, id) ∈ l.entries ∨ wake = wake' ∧ id = other := by
  cases l with
  | time t =>
    cases wake' with
    | «at» expiry =>
      obtain ⟨x, queued, same⟩ := List.mem_map.1 entry
      rcases List.mem_cons.1 ((t.perm_insert expiry other).mem_iff.1 queued) with rfl | old
      · cases same
        exact .inr ⟨rfl, rfl⟩
      · exact .inl (List.mem_map.2 ⟨x, old, same⟩)
    | on => exact .inl entry
  | events l =>
    cases wake' with
    | «at» => exact .inl entry
    | on discriminator =>
      obtain ⟨x, waits, same⟩ := List.mem_map.1 entry
      rcases List.mem_append.1 waits with old | new
      · exact .inl (List.mem_map.2 ⟨x, old, same⟩)
      · cases List.mem_singleton.1 new
        cases same
        exact .inr ⟨rfl, rfl⟩

/-- A list stays in order when a continuation is added, if its expiries are numbers. -/
lemma InOrder.insert (ordered : l.InOrder tick)
    (numbers : l.timed → ∀ {expiry x}, (.at expiry, x) ∈ l.entries → expiry.isNaN = false)
    (number : l.timed → ∀ {expiry}, wake = .at expiry → expiry.isNaN = false)
    (id : ContinuationId) :
    (l.insert id wake).InOrder tick := by
  cases l with
  | time t =>
    cases wake with
    | «at» expiry =>
      exact Timeline.sorted_insert ordered
        (fun x queued => numbers rfl (List.mem_map_of_mem queued)) (number rfl rfl) id
    | on => exact ordered
  | events l =>
    cases wake with
    | «at» => exact ordered
    | on discriminator =>
      refine ⟨ordered.1, fun x waits => ?_⟩
      rcases List.mem_append.1 waits with old | new
      · exact ordered.2 x old
      · cases List.mem_singleton.1 new
        exact ordered.1

lemma entries_post? {event} (posted : l.post? event = some l') :
    l'.entries = l.entries := by
  cases l with
  | time t => cases posted
  | events l =>
    cases posted
    rfl

lemma InOrder.post? {event} (ordered : l.InOrder tick) (posted : l.post? event = some l') :
    l'.InOrder tick := by
  cases l with
  | time t => cases posted
  | events l =>
    cases posted
    exact ordered

/-! ## Taking out what is due -/

/-- Whether one of some events wakes a listener in a tick. -/
def woken (tick : Nat) (events : List String) (x : Listener) : Bool :=
  x.armed < tick && events.contains x.discriminator

/-- Handing out events wakes the listeners that wait for one of them, each once. -/
lemma dispatch_filter (tick : Nat) (events : List String) (waiting : List Listener) :
    (Listeners.dispatch tick events waiting).1.Perm
      ((waiting.filter (woken tick events)).map (·.id)) ∧
      (Listeners.dispatch tick events waiting).2 = waiting.filter (!woken tick events ·) := by
  induction events generalizing waiting with
  | nil =>
    have none_woken : woken tick [] = fun _ => false := funext fun x => Bool.and_false _
    simp only [none_woken, Bool.not_false, List.filter_false, List.filter_true]
    exact ⟨.refl _, rfl⟩
  | cons event events ih =>
    have either : ∀ x, woken tick (event :: events) x =
        (Listeners.Matches tick event x || woken tick events x) := by
      intro x
      simp only [woken, Listeners.Matches, List.contains_cons, Bool.and_or_distrib_left]
      rfl
    obtain ⟨ready, left⟩ := ih (waiting.filter (!Listeners.Matches tick event ·))
    constructor
    · -- of those that wait for one of the events, some wait for the first one
      have parts := List.filter_append_perm (Listeners.Matches tick event)
        (waiting.filter (woken tick (event :: events)))
      have first : (waiting.filter (woken tick (event :: events))).filter
        (Listeners.Matches tick event) =
          waiting.filter (Listeners.Matches tick event) := by
        rw [List.filter_filter]
        refine List.filter_congr fun x _ => ?_
        rw [either]
        cases Listeners.Matches tick event x <;> rfl
      have later : (waiting.filter (woken tick (event :: events))).filter
        (!Listeners.Matches tick event ·) =
          (waiting.filter (!Listeners.Matches tick event ·)).filter (woken tick events) := by
        rw [List.filter_filter, List.filter_filter]
        refine List.filter_congr fun x _ => ?_
        rw [either]
        cases Listeners.Matches tick event x <;> simp
      rw [first, later] at parts
      refine .trans ?_ (parts.map (·.id))
      rw [List.map_append]
      exact ready.append_left _
    · refine left.trans ?_
      rw [List.filter_filter]
      refine List.filter_congr fun x _ => ?_
      rw [either]
      cases Listeners.Matches tick event x <;> cases woken tick events x <;> rfl

/-- What is taken out of a list in order is what is due. -/
lemma ready_perm (ordered : l.InOrder tick) (now : Binary64) :
    (l.takeReady now (tick + 1)).1.Perm ((l.entries.filter (l.due now ·.1)).map (·.2)) := by
  cases l with
  | time t =>
    change ((t.queue.take (t.reached now)).map (·.2)).Perm _
    rw [← (Timeline.divides_reached ordered now).filter_eq, entries, List.filter_map, List.map_map]
    exact .refl _
  | events l =>
    obtain ⟨ready, -⟩ := dispatch_filter (tick + 1) l.events l.waiting
    have armed : ∀ x ∈ l.waiting, woken (tick + 1) l.events x =
        l.events.contains x.discriminator := by
      intro x waits
      rw [woken, decide_eq_true (Nat.lt_succ_of_le (ordered.2 x waits)), Bool.true_and]
    change (Listeners.dispatch (tick + 1) l.events l.waiting).1.Perm _
    rw [entries, List.filter_map, List.map_map]
    rw [List.filter_congr armed] at ready
    exact ready

/-- What is left in a list was there before. -/
lemma mem_entries_of_left (entry : (wake, id) ∈ (l.takeReady now tick).2.entries) :
    (wake, id) ∈ l.entries := by
  cases l with
  | time t =>
    obtain ⟨x, queued, same⟩ := List.mem_map.1 entry
    exact List.mem_map.2 ⟨x, (List.drop_sublist _ _).subset queued, same⟩
  | events l =>
    obtain ⟨x, waits, same⟩ := List.mem_map.1 entry
    change x ∈ (Listeners.dispatch tick l.events l.waiting).2 at waits
    rw [(dispatch_filter tick l.events l.waiting).2] at waits
    exact List.mem_map.2 ⟨x, List.mem_of_mem_filter waits, same⟩

/-- A list is in order after each tick. -/
lemma InOrder.takeReady (ordered : l.InOrder tick) (now : Binary64) :
    (l.takeReady now (tick + 1)).2.InOrder (tick + 1) := by
  cases l with
  | time t => exact List.Pairwise.sublist (List.drop_sublist _ _) ordered
  | events l =>
    obtain ⟨-, left⟩ := dispatch_filter (tick + 1) l.events l.waiting
    refine ⟨Nat.le_refl _, fun x waits => ?_⟩
    have waited : x ∈ l.waiting := by
      change x ∈ (Listeners.dispatch (tick + 1) l.events l.waiting).2 at waits
      rw [left] at waits
      exact List.mem_of_mem_filter waits
    exact Nat.le_succ_of_le (ordered.2 x waited)

/-- A continuation that waits once in a list in order is taken out, once, exactly if it is due. -/
lemma count_takeReady (ordered : l.InOrder tick) (now : Binary64) (once : l.ids.count id = 1)
    (entry : (wake, id) ∈ l.entries) :
    (l.takeReady now (tick + 1)).1.count id = if l.due now wake then 1 else 0 := by
  rw [(ready_perm ordered now).count_eq]
  obtain ⟨before, after, split⟩ := List.append_of_mem entry
  have counted := once
  rw [← map_entries, split, List.map_append, List.map_cons, List.count_append,
    List.count_cons_self] at counted
  -- no other entry is for this continuation, so only this one counts
  have others : ∀ {part : List (Wake × ContinuationId)}, (part.map (·.2)).count id = 0 →
      ((part.filter (l.due now ·.1)).map (·.2)).count id = 0 := by
    intro part absent
    refine List.count_eq_zero.2 fun listed => List.count_eq_zero.1 absent ?_
    obtain ⟨x, kept, same⟩ := List.mem_map.1 listed
    exact List.mem_map.2 ⟨x, List.mem_of_mem_filter kept, same⟩
  rw [split, List.filter_append, List.map_append, List.count_append, others (by omega),
    Nat.zero_add, List.filter_cons]
  split
  · rw [List.map_cons, List.count_cons_self, others (by omega)]
  · exact others (by omega)

end WaitList

namespace Agenda

variable {a a' : Agenda} {id x : ContinuationId} {k c : Continuation} {flying : List ContinuationId}
  {names : List String} {l : WaitList} {wake : Wake} {timed : Prop}

/-- All expiries are numbers. -/
def Numeric (a : Agenda) : Prop :=
  ∀ {id k expiry}, a.get? id = some k → k.wake = .at expiry → expiry.isNaN = false

instance (a : Agenda) : Decidable a.Numeric :=
  decidable_of_iff (∀ e ∈ a.continuations.toList, e.2.wake.isNumber) <| by
    constructor
    · intro numbers id k expiry found wake
      have number := numbers (id.id, k) (Arena.mem_toList.2 found)
      rw [wake] at number
      exact (Bool.not_eq_true' _).mp number
    · intro numeric e listed
      have found : a.get? ⟨e.1⟩ = some e.2 := Arena.mem_toList.1 listed
      cases wake : e.2.wake with
      | «at» expiry => exact (Bool.not_eq_true' _).mpr (numeric found wake)
      | on => rfl

/-- The lists hold what the continuations wait for. Those for events are in order, and those of
expiries too if it matters. -/
structure Ordered (timed : Prop) (a : Agenda) : Prop where
  ordered : ∀ {name l}, (name, l) ∈ a.lists → (l.timed → timed) → l.InOrder a.tick
  stamped : ∀ {name l wake id}, (name, l) ∈ a.lists → (wake, id) ∈ l.entries →
    ∃ k, a.get? id = some k ∧ k.wake = wake

namespace Ordered

/-- It is enough to look at each list that is changed. -/
private lemma of_map (change : String → WaitList → WaitList)
    (lists : a'.lists = a.lists.map fun x => (x.1, change x.1 x.2))
    (kind : ∀ {name l}, (name, l) ∈ a.lists → (change name l).takes = l.takes)
    (ordered : ∀ {name l}, (name, l) ∈ a.lists → (l.timed → timed) →
      (change name l).InOrder a'.tick)
    (stamped : ∀ {name l wake id}, (name, l) ∈ a.lists → (wake, id) ∈ (change name l).entries →
      ∃ k, a'.get? id = some k ∧ k.wake = wake) : a'.Ordered timed := by
  have origin : ∀ {name l}, (name, l) ∈ a'.lists → ∃ l₀, (name, l₀) ∈ a.lists ∧
      change name l₀ = l := by
    intro name l listed
    rw [lists] at listed
    obtain ⟨⟨n, l₀⟩, before, same⟩ := List.mem_map.1 listed
    cases same
    exact ⟨l₀, before, rfl⟩
  refine ⟨fun {name l} listed matters => ?_, fun {name l wake id} listed entry => ?_⟩
  · obtain ⟨l₀, before, rfl⟩ := origin listed
    rw [WaitList.timed, kind before] at matters
    exact ordered before matters
  · obtain ⟨l₀, before, rfl⟩ := origin listed
    exact stamped before entry

lemma numbers (ok : a.Ordered timed) (numeric : a.Numeric) {name} (listed : (name, l) ∈ a.lists)
    {expiry} (entry : (.at expiry, id) ∈ l.entries) :
    expiry.isNaN = false := by
  obtain ⟨k, found, wake⟩ := ok.stamped listed entry
  exact numeric found wake

/-- A continuation is put into its list. -/
private lemma insertInto (ok : a.Ordered timed) (numeric : timed → a.Numeric)
    (lists : a'.lists = a.lists.map fun x => (x.1, WaitList.insertInto k.list id k.wake x.1 x.2))
    (tick : a'.tick = a.tick)
    (number : timed → ∀ {expiry}, k.wake = .at expiry → expiry.isNaN = false)
    (new : ∃ k', a'.get? id = some k' ∧ k'.wake = k.wake)
    (old : ∀ {name l wake x}, (name, l) ∈ a.lists → (wake, x) ∈ l.entries →
      ∃ k', a'.get? x = some k' ∧ k'.wake = wake) : a'.Ordered timed := by
  refine of_map _ lists (fun {name l} _ => l.takes_insertInto _ _ _ _)
    (fun {name l} listed matters => ?_) fun {name l wake x} listed entry => ?_
  · rw [tick]
    unfold WaitList.insertInto
    split
    · exact (ok.ordered listed matters).insert (fun h => ok.numbers (numeric (matters h)) listed)
        (fun h => number (matters h)) id
    · exact ok.ordered listed matters
  · unfold WaitList.insertInto at entry
    split at entry
    · rcases WaitList.mem_entries_insert entry with before | ⟨rfl, rfl⟩
      · exact old listed before
      · exact new
    · exact old listed entry

/-- Lists are in order after an insertion. -/
private lemma insert (ok : a.Ordered timed) (numeric : timed → a.Numeric)
    (numeric' : timed → (a.insert k).2.Numeric) : (a.insert k).2.Ordered timed := by
  have there : (a.insert k).2.get? a.issue = some (k.adopt a.issue k.parent a.issue) := by
    rw [get?_insert, if_pos rfl]
    rfl
  refine ok.insertInto numeric (a.lists_insert k) (a.tick_insert k) (fun matters _ wake =>
    numeric' matters there wake)
    ⟨_, there, rfl⟩ ?_
  intro name l wake x listed entry
  obtain ⟨k', found, rfl⟩ := ok.stamped listed entry
  refine ⟨k'.adopt x k.parent a.issue, ?_, rfl⟩
  rw [get?_insert, if_neg (ne_issue found), found]
  rfl

/-- Lists are in order after an event. -/
private lemma post {list event} (ok : a.Ordered timed) (distinct : (a.lists.map (·.1)).Nodup)
    (posted : a.post list event = .ok a') :
    a'.Ordered timed := by
  obtain ⟨l', l'', found, posted', rfl⟩ := post_cases posted
  have same : ∀ {name l}, (name, l) ∈ a.lists → name = list → l = l' := by
    rintro name l listed rfl
    rw [list?_of_mem distinct listed] at found
    exact Option.some.inj found
  refine of_map (fun name l => if name = list then l'' else l) (a.lists_modifyList _ _) ?_ ?_ ?_
  · intro name l listed
    split
    case isTrue named =>
      rw [same listed named]
      exact WaitList.takes_post? posted'
    case isFalse => rfl
  · intro name l listed matters
    split
    case isTrue named =>
      obtain rfl := same listed named
      exact (ok.ordered listed matters).post? posted'
    case isFalse => exact ok.ordered listed matters
  · intro name l wake x listed entry
    split at entry
    · rw [WaitList.entries_post? posted'] at entry
      exact ok.stamped (mem_lists found) entry
    · exact ok.stamped listed entry

private lemma takeReady (ok : a.Ordered timed) (now : Binary64) :
    (a.takeReady now).2.Ordered timed := by
  rw [takeReady_eq]
  refine of_map (fun _ l => (l.takeReady now (a.tick + 1)).2) rfl
    (fun {_ l} _ => l.takes_takeReady _ _)
    (fun listed matters => (ok.ordered listed matters).takeReady now)
      fun {name l wake x} listed entry => ?_
  exact ok.stamped listed (WaitList.mem_entries_of_left entry)

/-- Lists are in order after a loss. -/
private lemma drops {gone} (ok : a.Ordered timed) (x : Drops gone a a') :
    a'.Ordered timed := by
  refine of_map (fun _ l => l.keep (· ∉ gone)) x.lists (fun {_ l} _ => l.takes_keep _)
    (fun listed matters => ?_) fun {name l wake id} listed entry => ?_
  · rw [x.tick]
    exact (ok.ordered listed matters).keep _
  · rw [WaitList.entries_keep, List.mem_filter, decide_eq_true_iff] at entry
    obtain ⟨k, found, wake⟩ := ok.stamped listed entry.1
    exact ⟨_, x.get_of_not_mem entry.2 found, wake⟩

/-- Lists are in order after a retirement. -/
private lemma retire (ok : a.Ordered timed) (tidy : a.Tidy) (found : a.get? id = some c) :
    (a.retire id).2.Ordered timed := by
  obtain ⟨a', dropped, whole⟩ := retire_eq tidy found
  obtain ⟨continuations, orphaned, -⟩ := a'.orphan_eq c.children
  have left := ok.drops dropped
  rw [whole]
  refine of_map (fun _ l => l) ?_ (fun _ => rfl) ?_ ?_ (a := a')
  · rw [orphaned]
    exact (List.map_id' _).symm
  · rw [orphaned]
    exact left.ordered
  · intro name l wake x listed entry
    obtain ⟨k, there, rfl⟩ := left.stamped listed entry
    refine ⟨{ k with parent := if x ∈ c.children then none else k.parent }, ?_, rfl⟩
    rw [get?_orphan, there]
    rfl

/-- What is armed again was in flight, so no list holds what it waited for before. -/
private lemma rearm (ok : a.Ordered timed) (waits : Waits names a flying) (due : id ∈ flying)
    (found : a.get? id = some c) (numeric : timed → a.Numeric)
    (numeric' : timed →
      ((a.set id (rearmed c)).modifyList (rearmed c).list (·.insert id (rearmed c).wake)).Numeric) :
    ((a.set id (rearmed c)).modifyList (rearmed c).list (·.insert id (rearmed c).wake)).Ordered
      timed := by
  have there := get?_rearm found (rearmed c).list (·.insert id (rearmed c).wake)
  have new := there id
  rw [found] at new
  simp only [Option.map_some, if_true] at new
  refine ok.insertInto numeric (lists_insertInto _ _ _ _) rfl (fun matters => numeric' matters new)
    ⟨_, new, rfl⟩ ?_
  intro name l wake x listed entry
  have differ : x ≠ id := by
    rintro rfl
    exact waits.unlisted due listed (WaitList.mem_ids_of_mem_entries entry)
  obtain ⟨k, found', wake⟩ := ok.stamped listed entry
  refine ⟨k, ?_, wake⟩
  rw [there, found']
  simp only [Option.map_some, differ, if_false]

/-- Each of the things that can be asked keeps the lists in order, if all expiries are numbers. -/
lemma serves {s s'} (served : Serves s s') (waits : Waits names s.1 s.2) (ok : s.1.Ordered timed)
    (numeric : timed → s.1.Numeric) (numeric' : timed → s'.1.Numeric) :
    s'.1.Ordered timed := by
  cases served with
  | @register a flying call registers =>
    obtain same | ⟨k, -, -, -, inserted⟩ := Call.perform_of_registers registers a
    · rw [same]
      exact ok
    · rw [inserted] at numeric' ⊢
      exact ok.insert numeric numeric'
  | @post a flying list event =>
    cases posted : a.post list event with
    | ok a' =>
      simp only [Call.perform, posted]
      exact Ordered.post ok waits.distinct posted
    | error =>
      simp only [Call.perform, posted]
      exact ok
  | takeReady now => exact Ordered.takeReady ok now
  | @rearmOrRetire a flying id result due settled =>
    obtain ⟨c, found, rfl | armed⟩ := rearmOrRetire_cases settled
    · exact Ordered.retire ok waits.tidy found
    · rw [armed] at numeric' ⊢
      exact Ordered.rearm ok waits due found numeric numeric'
  | cancel id =>
    obtain ⟨gone, dropped, -⟩ := drops_cancel waits.tidy id
    exact Ordered.drops ok dropped
  | cancelFiber f =>
    obtain ⟨gone, dropped, -⟩ := drops_cancelFiber waits.tidy f
    exact Ordered.drops ok dropped

end Ordered

/-- Empty lists are in order. -/
lemma ordered_ofLists (timed : Prop) (names : List String) : (ofLists names).Ordered timed := by
  have empty : ∀ {name l}, (name, l) ∈ (ofLists names).lists → l = .events {} ∨ l = .time {} := by
    intro name l listed
    have found := list?_of_mem (waits_ofLists names).distinct listed
    rw [list?_ofLists] at found
    split at found
    · exact .inl (Option.some.inj found).symm
    · split at found
      · exact .inr (Option.some.inj found).symm
      · cases found
  refine ⟨fun listed _ => ?_, fun listed entry => ?_⟩
  · obtain rfl | rfl := empty listed
    · exact ⟨Nat.zero_le _, fun _ waits => absurd waits List.not_mem_nil⟩
    · exact .nil
  · obtain rfl | rfl := empty listed
    · exact absurd entry List.not_mem_nil
    · exact absurd entry List.not_mem_nil

/-- Whether what is waited for has come on a list. -/
def due (a : Agenda) (list : String) (now : Binary64) (wake : Wake) : Bool :=
  (a.list? list).any (·.due now wake)

/-- A tick takes out a continuation that waits exactly if it is due, and only once. -/
lemma count_takeReady (ok : Waits names a flying) (ordered : a.Ordered timed)
    (found : a.get? id = some k) (fits : k.Fits names)
    (matters : (WaitList.time {}).takes k.wake → timed) (grounded : id ∉ flying) (now : Binary64) :
    (a.takeReady now).1.count id = if a.due k.list now k.wake then 1 else 0 := by
  obtain ⟨l, list⟩ := Option.isSome_iff_exists.1 (ok.home found).1
  have takes := (ok.takes_iff found list).2 fits
  have once := ok.once found list
  rw [if_pos takes, List.count_eq_zero.2 grounded] at once
  have elsewhere : ∀ n l', (n, l') ∈ a.lists → n ≠ k.list → id ∉ l'.ids := by
    intro n l' listed other waits
    obtain ⟨k', found', named, -⟩ := ok.tidy.listed listed waits
    rw [found] at found'
    cases found'
    exact other named.symm
  obtain ⟨wake, entry⟩ : ∃ wake, (wake, id) ∈ l.entries := by
    have waits : id ∈ l.ids := List.count_pos_iff.1 (by omega)
    rw [← WaitList.map_entries] at waits
    obtain ⟨⟨wake, x⟩, entry, rfl⟩ := List.mem_map.1 waits
    exact ⟨wake, entry⟩
  obtain ⟨k', found', rfl⟩ := ordered.stamped (mem_lists list) entry
  rw [found] at found'
  cases found'
  rw [takeReady_eq, due, list]
  exact (Waits.count_ready now (a.tick + 1) ok.distinct list elsewhere).trans
    (WaitList.count_takeReady (ordered.ordered (mem_lists list) fun kind =>
      matters (WaitList.takes_time kind takes))
      now once entry)

end Agenda

end FiberVM
