import FiberVM.Proofs.Agenda.Firing

/-!
# Events and those who listen for them

A tick hands out all events that were posted since the tick before it, and takes a listener out at
the first of them that it waits for. So a listener that recurs for ever is taken out once by each
tick that hands out one of its events, however many of them there are. It hears each event exactly
if no tick hands out two.
-/

namespace FiberVM

/-- The events that a list is to hand out. -/
def WaitList.queued : WaitList → List String
  | time _ => []
  | events l => l.events

namespace WaitList

lemma queued_insertInto (into : String) (id : ContinuationId) (wake : Wake) (name : String)
    (l : WaitList) :
    (insertInto into id wake name l).queued = l.queued := by
  rw [insertInto]
  split
  · cases l <;> cases wake <;> rfl
  · rfl

lemma queued_keep (p : ContinuationId → Bool) (l : WaitList) : (l.keep p).queued = l.queued := by
  cases l <;> rfl

lemma queued_takeReady (l : WaitList) (now : Binary64) (tick : Nat) :
    (l.takeReady now tick).2.queued = [] := by
  cases l <;> rfl

lemma due_on (l : WaitList) (now : Binary64) (event : String) :
    l.due now (.on event) = l.queued.contains event := by
  cases l <;> rfl

end WaitList

namespace Agenda

variable {a a' : Agenda} {id : ContinuationId} {k : Continuation} {flying : List ContinuationId}
  {names : List String} {list event : String} {call : Call} {calls : List Call} {now : Binary64}
  {timed : Prop}

/-- The events that the list of a name is to hand out. -/
def queued (a : Agenda) (list : String) : List String := ((a.list? list).map (·.queued)).getD []

lemma due_on (a : Agenda) (list : String) (now : Binary64) (event : String) :
    a.due list now (.on event) = (a.queued list).contains event := by
  rw [due, queued]
  cases a.list? list with
  | none => rfl
  | some l => exact l.due_on now event

/-! ## What calls do to the events -/

/-- The events of a list that is changed are those of the changed list. -/
private lemma queued_map (change : String → WaitList → WaitList)
    (lists : a'.lists = a.lists.map fun x => (x.1, change x.1 x.2)) (list : String) :
    a'.queued list = ((a.list? list).map fun l => (change list l).queued).getD [] := by
  rw [queued, list?, lists, lookup_map, Option.map_map]
  rfl

private lemma queued_of_map (change : String → WaitList → WaitList)
    (lists : a'.lists = a.lists.map fun x => (x.1, change x.1 x.2))
    (same : ∀ name l, (change name l).queued = l.queued) (list : String) :
    a'.queued list = a.queued list := by
  rw [queued_map change lists]
  simp only [same]
  rfl

private lemma queued_drops {gone} (dropped : Drops gone a a') (list : String) :
    a'.queued list = a.queued list :=
  queued_of_map _ dropped.lists (fun _ l => l.queued_keep _) list

/-- What a call posts: a list and an event. -/
def Call.posts? : Call → Option (String × String)
  | post list event => some (list, event)
  | _ => none

/-- Only posting and ticks change the events that are to be handed out. -/
lemma queued_perform (tidy : a.Tidy) (turn : call.InTurn a flying) (untimed : call.time? = none)
    (silent : call.posts? = none) (list : String) :
    (call.perform a).queued list = a.queued list := by
  have registered : call.registers → (call.perform a).queued list = a.queued list := by
    intro registers
    obtain same | ⟨k, -, -, -, inserted⟩ := Call.perform_of_registers registers a
    · rw [same]
    · rw [inserted]
      exact queued_of_map _ (a.lists_insert k) (WaitList.queued_insertInto _ _ _) list
  cases call with
  | register | registerAt | registerOn => exact registered rfl
  | post => cases silent
  | takeReady => cases untimed
  | rearmOrRetire x =>
    cases settled : a.rearmOrRetire x with
    | error => simp only [Call.perform, settled]
    | ok result =>
      simp only [Call.perform, settled]
      obtain ⟨k, found, rfl | armed⟩ := rearmOrRetire_cases settled
      · obtain ⟨a', dropped, whole⟩ := retire_eq tidy found
        obtain ⟨continuations, orphaned, -⟩ := a'.orphan_eq k.children
        rw [whole, orphaned]
        exact queued_drops dropped list
      · rw [armed]
        exact queued_of_map _ (lists_insertInto _ _ _ _) (WaitList.queued_insertInto _ _ _) list
  | cancel x =>
    obtain ⟨gone, dropped, -⟩ := drops_cancel tidy x
    exact queued_drops dropped list
  | cancelFiber f =>
    obtain ⟨gone, dropped, -⟩ := drops_cancelFiber tidy f
    exact queued_drops dropped list
  | addTimeline | addListeners => exact turn.elim

lemma queued_takeReady (a : Agenda) (now : Binary64) (list : String) :
    (a.takeReady now).2.queued list = [] := by
  rw [takeReady_eq, queued_map (fun _ l => (l.takeReady now (a.tick + 1)).2) rfl]
  cases a.list? list with
  | none => rfl
  | some l => exact l.queued_takeReady now _

/-- A list of the given names takes events. -/
lemma Waits.list?_events (ok : Waits names a flying) (listed : list ∈ names) :
    ∃ l, a.list? list = some (.events l) := by
  have kind := ok.kind list
  rw [list?_ofLists, if_pos listed] at kind
  obtain ⟨l, found, takes⟩ := Option.map_eq_some_iff.1 kind
  cases l with
  | time => exact absurd (congrFun takes (.at .zero)).symm Bool.false_ne_true
  | events l => exact ⟨l, found⟩

/-- An event that is posted is handed out after the others of its list. -/
lemma Waits.queued_post (ok : Waits names a flying) (listed : list ∈ names) (into event : String) :
    (Call.perform (.post into event) a).queued list =
      if into = list then a.queued list ++ [event] else a.queued list := by
  by_cases same : into = list
  · subst same
    obtain ⟨l, found⟩ := ok.list?_events listed
    have posted : a.post into event = .ok (a.modifyList into fun _ => .events (l.post event)) := by
      rw [Agenda.post, found]
      rfl
    simp only [Call.perform, posted, if_true]
    rw [queued_map (fun name l₀ => if name = into then .events (l.post event) else l₀)
      (a.lists_modifyList into _), queued, found]
    simp only [Option.map_some, if_true]
    rfl
  · rw [if_neg same]
    cases posted : a.post into event with
    | error => simp only [Call.perform, posted]
    | ok a' =>
      obtain ⟨l, l', -, -, rfl⟩ := post_cases posted
      have other : list ≠ into := fun h => same h.symm
      simp only [Call.perform, posted]
      rw [queued_map (fun name l₀ => if name = into then l' else l₀) (a.lists_modifyList into _),
        queued]
      simp only [other, if_false]

/-! ## What ticks hand out -/

/-- How many events of a kind each tick hands out on a list, where so many are to be handed out at
first. -/
def handed (list event : String) : Nat → List Call → List Nat
  | _, [] => []
  | pending, .takeReady _ :: rest => pending :: handed list event 0 rest
  | pending, call :: rest =>
    handed list event (if call.posts? = some (list, event) then pending + 1 else pending) rest

lemma handed_of_untimed (untimed : call.time? = none) (pending : Nat) :
    handed list event pending (call :: calls) =
      handed list event (if call.posts? = some (list, event) then pending + 1 else pending)
        calls := by
  cases call with
  | takeReady => cases untimed
  | _ => rfl

/-- Between two ticks each event adds one to the queue. -/
private lemma Orderly.count_queued (run : Orderly timed names a flying (call :: calls))
    (listed : list ∈ names) (untimed : call.time? = none) (event : String) :
    ((call.perform a).queued list).count event =
      if call.posts? = some (list, event) then (a.queued list).count event + 1
      else (a.queued list).count event := by
  cases posts : call.posts? with
  | none =>
    rw [queued_perform run.steady.waits.tidy run.turn.1 untimed posts,
      if_neg (Option.some_ne_none _).symm]
  | some posted =>
    obtain ⟨into, new⟩ := posted
    obtain rfl : call = .post into new := by
      cases call with
      | post => cases posts; rfl
      | _ => cases posts
    rw [run.steady.waits.queued_post listed]
    by_cases same : into = list
    · subst same
      rw [if_pos rfl, List.count_append, List.count_singleton]
      by_cases heard : new = event
      · rw [if_pos (beq_iff_eq.2 heard), if_pos (by rw [heard])]
      · rw [if_neg fun h => heard (eq_of_beq h), if_neg fun h =>
          heard (Prod.mk.inj (Option.some.inj h)).2]
        rfl
    · rw [if_neg same, if_neg fun h => same (Prod.mk.inj (Option.some.inj h)).1]

/-- Each tick finds the events that were posted since the tick before it. -/
lemma Orderly.map_ticks_queued (run : Orderly timed names a flying calls) (listed : list ∈ names)
    (event : String) :
    (ticks a calls).map (fun t => (t.1.queued list).count event) =
      handed list event ((a.queued list).count event) calls := by
  induction calls generalizing a flying with
  | nil => rfl
  | cons call rest ih =>
    have later := ih run.next
    cases time : call.time? with
    | some now =>
      obtain rfl := Call.eq_takeReady time
      rw [ticks_takeReady, List.map_cons, handed]
      apply congrArg (_ :: ·)
      have none_left : ((a.takeReady now).2.queued list).count event = 0 := by
        rw [queued_takeReady]
        exact List.count_nil
      rw [← none_left]
      exact later
    | none =>
      rw [ticks_of_untimed time, handed_of_untimed time, later, run.count_queued listed time]

/-- A continuation that recurs for ever and waits for an event is armed again as it was. -/
private lemma rearmed_of_forever (wake : k.wake = .on event) (forever : k.recurrence < 0) :
    rearmed k = k := by
  have last : ¬ 0 < k.recurrence := by
    rw [Int64.lt_iff_toInt_lt] at forever ⊢
    omega
  rw [Continuation.rearmed_eq, if_neg last, wake, Wake.again, ← wake]

/-- What recurs for ever fires in every tick with its event. -/
private lemma firings_of_forever (wake : k.wake = .on event) (forever : k.recurrence < 0)
    (ticks : List (Agenda × Binary64)) :
    k.firings (ticks.map fun t => t.1.due list t.2) =
      ticks.map fun t => (t.1.queued list).contains event := by
  have more : k.recurrence ≠ 0 := by
    intro last
    rw [last] at forever
    exact absurd forever (by decide)
  induction ticks with
  | nil => rfl
  | cons t later ih =>
    rw [List.map_cons, List.map_cons, Continuation.firings, wake, due_on, if_neg more,
      rearmed_of_forever wake forever, ih]
    cases (t.1.queued list).contains event <;> rfl

/-- An event counts once, however often it is queued. -/
private lemma toNat_contains (events : List String) (event : String) :
    (events.contains event).toNat = min 1 (events.count event) := by
  cases heard : events.contains event with
  | true =>
    have counted := List.count_pos_iff.2 (List.contains_iff_mem.1 heard)
    exact (Nat.min_eq_left counted).symm
  | false =>
    have absent : event ∉ events := fun h =>
      Bool.false_ne_true (heard.symm.trans (List.contains_iff_mem.2 h))
    rw [List.count_eq_zero.2 absent]
    rfl

/-- In a run in turn, a continuation that listens for an event for ever and is not cancelled is
taken out once by each tick that hands out the event, and by no other tick. So it is taken out once
for every event exactly if no tick hands out two of them. It is never retired. -/
theorem heard_once_a_tick (listed : list ∈ names) {before later : List Call}
    {parent : Option ContinuationId} {fiber : FiberId} {cell : Ref} {pc : Nat} {recurrence : Int64}
    (forever : recurrence < 0)
    (turn : InTurn (ofLists names) []
      (before ++ .registerOn parent fiber cell list event pc recurrence :: later))
    (registered : ((ofLists names).after before).registerOn parent fiber cell list event pc
      recurrence = .ok (id, a))
    (spared : Throughout (Spares id) a later) :
    let posted := handed list event ((a.queued list).count event) later
    (ticks a later).map (timesTaken id) = posted.map (min 1) ∧
      ((ticks a later).map (timesTaken id) = posted ↔ ∀ n ∈ posted, n ≤ 1) ∧
      ((a.after later).get? id).isSome := by
  intro posted
  have whole : Orderly False names (ofLists names) [] _ :=
    ⟨steady_ofLists False names, turn, False.elim⟩
  obtain ⟨flying, run⟩ := whole.rest
  generalize (ofLists names).after before = a₀ at *
  let k : Continuation := ⟨fiber, cell, parent, [], pc, .on event, recurrence, .zero, list⟩
  have inserted : a₀.registerOn parent fiber cell list event pc recurrence =
      .ok (a₀.issue, (a₀.insert k).2) := by
    obtain ⟨l, found⟩ := run.steady.waits.list?_events listed
    rw [registerOn, found]
    rfl
  obtain ⟨rfl, rfl⟩ : a₀.issue = id ∧ (a₀.insert k).2 = a :=
    Prod.mk.inj (Except.ok.inj (inserted.symm.trans registered))
  have next : Orderly False names (a₀.insert k).2 flying later := by
    have next := run.next
    simp only [Call.perform, inserted] at next
    exact next
  have fits : k.Fits names := by
    intro (named : list = timeName)
    rw [← named]
    exact listed
  have holds := run.steady.holds_insert fits fun time => absurd time Bool.false_ne_true
  have fired := holds.firings next spared
  rw [Phase.firings, firings_of_forever (k := k.core) rfl forever, List.map_map] at fired
  have heard : (ticks (a₀.insert k).2 later).map (timesTaken a₀.issue) = posted.map (min 1) := by
    have found : posted = _ := (next.map_ticks_queued listed event).symm
    rw [fired, found, List.map_map]
    exact List.map_congr_left fun t _ => toNat_contains _ event
  refine ⟨heard, ?_, ?_⟩
  · rw [heard]
    conv_lhs => rhs; rw [← List.map_id posted]
    rw [List.map_inj_left]
    exact forall₂_congr fun n _ => min_eq_right_iff
  · have settled := (holds.settlements next spared).there
    exact settled.2 (.inl (Int64.lt_iff_toInt_lt.1 forever))

/-- A continuation that listens for ever. -/
def endlessListener : Call := .registerOn none ⟨0⟩ ⟨0⟩ "pointer" "down" 7 (-1)

/-- Two ticks, each with one event that is heard. -/
def oneEventPerTick : List Call :=
  [.post "pointer" "down", .post "pointer" "up", .takeReady .zero, .rearmOrRetire ⟨0⟩,
    .post "pointer" "down", .takeReady .zero, .rearmOrRetire ⟨0⟩, .takeReady .zero]

/-- One tick with two events that are heard, and one without any. -/
def twoEventsInTick : List Call :=
  [.post "pointer" "down", .post "pointer" "down", .takeReady .zero, .rearmOrRetire ⟨0⟩,
    .takeReady .zero]

/-- Where events come one at a time, each of them is heard. -/
theorem heard_once_a_tick_oneEventPerTick :
    (ticks (endlessListener.perform (ofLists ["pointer"])) oneEventPerTick).map (timesTaken ⟨0⟩) =
      [1, 1, 0] := by
  have turn : InTurn (ofLists ["pointer"]) [] ([] ++ endlessListener :: oneEventPerTick) := by
    decide +kernel
  have spared : Throughout (Spares ⟨0⟩) (endlessListener.perform (ofLists ["pointer"]))
      oneEventPerTick := by decide +kernel
  have registered : (ofLists ["pointer"]).registerOn none ⟨0⟩ ⟨0⟩ "pointer" "down" 7 (-1) =
      .ok (⟨0⟩, endlessListener.perform (ofLists ["pointer"])) := rfl
  obtain ⟨-, each, -⟩ := heard_once_a_tick (by decide) (by decide) turn registered spared
  have posted : handed "pointer" "down"
    (((endlessListener.perform (ofLists ["pointer"])).queued "pointer").count "down")
      oneEventPerTick = [1, 1, 0] := by decide +kernel
  rw [posted] at each
  exact each.2 (by decide)

/-- Two events that one tick hands out are heard as one: the other is missed. -/
theorem missed_of_twoEventsInTick :
    InTurn (ofLists ["pointer"]) [] (endlessListener :: twoEventsInTick) ∧
      Throughout (Spares ⟨0⟩) (endlessListener.perform (ofLists ["pointer"])) twoEventsInTick ∧
      handed "pointer" "down" 0 twoEventsInTick = [2, 0] ∧
      (ticks (endlessListener.perform (ofLists ["pointer"])) twoEventsInTick).map (timesTaken ⟨0⟩) =
        [1, 0] := by
  decide +kernel

end Agenda

end FiberVM
