import FiberVM.Proofs.Agenda.Firing

/-!
# Whom events wake

Events are handed out one after the other, and each takes its listeners out, so that an event that
was handed out before finds none left. All events together therefore wake, for each of them where it
is first handed out, those who listen for it and were armed before, in the order in which they came
(`Listeners.takeReady_eq`).

A listener is armed in the latest tick of its list, which is never ahead of the agenda. So whoever
listens when a tick begins was armed before it (`Agenda.Attentive`).
-/

namespace FiberVM

namespace Listeners

variable {tick : Nat} {event : String} {waiting : List Listener}

/-- Those whom some events wake in a tick: for each event, where it is first among them, those who
listen for it. -/
def roused (tick : Nat) (events : List String) (waiting : List Listener) : List Listener :=
  events.eraseDups.flatMap fun event => waiting.filter (Matches tick event)

lemma matches_iff {x} :
    Matches tick event x ↔ x.armed < tick ∧ x.discriminator = event := by
  rw [Matches, Bool.and_eq_true, decide_eq_true_iff, decide_eq_true_iff]

/-- An event for which nobody listens may be left out. -/
lemma dispatch_skip (deaf : ∀ x ∈ waiting, Matches tick event x = false) (events : List String) :
    dispatch tick events waiting = dispatch tick (events.filter (!· == event)) waiting := by
  induction events generalizing waiting with
  | nil => rfl
  | cons first rest ih =>
    rw [List.filter_cons]
    split
    case isTrue other =>
      have left : ∀ x ∈ waiting.filter (!Matches tick first ·), Matches tick event x = false :=
        fun x waits => deaf x (List.mem_of_mem_filter waits)
      rw [dispatch, dispatch, ih left]
    case isFalse same =>
      obtain rfl : first = event := by simpa using same
      have nobody : waiting.filter (Matches tick first) = [] :=
        List.filter_eq_nil_iff.2 fun x waits => Bool.eq_false_iff.1 (deaf x waits)
      have everybody : waiting.filter (!Matches tick first ·) = waiting :=
        List.filter_eq_self.2 fun x waits => by rw [deaf x waits]; rfl
      rw [dispatch, nobody, everybody, ih deaf]
      rfl

/-- Whoever listens for another event is left when an event is handed out. -/
private lemma filter_left {other} (differ : other ≠ event) (waiting : List Listener) :
    (waiting.filter (!Matches tick event ·)).filter (Matches tick other) = waiting.filter
      (Matches tick other) := by
  rw [List.filter_filter]
  refine List.filter_congr fun x _ => ?_
  cases listens : Matches tick other x with
  | false => rfl
  | true =>
    have deaf : Matches tick event x = false := Bool.eq_false_iff.2 fun heard =>
      differ ((matches_iff.1 listens).2.symm.trans (matches_iff.1 heard).2)
    rw [deaf]
    rfl

/-- The first event wakes those who listen for it, and the others wake those whom they wake without
them. -/
private lemma roused_cons (tick : Nat) (event : String) (events : List String)
    (waiting : List Listener) :
    roused tick (event :: events) waiting =
      waiting.filter (Matches tick event) ++
        roused tick (events.filter (!· == event)) (waiting.filter (!Matches tick event ·)) := by
  rw [roused, List.eraseDups_cons, List.flatMap_cons, roused]
  refine congrArg _ (List.flatMap_congr fun other listed => (filter_left ?_ waiting).symm)
  exact bne_iff_ne.1 (List.mem_filter.1 (List.mem_eraseDups.1 listed)).2

/-- Handing out events wakes those whom the events wake together, and leaves the others. -/
lemma dispatch_roused (bound : Nat) {events : List String} (short : events.length ≤ bound)
    (waiting : List Listener) :
    (dispatch tick events waiting).1 = (roused tick events waiting).map (·.id) ∧
      (roused tick events waiting ++ (dispatch tick events waiting).2).Perm waiting := by
  induction bound generalizing events waiting with
  | zero =>
    obtain rfl := List.eq_nil_of_length_eq_zero (Nat.le_zero.1 short)
    exact ⟨rfl, .refl _⟩
  | succ bound ih =>
    cases events with
    | nil => exact ⟨rfl, .refl _⟩
    | cons event rest =>
      -- the first event leaves nobody who listens for it, so it may be taken out of the others
      have deaf : ∀ x ∈ waiting.filter (!Matches tick event ·), Matches tick event x = false :=
        fun x waits =>
        (Bool.not_eq_true' _).mp (List.mem_filter.1 waits).2
      have shorter : (rest.filter (!· == event)).length ≤ bound :=
        Nat.le_trans (List.length_filter_le _ _) (Nat.le_of_succ_le_succ short)
      obtain ⟨ready, parts⟩ := ih shorter (waiting.filter (!Matches tick event ·))
      rw [roused_cons, dispatch, dispatch_skip deaf rest]
      constructor
      · rw [List.map_append, ← ready]
      · rw [List.append_assoc]
        exact (parts.append_left _).trans (List.filter_append_perm _ waiting)

/-- Handing out all posted events wakes those whom they wake together. -/
lemma ready_eq (l : Listeners) (tick : Nat) :
    (l.takeReady tick).1 = (roused tick l.events l.waiting).map (·.id) :=
  (dispatch_roused l.events.length (Nat.le_refl _) l.waiting).1

/-- Nobody is lost and nobody is woken twice. -/
lemma roused_append_perm (l : Listeners) (tick : Nat) :
    (roused tick l.events l.waiting ++ (l.takeReady tick).2.waiting).Perm l.waiting :=
  (dispatch_roused l.events.length (Nat.le_refl _) l.waiting).2

/-- Those who go on waiting keep their order. -/
lemma waiting_takeReady (l : Listeners) (tick : Nat) :
    (l.takeReady tick).2.waiting = l.waiting.filter fun x =>
      ¬(x.armed < tick ∧ x.discriminator ∈ l.events) := by
  refine (WaitList.dispatch_filter tick l.events l.waiting).2.trans (List.filter_congr fun x _ =>
    ?_)
  rw [WaitList.woken, decide_not, Bool.decide_and, List.contains_eq_mem]

/-- Where all are armed before a tick, it wakes whoever listens for one of the events. -/
lemma roused_of_armed (armed : ∀ x ∈ waiting, x.armed < tick) (events : List String) :
    roused tick events waiting = events.eraseDups.flatMap fun event =>
      waiting.filter (·.discriminator = event) := by
  refine List.flatMap_congr fun event _ => List.filter_congr fun x waits => ?_
  rw [Matches, decide_eq_true (armed x waits), Bool.true_and]

end Listeners

namespace Agenda

variable {a a' : Agenda} {id : ContinuationId}

/-- The lists for events are not ahead of the agenda, and nobody was armed later. -/
def Attentive (a : Agenda) : Prop :=
  ∀ x ∈ a.lists, x.2.timed = false → x.2.InOrder a.tick

namespace Attentive

/-- It is enough to look at each list that is changed. -/
private lemma of_map (change : String → WaitList → WaitList)
    (lists : a'.lists = a.lists.map fun x => (x.1, change x.1 x.2))
    (ordered : ∀ x ∈ a.lists, (change x.1 x.2).timed = false → (change x.1 x.2).InOrder a'.tick) :
    a'.Attentive := by
  intro x listed untimed
  rw [lists] at listed
  obtain ⟨before, known, rfl⟩ := List.mem_map.1 listed
  exact ordered before known untimed

/-- Listeners stay attentive when another one comes. -/
private lemma insertInto {into wake} (ok : a.Attentive)
    (lists : a'.lists = a.lists.map fun x => (x.1, WaitList.insertInto into id wake x.1 x.2))
    (tick : a'.tick = a.tick) : a'.Attentive := by
  refine of_map _ lists fun x listed untimed => ?_
  rw [WaitList.timed, WaitList.takes_insertInto] at untimed
  have ordered := ok x listed untimed
  have timeless : ¬ x.2.timed := Bool.eq_false_iff.1 untimed
  rw [tick, WaitList.insertInto]
  split
  · exact ordered.insert (fun timed => absurd timed timeless) (fun timed => absurd timed timeless)
      id
  · exact ordered

/-- Listeners stay attentive when an event comes. -/
private lemma post {list event} (ok : a.Attentive) (posted : a.post list event = .ok a') :
    a'.Attentive := by
  obtain ⟨l, l', found, posted', rfl⟩ := post_cases posted
  refine of_map (fun name x => if name = list then l' else x) (a.lists_modifyList _ _)
    fun x listed untimed => ?_
  split at untimed
  case isTrue named =>
    rw [if_pos named]
    rw [WaitList.timed, WaitList.takes_post? posted'] at untimed
    exact (ok _ (mem_lists found) untimed).post? posted'
  case isFalse named =>
    rw [if_neg named]
    exact ok x listed untimed

private lemma drops {gone} (ok : a.Attentive) (dropped : Drops gone a a') :
    a'.Attentive := by
  refine of_map (a := a) (fun _ l => l.keep (· ∉ gone)) dropped.lists fun x listed untimed => ?_
  rw [WaitList.timed, WaitList.takes_keep] at untimed
  rw [dropped.tick]
  exact (ok x listed untimed).keep _

private lemma addList {list : WaitList} (ok : a.Attentive) (fresh : list.InOrder a.tick)
    (name : String) :
    (a.addList name list).Attentive := by
  intro x listed untimed
  rcases mem_putList listed with rfl | old
  · exact fresh
  · exact ok x old untimed

private lemma retire {k} (ok : a.Attentive) (tidy : a.Tidy) (found : a.get? id = some k) :
    (a.retire id).2.Attentive := by
  obtain ⟨a', dropped, whole⟩ := retire_eq tidy found
  obtain ⟨continuations, orphaned, -⟩ := a'.orphan_eq k.children
  rw [whole, orphaned]
  exact fun x listed untimed => ok.drops dropped x listed untimed

end Attentive

/-- Whatever is asked of an agenda, its lists for events do not get ahead of it. -/
private lemma Effect.attentive {parent} (effect : Effect parent a a') (tidy : a.Tidy)
    (ok : a.Attentive) : a'.Attentive := by
  cases effect with
  | refused => exact ok
  | inserted k => exact ok.insertInto (a.lists_insert k) (a.tick_insert k)
  | posted posted => exact ok.post posted
  | taken now =>
    rw [takeReady_eq]
    refine .of_map (a := a) (fun _ l => (l.takeReady now (a.tick + 1)).2) rfl
      fun x listed untimed => ?_
    rw [WaitList.timed, WaitList.takes_takeReady] at untimed
    exact (ok x listed untimed).takeReady now
  | settled settled =>
    obtain ⟨k, found, rfl | armed⟩ := rearmOrRetire_cases settled
    · exact ok.retire tidy found
    · rw [armed]
      exact ok.insertInto (lists_insertInto _ _ _ _) rfl
  | cancelled id =>
    obtain ⟨gone, dropped, -⟩ := drops_cancel tidy id
    exact ok.drops dropped
  | ended f =>
    obtain ⟨gone, dropped, -⟩ := drops_cancelFiber tidy f
    exact ok.drops dropped
  | listed name empty =>
    obtain rfl | rfl := empty
    · refine ok.addList ?_ name
      exact List.Pairwise.nil
    · refine ok.addList ?_ name
      exact ⟨Nat.zero_le _, fun _ waits => absurd waits List.not_mem_nil⟩

lemma Evolves.attentive (evolved : Evolves a a') (tidy : a.Tidy) (ok : a.Attentive) :
    a'.Attentive := by
  refine (evolved.keeps (P := fun a => a.Tidy ∧ a.Attentive) (fun call a kept => ?_) ⟨tidy, ok⟩).2
  exact ⟨(call.effect a).tidy kept.1, (call.effect a).attentive kept.1 kept.2⟩

lemma evolves_after (calls : List Call) (a : Agenda) : Evolves a (a.after calls) := by
  induction calls generalizing a with
  | nil => exact .refl a
  | cons call rest ih => exact (Evolves.call call a).trans (ih _)

/-- Whoever listens on a list was armed before the tick that is next. -/
lemma armed_lt {names calls name l}
    (list : ((ofLists names).after calls).list? name = some (.events l)) :
    ∀ x ∈ l.waiting, x.armed < ((ofLists names).after calls).tick + 1 := by
  have new : (ofLists names).Attentive := fun x listed untimed =>
    (ordered_ofLists False names).ordered listed fun timed =>
      absurd (untimed.symm.trans timed) Bool.false_ne_true
  have ordered := (evolves_after calls _).attentive (tidy_ofLists names) new _ (mem_lists list) rfl
  exact fun x waits => Nat.lt_succ_of_le (ordered.2 x waits)

/-- A list for events is asked in a tick for those whom its events wake, and they are among those
who are woken. -/
lemma list?_takeReady {name l} (list : a.list? name = some (.events l)) (now : Binary64) :
    (l.takeReady (a.tick + 1)).1 <:+: (a.takeReady now).1 ∧
      (a.takeReady now).2.list? name = some (.events (l.takeReady (a.tick + 1)).2) := by
  rw [takeReady_eq]
  constructor
  · obtain ⟨before, later, split⟩ := List.append_of_mem (mem_lists list)
    rw [split, List.flatMap_append, List.flatMap_cons, ← List.append_assoc]
    exact List.infix_append _ _ _
  · rw [list?, lookup_map a.lists fun _ l => (l.takeReady now (a.tick + 1)).2]
    exact congrArg (Option.map _) list

/-- Handing out the events of a list wakes, for each of them where it was first posted, those who
listen for it and were armed before the tick, in the order in which they came, each of them once. It
leaves the others in their order, and no event. Whatever is asked of an agenda, whoever listens on
one of its lists was armed before the next tick, so that this tick wakes all who listen for an event
that was posted. -/
theorem events_wake_listeners :
    (∀ (l : Listeners) (tick : Nat),
      (l.takeReady tick).1 = (Listeners.roused tick l.events l.waiting).map (·.id) ∧
      (Listeners.roused tick l.events l.waiting ++ (l.takeReady tick).2.waiting).Perm l.waiting ∧
      (l.takeReady tick).2.waiting =
        l.waiting.filter (fun x => ¬(x.armed < tick ∧ x.discriminator ∈ l.events)) ∧
      (l.takeReady tick).2.events = []) ∧
    ∀ (names : List String) (calls : List Call) (a : Agenda) (name : String) (l : Listeners)
      (now : Binary64), (ofLists names).after calls = a → a.list? name = some (.events l) →
        (∀ x ∈ l.waiting, x.armed < a.tick + 1) ∧
        (l.takeReady (a.tick + 1)).1 =
          (l.events.eraseDups.flatMap fun event => l.waiting.filter (·.discriminator = event)).map
            (·.id) ∧
        (l.takeReady (a.tick + 1)).1 <:+: (a.takeReady now).1 ∧
        (a.takeReady now).2.list? name = some (.events (l.takeReady (a.tick + 1)).2) := by
  refine ⟨fun l tick => ?_, ?_⟩
  · exact ⟨l.ready_eq tick, l.roused_append_perm tick, l.waiting_takeReady tick, rfl⟩
  · rintro names calls a name l now rfl list
    have armed := armed_lt list
    refine ⟨armed, ?_, list?_takeReady list now⟩
    rw [Listeners.ready_eq, Listeners.roused_of_armed armed]

/-- A door at which one continuation listens before a tick and three behind it. One event is posted
twice. -/
def listenersAroundTick : List Call :=
  [.registerOn none ⟨0⟩ ⟨0⟩ "door" "shut" 3 0, .takeReady .zero,
    .registerOn none ⟨1⟩ ⟨1⟩ "door" "open" 5 0,
    .registerOn none ⟨0⟩ ⟨0⟩ "door" "shut" 7 2, .registerOn none ⟨0⟩ ⟨0⟩ "door" "jam" 9 0,
    .post "door" "open", .post "door" "shut", .post "door" "open"]

/-- Those who listen at the door. -/
def listenersAfterTick : Listeners where
  waiting := [⟨"shut", ⟨0⟩, 0⟩, ⟨"open", ⟨1⟩, 1⟩, ⟨"shut", ⟨2⟩, 1⟩, ⟨"jam", ⟨3⟩, 1⟩]
  events := ["open", "shut", "open"]
  tick := 1

/-- Three listeners are woken by two events, in the order of the events. -/
theorem events_wake_listeners_listenersAroundTick :
    ((ofLists ["door"]).after listenersAroundTick).list? "door" = some
      (.events listenersAfterTick) ∧
      (∀ x ∈ listenersAfterTick.waiting, x.armed < 2) ∧
        (listenersAfterTick.takeReady 2).1 = [⟨1⟩, ⟨0⟩, ⟨2⟩] ∧
      (((ofLists ["door"]).after listenersAroundTick).takeReady .zero).2.list? "door" =
        some (.events ⟨[⟨"jam", ⟨3⟩, 1⟩], [], 2⟩) := by
  have list : ((ofLists ["door"]).after listenersAroundTick).list? "door" =
      some (.events listenersAfterTick) := by rfl
  obtain ⟨armed, woken, -, left⟩ :=
    events_wake_listeners.2 ["door"] listenersAroundTick _ "door" listenersAfterTick .zero rfl list
  exact ⟨list, armed, woken, left⟩

end Agenda

end FiberVM
