import FiberVM.Proofs.World.Cancellation
import FiberVM.Proofs.World.Flight

/-!
# What an update runs

An update takes out what is due before it runs anything. From then on it looks at each of these
continuations in turn (`World.turn?`), once, and runs it if it is still registered (`World.run?`).
So it runs nothing that was registered in the meantime, and passes over a continuation exactly if
that was cancelled earlier in the update (`World.Cancels`): its fiber, or the fiber of a
continuation above it, has ended or changed its state, or the host has cancelled it or one above it
while it was called (`update_runs_ready`).
-/

namespace FiberVM

/-- Whether a continuation is registered for a fiber that exists. If it is looked at then a run of
the fiber begins. -/
def Engine.fires (e : Engine) (id : ContinuationId) : Bool :=
  ((e.agenda.get? id).bind fun k => e.fiber? k.fiber).isSome

namespace World

open Engine

variable {c : Conduct} {source : String → Option Image} {config : Config} {names : List String}
  {w w' : World} {H : Multiset Ref} {e : Engine} {calls : List (HostCall × Session)} {depth : Nat}
  {id : ContinuationId} {moves before later : List (World × World)} {m : World × World}

/-- The continuation that the request below which there are so many others runs next. -/
def run? (depth : Nat) (w : World) : Option ContinuationId := (w.turn? depth).filter w.engine.fires

/-- What happens, move by move, until the request below which there are so many others is
answered. -/
inductive During (c : Conduct) (depth : Nat) (w : World) : List (World × World) → World → Prop
  | start : During c depth w [] w
  | move {moves w₁ w₂} (before : During c depth w moves w₁) (busy : depth < w₁.flights.length)
      (move : Move c w₁ w₂) :
      During c depth w (moves ++ [(w₁, w₂)]) w₂

/-- The moves of an engine that takes so many steps at most and stops where the host is needed. -/
def trail (calls : List (HostCall × Session)) (H : Multiset Ref) :
    Nat → Progress → List (World × World)
  | n + 1, .running t => (work t calls H, after calls H t.next) :: trail calls H n t.next
  | _, _ => []

/-- The continuations that a request looks at, in order. -/
def turns (depth : Nat) (moves : List (World × World)) : List ContinuationId :=
  moves.filterMap (·.1.turn? depth)

/-- The continuations that a request runs, in order. -/
def runs (depth : Nat) (moves : List (World × World)) : List ContinuationId :=
  moves.filterMap (·.1.run? depth)

/-- Why what is bound to a fiber is cancelled. -/
inductive Cause (w w' : World) (top : ContinuationId) (f : FiberId) : Prop
  /-- The fiber has ended, by a fault or because it was reaped. -/
  | ended (there : (w.engine.fiber? f).isSome) (gone : w'.engine.fiber? f = none)
  /-- The fiber has changed its state. -/
  | left (leaves : w.Leaves f)
  /-- The host has cancelled the continuation. -/
  | asked (asked : w.Asked w' top)

/-- A move cancels a continuation, or one above it. -/
structure Cancels (m : World × World) (id : ContinuationId) : Prop where
  registered : (m.1.engine.agenda.get? id).isSome
  gone : m.2.engine.agenda.get? id = none
  cause : ∃ top f r, m.1.engine.agenda.Descends top id ∧ m.1.engine.agenda.bond? top = some (f, r) ∧
    Cause m.1 m.2 top f

/-! ## What is left is registered or cancelled -/

/-- What is registered can be run. -/
lemma Staffed.fires_iff (ok : w.Staffed names) :
    w.engine.fires id ↔ (w.engine.agenda.get? id).isSome := by
  obtain ⟨flown, staffed, -⟩ := ok
  unfold Engine.fires
  cases found : w.engine.agenda.get? id with
  | none => rfl
  | some k => exact iff_of_true (staffed.manned (Agenda.bond?_of_get? found)) rfl

/-- What is left of a request is part of what it has in flight. -/
lemma leftAt_cases (depth : Nat) (flights : List Flight) :
    leftAt depth flights = [] ∨ ∃ x ∈ flights, leftAt depth flights = x.left := by
  unfold leftAt
  cases found : flights.reverse[depth]? with
  | none => exact .inl rfl
  | some x => exact .inr ⟨x, List.mem_reverse.1 (List.mem_of_getElem? found), rfl⟩

/-- What a request has yet to look at is not being run. -/
lemma Staffed.not_running {x rest} (ok : w.Staffed names)
    (registered : (w.engine.agenda.get? id).isSome) (listed : id ∈ w.left depth)
    (flights : w.flights = x :: rest) :
    x.running ≠ some id := by
  intro running
  obtain ⟨flown, staffed, enough⟩ := ok
  obtain ⟨k, found⟩ := Option.isSome_iff_exists.1 registered
  have once := staffed.waits.count_le_one found
  have counted := enough.count_le id
  have ids : x.ids = id :: x.left := by rw [Flight.ids, running]; rfl
  rw [World.left, flights] at listed
  rw [flights, List.flatMap_cons, ids, List.count_append, List.count_cons_self] at counted
  rcases leftAt_cases depth (x :: rest) with nothing | ⟨y, within, own⟩
  · rw [nothing] at listed
    cases listed
  rw [own] at listed
  rcases List.mem_cons.1 within with rfl | within
  · have again := List.count_pos_iff.2 listed
    omega
  · have elsewhere : id ∈ rest.flatMap Flight.ids :=
      List.mem_flatMap.2 ⟨y, within, List.mem_append_right _ listed⟩
    have again := List.count_pos_iff.2 elsewhere
    omega

/-- What a request has yet to look at stays registered unless it is cancelled. -/
lemma Move.kept_or_cancels (move : Move c w w') (ok : w.Staffed names) (listed : id ∈ w.left depth)
    (registered : (w.engine.agenda.get? id).isSome) :
    (w'.engine.agenda.get? id).isSome ∨ Cancels (w, w') id := by
  cases gone : w'.engine.agenda.get? id with
  | some k => exact .inl rfl
  | none =>
    obtain ⟨k, found⟩ := Option.isSome_iff_exists.1 registered
    obtain ⟨top, f, r, path, bound, reason⟩ := (move.passes ok).2.loses.cause found gone
    have there : (w.engine.fiber? f).isSome := by
      obtain ⟨flown, staffed, -⟩ := ok
      exact staffed.manned bound
    have cause : Cause w w' top f := by
      rcases reason with done | ⟨flights, running⟩ | leaves | asked
      · exact .ended there done.2
      · exact absurd running (ok.not_running registered listed flights)
      · exact .left leaves
      · exact .asked asked
    exact .inr ⟨registered, gone, top, f, r, path, bound, cause⟩

namespace During

lemma cons {w₁} (busy : depth < w.flights.length) (move : Move c w w₁)
    (during : During c depth w₁ moves w') : During c depth w ((w, w₁) :: moves) w' := by
  induction during with
  | start => exact .move .start busy move
  | move _ busy' move' ih => exact .move ih busy' move'

lemma reaches (during : During c depth w moves w') : Reaches c w w' := by
  induction during with
  | start => exact .refl
  | move _ _ move ih => exact ih.tail move

/-- Every move has something before it and something after it. -/
lemma split (during : During c depth w (before ++ m :: later) w') :
    During c depth w before m.1 ∧ depth < m.1.flights.length ∧ Move c m.1 m.2 ∧
      Reaches c m.2 w' := by
  generalize whole : before ++ m :: later = moves at during
  induction during generalizing later with
  | start => cases List.append_ne_nil_of_right_ne_nil before (List.cons_ne_nil m later) whole
  | @move moves w₁ w₂ earlier busy move ih =>
    rcases List.eq_nil_or_concat later with rfl | ⟨later, last, rfl⟩
    · obtain ⟨rfl, same⟩ := List.append_inj' whole rfl
      cases same
      exact ⟨earlier, busy, move, .refl⟩
    · have parts : (before ++ m :: later) ++ [last] = moves ++ [(w₁, w₂)] := by
        rw [← whole, List.concat_eq_append, List.append_assoc, List.cons_append]
      obtain ⟨before', there, first, rest⟩ := ih (List.append_inj' parts rfl).1
      exact ⟨before', there, first, rest.tail move⟩

/-- A request looks at what it has at first, in order. -/
lemma turns_append_left (during : During c depth w moves w') (ok : w.Staffed names) :
    turns depth moves ++ w'.left depth = w.left depth := by
  induction during with
  | start => rfl
  | @move moves w₁ w₂ earlier busy move ih =>
    rw [← ih, ← move.left (Reaches.staffed earlier.reaches ok) busy, turns, List.filterMap_append,
      List.append_assoc]
    rfl

/-- What a request has yet to look at is still registered, or it was cancelled. -/
lemma kept_or_cancelled (during : During c depth w moves w') (ok : w.Staffed names)
    (registered : ∀ id ∈ w.left depth, (w.engine.agenda.get? id).isSome)
    (listed : id ∈ w'.left depth) :
    (w'.engine.agenda.get? id).isSome ∨ ∃ m ∈ moves, Cancels m id := by
  induction during with
  | start => exact .inl (registered id listed)
  | @move moves w₁ w₂ earlier busy move ih =>
    have ok₁ := Reaches.staffed earlier.reaches ok
    have listed₁ : id ∈ w₁.left depth := by
      rw [← move.left ok₁ busy]
      exact List.mem_append_right _ listed
    rcases ih listed₁ with kept | ⟨m, made, cancels⟩
    · rcases move.kept_or_cancels ok₁ listed₁ kept with kept | cancels
      · exact .inl kept
      · exact .inr ⟨_, List.mem_append_right _ List.mem_cons_self, cancels⟩
    · exact .inr ⟨m, List.mem_append_left _ made, cancels⟩

/-- What was cancelled stays so. -/
lemma gone_of_cancels (during : During c depth w moves w') (sound : w.Sound c) (made : m ∈ moves)
    (cancels : Cancels m id) : w'.engine.agenda.get? id = none := by
  obtain ⟨before, later, rfl⟩ := List.append_of_mem made
  obtain ⟨earlier, -, move, rest⟩ := during.split
  obtain ⟨sound₁, -⟩ := Reaches.sound earlier.reaches sound
  obtain ⟨sound₂, evolved⟩ := move.sound sound₁
  obtain ⟨k, found⟩ := Option.isSome_iff_exists.1 cancels.registered
  have issued := Nat.lt_of_lt_of_le (Agenda.lt_next_of_bond? (Agenda.bond?_of_get? found))
    evolved.next_le
  have gone := (Reaches.sound rest sound₂).2.gone issued (Agenda.bond?_eq_none.2 cancels.gone)
  exact Agenda.bond?_eq_none.1 gone

/-- A request is carried on for any number of steps. -/
lemma trail (p : Progress) (n : Nat) :
    During c calls.length (after calls H p) (trail calls H n p) (after calls H (p.run n)) := by
  induction n generalizing p with
  | zero => cases p <;> exact .start
  | succ n ih =>
    cases p with
    | running t =>
      have busy : calls.length < (work t calls H).flights.length := by
        change calls.length < (calls.map _).length + 1
        rw [List.length_map]
        exact Nat.lt_succ_self _
      exact .cons busy (.step t) (ih t.next)
    | awaiting call s => exact .start
    | done e reply => exact .start

end During

/-- What a request runs is part of what it looks at. -/
lemma runs_sublist_turns (depth : Nat) (moves : List (World × World)) :
    (runs depth moves).Sublist (turns depth moves) := by
  induction moves with
  | nil => exact .refl []
  | cons m rest ih =>
    unfold runs turns run?
    rw [List.filterMap_cons, List.filterMap_cons]
    cases m.1.turn? depth with
    | none => exact ih
    | some id =>
      dsimp only [Option.filter_some]
      split
      case h_1 => exact ih.cons id
      case h_2 fires =>
        split at fires
        · cases fires
          exact ih.cons_cons id
        · cases fires

lemma turn?_of_run? (runs : w.run? depth = some id) :
    w.turn? depth = some id ∧ w.engine.fires id := by
  obtain ⟨turn, fires⟩ := Option.filter_eq_some_iff.1 runs
  exact ⟨turn, fires⟩

/-- What is looked at once runs exactly if it fires then. -/
lemma mem_runs_iff (once : (turns depth (before ++ m :: later)).Nodup)
    (turn : m.1.turn? depth = some id) :
    id ∈ runs depth (before ++ m :: later) ↔ m.1.engine.fires id := by
  constructor
  · intro ran
    obtain ⟨m', made, ran'⟩ := List.mem_filterMap.1 ran
    obtain ⟨turn', fires⟩ := turn?_of_run? ran'
    rw [turns, List.filterMap_append, List.filterMap_cons, turn] at once
    obtain ⟨-, right, apart⟩ := List.nodup_append'.1 once
    rcases List.mem_append.1 made with early | late
    · exact absurd List.mem_cons_self (apart (List.mem_filterMap.2 ⟨m', early, turn'⟩))
    · rcases List.mem_cons.1 late with rfl | late
      · exact fires
      · exact absurd (List.mem_filterMap.2 ⟨m', late, turn'⟩) (List.nodup_cons.1 right).1
  · intro fires
    refine List.mem_filterMap.2 ⟨m, List.mem_append_right _ List.mem_cons_self, ?_⟩
    exact Option.filter_eq_some_iff.2 ⟨turn, fires⟩

/-- A request does not look at anything twice. -/
lemma Staffed.nodup_left (ok : w.Staffed names)
    (registered : ∀ id ∈ w.left depth, (w.engine.agenda.get? id).isSome) :
    (w.left depth).Nodup := by
  obtain ⟨flown, staffed, enough⟩ := ok
  rcases leftAt_cases depth w.flights with nothing | ⟨x, within, own⟩
  · rw [World.left, nothing]
    exact List.nodup_nil
  · refine List.nodup_iff_count_le_one.2 fun id => ?_
    by_cases listed : id ∈ w.left depth
    · obtain ⟨k, found⟩ := Option.isSome_iff_exists.1 (registered id listed)
      have once := staffed.waits.count_le_one found
      have counted := enough.count_le id
      obtain ⟨above, below, flights⟩ := List.append_of_mem within
      rw [flights, List.flatMap_append, List.flatMap_cons, Flight.ids] at counted
      simp only [List.count_append] at counted
      rw [World.left, own]
      omega
    · rw [List.count_eq_zero.2 listed]
      exact Nat.zero_le 1

/-- What is looked at was left before. -/
lemma Move.mem_left (move : Move c w w') (ok : w.Staffed names) (busy : depth < w.flights.length)
    (turn : w.turn? depth = some id) : id ∈ w.left depth := by
  rw [← move.left ok busy, turn]
  exact List.mem_append_left _ (List.mem_singleton_self id)

/-- What is left fires exactly if it was not cancelled before. -/
lemma During.fires_iff (earlier : During c depth w before m.1) (sound : w.Sound c)
    (staffed : w.Staffed names) (registered : ∀ id ∈ w.left depth, (w.engine.agenda.get? id).isSome)
    (listed : id ∈ m.1.left depth) :
    m.1.engine.fires id ↔ ¬ ∃ m' ∈ before, Cancels m' id := by
  rw [(Reaches.staffed earlier.reaches staffed).fires_iff]
  constructor
  · rintro there ⟨m', made, cancels⟩
    rw [earlier.gone_of_cancels sound made cancels] at there
    cases there
  · intro spared
    exact (earlier.kept_or_cancelled staffed registered listed).resolve_right spared

/-! ## Turns -/

/-- A turn of a continuation is one where it is due. -/
lemma eq_work_of_turn? (turn : w.turn? depth = some id) :
    ∃ rest e calls H, w = work (.fire (id :: rest) e) calls H := by
  unfold turn? at turn
  split at turn
  case h_1 first rest e calls H =>
    split at turn
    · cases turn
      exact ⟨rest, e, calls, H, rfl⟩
    · cases turn
  case h_2 => cases turn

/-- If a continuation fires then its fiber begins to run, or fails to. -/
lemma begins_of_turn? (ok : w.Sound c) (turn : w.turn? depth = some id)
    (fires : w.engine.fires id) :
    ∃ k, w.engine.agenda.get? id = some k ∧ (w.Fires id k.fiber ∨
      ∃ fault e', Activation.begin k.fiber (some id) 0 k.pc w.engine = .error fault e') := by
  obtain ⟨rest, e, calls, H, rfl⟩ := eq_work_of_turn? turn
  obtain ⟨x, present⟩ := Option.isSome_iff_exists.1 fires
  obtain ⟨k, registered, present⟩ := Option.bind_eq_some_iff.1 present
  have begun := Session.fire_of_registered (e := e) registered present rest
  have started := Activation.runs_begin k.fiber (some id) 0 k.pc e
    ⟨ok.1, Session.startable_of_bond ok.1 (Agenda.bond?_of_get? registered)⟩
  refine ⟨k, registered, ?_⟩
  cases run : Activation.begin k.fiber (some id) 0 k.pc e with
  | ok a e' =>
    rw [run] at begun started
    exact .inl ⟨_, e, calls, H, _, rfl, begun, rfl, started.2.fiber⟩
  | error fault e' => exact .inr ⟨fault, e', run⟩

/-- If it does not fire then it is passed over, and nothing else happens. -/
lemma Move.engine_of_turn? (move : Move c w w') (ok : w.Staffed names)
    (turn : w.turn? depth = some id) (silent : ¬ w.engine.fires id) : w'.engine = w.engine := by
  obtain ⟨rest, e, calls, H, rfl⟩ := eq_work_of_turn? turn
  cases move
  have gone : e.agenda.get? id = none := by
    rw [ok.fires_iff, Option.not_isSome_iff_eq_none] at silent
    exact silent
  change (after calls H (Session.fire (id :: rest) e)).engine = e
  rw [Session.fire_of_gone gone]
  rfl

/-! ## Updates -/

/-- An update has all that is due left at first. -/
lemma left_update (calls : List (HostCall × Session)) (H : Multiset Ref) (e : Engine)
    (dt : Binary64) :
    (after calls H (e.update dt)).left calls.length = (e.agenda.takeReady (e.now.add dt)).1 := by
  have top := leftAt_top (some ⟨none, (e.agenda.takeReady (e.now.add dt)).1⟩)
    (calls.map (·.2.callers.flight))
  rw [List.length_map] at top
  exact top

/-- What is due is registered. -/
lemma Staffed.registered_of_ready {now} (ok : w.Staffed names)
    (ready : id ∈ (w.engine.agenda.takeReady now).1) : (w.engine.agenda.get? id).isSome := by
  obtain ⟨flown, staffed, -⟩ := ok
  obtain ⟨k, found⟩ := staffed.waits.tidy.ready ready
  exact found ▸ rfl

/-- An update looks at the continuations that were due when it began, each of them once and in
order, and at nothing else. One is passed over exactly if it was cancelled earlier in the update;
any other begins to run, bound as it was at first. Nothing that is registered in the update runs in
it. -/
theorem update_runs_ready {dt : Binary64} {ready : List ContinuationId}
    (reached : Reachable c source config (host e calls H))
    (taken : (e.agenda.takeReady (e.now.add dt)).1 = ready)
    (during : During c calls.length (after calls H (e.update dt)) moves w) :
    ready.Nodup ∧ turns calls.length moves ++ w.left calls.length = ready ∧
      (w.flights.length = calls.length → turns calls.length moves = ready) ∧
      (runs calls.length moves).Sublist ready ∧ (runs calls.length moves).Nodup ∧
      (∀ before m later id, moves = before ++ m :: later → m.1.turn? calls.length = some id →
        (id ∉ runs calls.length moves ↔ ∃ m' ∈ before, Cancels m' id) ∧
          (id ∉ runs calls.length moves → m.2.engine = m.1.engine) ∧
          (id ∈ runs calls.length moves → ∃ k, m.1.engine.agenda.get? id = some k ∧
            e.agenda.bond? id = some (k.fiber, k.cell) ∧ (m.1.Fires id k.fiber ∨
              ∃ fault e', Activation.begin k.fiber (some id) 0 k.pc m.1.engine =
                .error fault e'))) ∧
      ∀ m ∈ moves, ∀ id, m.1.engine.agenda.get? id = none → (m.2.engine.agenda.get? id).isSome →
        id ∉ runs calls.length moves := by
  have staffed₀ := Reachable.staffed reached
  have begun : Move c (host e calls H) (after calls H (e.update dt)) := .request (.update dt)
  obtain ⟨sound, -⟩ := begun.sound (Reachable.sound reached)
  obtain ⟨staffed, -⟩ := begun.passes staffed₀
  have registered : ∀ id ∈ (after calls H (e.update dt)).left calls.length,
      (e.agenda.get? id).isSome := by
    intro id listed
    rw [left_update] at listed
    exact staffed₀.registered_of_ready listed
  have issued : ∀ id ∈ (after calls H (e.update dt)).left calls.length, id.id <
      e.agenda.continuations.next := by
    intro id listed
    obtain ⟨k, found⟩ := Option.isSome_iff_exists.1 (registered id listed)
    exact Agenda.lt_next_of_bond? (Agenda.bond?_of_get? found)
  have nodup := staffed.nodup_left registered
  have turned := during.turns_append_left staffed
  have once : (turns calls.length moves).Nodup := by
    rw [← turned] at nodup
    exact (List.nodup_append.1 nodup).1
  have sub : (runs calls.length moves).Sublist ((after calls H (e.update dt)).left calls.length) :=
    (runs_sublist_turns _ _).trans (turned ▸ List.sublist_append_left _ _)
  rw [← (left_update calls H e dt).trans taken]
  refine ⟨nodup, turned, fun answered => ?_, sub, nodup.sublist sub, ?_, ?_⟩
  · rw [← turned, World.left, leftAt, List.getElem?_eq_none]
    · exact (List.append_nil _).symm
    · rw [List.length_reverse, answered]
  · rintro before m later id rfl turn
    obtain ⟨earlier, busy, move, -⟩ := during.split
    obtain ⟨sound₁, evolved⟩ := Reaches.sound earlier.reaches sound
    have staffed₁ := Reaches.staffed earlier.reaches staffed
    have listed := move.mem_left staffed₁ busy turn
    have due : id ∈ (after calls H (e.update dt)).left calls.length := by
      rw [← earlier.turns_append_left staffed]
      exact List.mem_append_right _ listed
    rw [mem_runs_iff once turn]
    refine ⟨?_, move.engine_of_turn? staffed₁ turn, fun fires => ?_⟩
    · rw [earlier.fires_iff sound staffed registered listed, not_not]
    · obtain ⟨k, found, begins⟩ := begins_of_turn? sound₁ turn fires
      refine ⟨k, found, ?_, begins⟩
      -- It is registered still, so that it is bound as it was.
      rcases evolved.bond id (issued id due) with gone | kept
      · rw [Agenda.bond?_of_get? found] at gone
        cases gone
      · exact kept.symm.trans (Agenda.bond?_of_get? found)
  · intro m made id unknown known ran
    obtain ⟨before, later, rfl⟩ := List.append_of_mem made
    obtain ⟨earlier, -, move, -⟩ := during.split
    obtain ⟨sound₁, evolved⟩ := Reaches.sound earlier.reaches sound
    have issued₁ := Nat.lt_of_lt_of_le (issued id (sub.subset ran)) evolved.next_le
    have gone := (move.sound sound₁).2.gone issued₁ (Agenda.bond?_eq_none.2 unknown)
    rw [Agenda.bond?_eq_none.1 gone] at known
    cases known

/-- An engine with a fiber for which three continuations are due. The second one changes the
state. -/
def threeDue : Engine :=
  ((suspendedWithContinuation.registerAt none ⟨0⟩ .zero 1 0 .zero).2.registerAt none
    ⟨0⟩ .zero 4 0 .zero).2

lemma reachable_threeDue : Reachable c (fun _ => some gotoAfterSuspend) {} (host threeDue [] 0) :=
  .tail (.tail reachable_suspendedWithContinuation (.act (.registerAt none ⟨0⟩ .zero 1 0 .zero)))
    (.act (.registerAt none ⟨0⟩ .zero 4 0 .zero))

/-- The third continuation is cancelled before its turn, and does not run. -/
theorem update_runs_ready_threeDue :
    Reachable .owning (fun _ => some gotoAfterSuspend) {} (host threeDue [] 0) ∧
      (threeDue.agenda.takeReady (threeDue.now.add .zero)).1 = [⟨0⟩, ⟨1⟩, ⟨2⟩] ∧
      runs 0 (trail [] 0 8 (threeDue.update .zero)) = [⟨0⟩, ⟨1⟩] ∧
      ∃ m ∈ trail [] 0 8 (threeDue.update .zero), Cancels m ⟨2⟩ := by
  have ready : (threeDue.agenda.takeReady (threeDue.now.add .zero)).1 = [⟨0⟩, ⟨1⟩, ⟨2⟩] := by
    decide +kernel
  have looked : turns 0 (trail [] 0 8 (threeDue.update .zero)) = [⟨0⟩, ⟨1⟩, ⟨2⟩] := by
    decide +kernel
  have ran : runs 0 (trail [] 0 8 (threeDue.update .zero)) = [⟨0⟩, ⟨1⟩] := by decide +kernel
  refine ⟨reachable_threeDue, ready, ran, ?_⟩
  have third : (⟨2⟩ : ContinuationId) ∈ turns 0 (trail [] 0 8 (threeDue.update .zero)) := by
    rw [looked]
    exact List.mem_cons_of_mem _ (List.mem_cons_of_mem _ List.mem_cons_self)
  have passed : (⟨2⟩ : ContinuationId) ∉ runs 0 (trail [] 0 8 (threeDue.update .zero)) := by
    rw [ran]
    decide
  obtain ⟨m, made, turn⟩ := List.mem_filterMap.1 third
  obtain ⟨before, later, parts⟩ := List.append_of_mem made
  obtain ⟨-, -, -, -, -, turned, -⟩ :=
    update_runs_ready (c := .owning) reachable_threeDue ready (.trail _ 8)
  obtain ⟨m', earlier, cancels⟩ := (turned before m later ⟨2⟩ parts turn).1.1 passed
  exact ⟨m', parts ▸ List.mem_append_left _ earlier, cancels⟩

end World

end FiberVM
