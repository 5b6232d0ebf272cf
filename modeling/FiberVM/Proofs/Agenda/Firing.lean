import FiberVM.Proofs.Agenda.Readiness

/-!
# When continuations fire

A run is a list of calls. Calls are made in turn if only what is in flight is settled, and a tick
begins once everything in flight is settled or gone. A continuation that no call cancels then goes
through phases: it waits, it is in flight, it waits again for the next time, until it is retired.
Which ticks take it out follows from what is due at each of them (`Phase.Holds.firings`), and how it
is settled from its recurrence (`Phase.Holds.settlements`).
-/

namespace FiberVM

/-- What is waited for next, where a time is added to an expiry. -/
def Wake.again (delta : Binary64) : Wake → Wake
  | .at expiry => .at (expiry.add delta)
  | .on discriminator => .on discriminator

namespace Continuation

/-- A continuation apart from its place among others. -/
def core (k : Continuation) : Continuation := { k with parent := none, children := [] }

/-- In which ticks a continuation fires, if each tick says which wakes have come. -/
def firings : Continuation → List (Wake → Bool) → List Bool
  | _, [] => []
  | k, come :: later =>
    if come k.wake then
      true :: if k.recurrence = 0 then later.map fun _ =>
        false else firings (Agenda.rearmed k) later
    else false :: firings k later

/-- A continuation is armed again with the next wake, and for once less unless it recurs for
ever. -/
lemma rearmed_eq (k : Continuation) :
    Agenda.rearmed k =
      { k with
        wake := k.wake.again k.delta
        recurrence := if 0 < k.recurrence then k.recurrence - 1 else k.recurrence } := by
  obtain ⟨fiber, cell, parent, children, pc, wake, recurrence, delta, list⟩ := k
  unfold Agenda.rearmed
  split <;> cases wake <;> rfl

lemma cell_rearmed (k : Continuation) : (Agenda.rearmed k).cell = k.cell := by
  rw [rearmed_eq]

lemma delta_rearmed (k : Continuation) : (Agenda.rearmed k).delta = k.delta := by
  rw [rearmed_eq]

lemma toInt_recurrence_eq_zero (k : Continuation) : k.recurrence.toInt = 0 ↔ k.recurrence = 0 := by
  rw [← Int64.toInt_zero, Int64.toInt_inj]

/-- Arming again takes one from a positive number. -/
lemma toInt_recurrence_rearmed (k : Continuation) :
    (Agenda.rearmed k).recurrence.toInt =
      if 0 < k.recurrence.toInt then k.recurrence.toInt - 1 else k.recurrence.toInt := by
  rw [rearmed_eq]
  have more : 0 < k.recurrence ↔ 0 < k.recurrence.toInt := Int64.lt_iff_toInt_lt
  by_cases recurs : 0 < k.recurrence
  · have once : (1 : Int64) ≤ k.recurrence := by
      have positive := more.1 recurs
      rw [Int64.le_iff_toInt_le, Int64.toInt_one]
      omega
    rw [if_pos (more.1 recurs), if_pos recurs]
    exact Int64.toInt_sub_of_le _ _ (by decide) once
  · rw [if_neg fun h => recurs (more.2 h), if_neg recurs]

/-- Whether a continuation fits depends on its list and on the kind of its wake. -/
lemma fits_congr {k k' : Continuation} {names} (named : k'.list = k.list)
    (takes : ∀ l : WaitList, l.takes k'.wake = l.takes k.wake) : k'.Fits names ↔ k.Fits names := by
  have kind := takes (.time {})
  unfold Fits
  rw [named]
  cases wake : k.wake <;> cases wake' : k'.wake <;> rw [wake, wake'] at kind <;>
    first | exact .rfl | cases kind

end Continuation

namespace Agenda

variable {a a' : Agenda} {id x : ContinuationId} {k c : Continuation} {flying : List ContinuationId}
  {names : List String} {list : String} {call : Call} {calls : List Call} {now : Binary64}
  {timed : Prop}

/-! ## Runs -/

namespace Call

/-- Whether a call may be made while continuations are in flight: these alone are settled, and a
tick begins once each of them is settled or gone. No list is replaced. -/
def InTurn (a : Agenda) (flying : List ContinuationId) : Call → Prop
  | takeReady _ => ∀ id ∈ flying, a.get? id = none
  | rearmOrRetire id => id ∈ flying
  | addTimeline | addListeners _ => False
  | _ => True

/-- What is in flight after a call. -/
def flight (a : Agenda) (flying : List ContinuationId) : Call → List ContinuationId
  | takeReady now => flying ++ (a.takeReady now).1
  | rearmOrRetire id => flying.erase id
  | _ => flying

/-- The time of the tick that a call begins. -/
def time? : Call → Option Binary64
  | takeReady now => some now
  | _ => none

/-- The continuation that a call settles. -/
def settles? : Call → Option ContinuationId
  | rearmOrRetire id => some id
  | _ => none

/-- Whether a call cancels continuations. -/
def cancels : Call → Bool
  | cancel _ | cancelFiber _ => true
  | _ => false

lemma eq_takeReady (timed : call.time? = some now) : call = takeReady now := by
  cases call with
  | takeReady => exact congrArg takeReady (Option.some.inj timed)
  | _ => cases timed

lemma eq_rearmOrRetire (settles : call.settles? = some id) : call = rearmOrRetire id := by
  cases call with
  | rearmOrRetire => exact congrArg rearmOrRetire (Option.some.inj settles)
  | _ => cases settles

instance (a : Agenda) (flying : List ContinuationId) :
    (call : Call) → Decidable (call.InTurn a flying)
  | takeReady _ => inferInstanceAs (Decidable (∀ id ∈ flying, a.get? id = none))
  | rearmOrRetire id => inferInstanceAs (Decidable (id ∈ flying))
  | addTimeline | addListeners _ => inferInstanceAs (Decidable False)
  | register .. | registerAt .. | registerOn .. | post .. | cancel _ | cancelFiber _ =>
    inferInstanceAs (Decidable True)

/-- A call in turn is served, or settles something that is gone. -/
lemma InTurn.serves (turn : call.InTurn a flying) :
    Serves (a, flying) (call.perform a, call.flight a flying) ∨
      call.perform a = a ∧ ∃ id, a.get? id = none ∧ call.flight a flying = flying.erase id := by
  cases call with
  | register | registerAt | registerOn => exact .inl (.register _ rfl)
  | post list event => exact .inl (.post list event)
  | takeReady now => exact .inl (.takeReady now)
  | rearmOrRetire id =>
    cases settled : a.rearmOrRetire id with
    | ok result =>
      simp only [perform, settled]
      exact .inl (.rearmOrRetire turn settled)
    | error =>
      simp only [perform, settled]
      refine .inr ⟨trivial, id, ?_, rfl⟩
      unfold Agenda.rearmOrRetire at settled
      split at settled
      case h_1 gone => exact gone
      case h_2 =>
        split at settled
        · cases settled
        · cases settled
  | cancel id => exact .inl (.cancel id)
  | cancelFiber f => exact .inl (.cancelFiber f)
  | addTimeline | addListeners => exact turn.elim

end Call

/-- The agenda after calls. -/
def after (a : Agenda) (calls : List Call) : Agenda := calls.foldl (fun a call => call.perform a) a

lemma after_cons (a : Agenda) (call : Call) (calls : List Call) :
    a.after (call :: calls) = (call.perform a).after calls := rfl

/-- Calls are made in turn while continuations are in flight. -/
def InTurn : Agenda → List ContinuationId → List Call → Prop
  | _, _, [] => True
  | a, flying, call :: rest =>
    call.InTurn a flying ∧ InTurn (call.perform a) (call.flight a flying) rest

/-- Something holds of each call, where it is made. -/
def Throughout (P : Agenda → Call → Prop) : Agenda → List Call → Prop
  | _, [] => True
  | a, call :: rest => P a call ∧ Throughout P (call.perform a) rest

instance decidableInTurn : (a : Agenda) → (flying : List ContinuationId) → (calls : List Call) →
    Decidable (InTurn a flying calls)
  | _, _, [] => inferInstanceAs (Decidable True)
  | a, flying, call :: rest =>
    have := decidableInTurn (call.perform a) (call.flight a flying) rest
    inferInstanceAs (Decidable (_ ∧ _))

instance decidableThroughout {P : Agenda → Call → Prop} [∀ a call, Decidable (P a call)] :
    (a : Agenda) → (calls : List Call) → Decidable (Throughout P a calls)
  | _, [] => inferInstanceAs (Decidable True)
  | a, call :: rest =>
    have := decidableThroughout (P := P) (call.perform a) rest
    inferInstanceAs (Decidable (_ ∧ _))

/-- The ticks of a run: the agenda where each begins, and its time. -/
def ticks : Agenda → List Call → List (Agenda × Binary64)
  | _, [] => []
  | a, call :: rest => (call.time?.map (a, ·)).toList ++ ticks (call.perform a) rest

/-- What is answered when a continuation is settled. -/
def answers (id : ContinuationId) : Agenda → List Call → List (Except AgendaError (Option Ref))
  | _, [] => []
  | a, call :: rest =>
    (if call.settles? = some id then [(a.rearmOrRetire id).map (·.1)] else []) ++
      answers id (call.perform a) rest

/-- How often a tick takes a continuation out. -/
def timesTaken (id : ContinuationId) (t : Agenda × Binary64) : Nat := (t.1.takeReady t.2).1.count id

lemma ticks_takeReady (a : Agenda) (now : Binary64) (calls : List Call) :
    ticks a (.takeReady now :: calls) = (a, now) :: ticks (a.takeReady now).2 calls := rfl

lemma ticks_of_untimed (untimed : call.time? = none) :
    ticks a (call :: calls) = ticks (call.perform a) calls := by
  rw [ticks, untimed]
  rfl

lemma answers_rearmOrRetire (id : ContinuationId) (a : Agenda) (calls : List Call) :
    answers id a (.rearmOrRetire id :: calls) =
      (a.rearmOrRetire id).map (·.1) :: answers id (Call.perform (.rearmOrRetire id) a) calls :=
  congrArg (· ++ _) (if_pos rfl)

lemma answers_of_ne (other : call.settles? ≠ some id) :
    answers id a (call :: calls) = answers id (call.perform a) calls := by
  rw [answers, if_neg other]
  rfl

/-- A call leaves only numbers as expiries. -/
def LeavesNumbers (a : Agenda) (call : Call) : Prop := (call.perform a).Numeric

/-- A call does not cancel a continuation. -/
def Spares (id : ContinuationId) (a : Agenda) (call : Call) : Prop :=
  call.cancels → (a.get? id).isSome → ((call.perform a).get? id).isSome

instance (a : Agenda) (call : Call) : Decidable (LeavesNumbers a call) :=
  inferInstanceAs (Decidable (call.perform a).Numeric)

instance (id : ContinuationId) (a : Agenda) (call : Call) : Decidable (Spares id a call) :=
  inferInstanceAs (Decidable (_ → _ → _))

/-- What a run in turn keeps: each continuation is in one place, and the lists are in order. -/
structure Steady (timed : Prop) (names : List String) (a : Agenda) (flying : List ContinuationId) :
    Prop where
  waits : Waits names a flying
  ordered : a.Ordered timed
  numeric : timed → a.Numeric

lemma steady_ofLists (timed : Prop) (names : List String) :
    Steady timed names (ofLists names) [] where
  waits := waits_ofLists names
  ordered := ordered_ofLists timed names
  numeric _ {id k _} found := absurd found (ne_ofLists names id k)

lemma Steady.step (ok : Steady timed names a flying) (turn : call.InTurn a flying)
    (numbers : timed → LeavesNumbers a call) :
    Steady timed names (call.perform a) (call.flight a flying) := by
  rcases turn.serves with served | ⟨same, id, gone, flight⟩
  · exact ⟨ok.waits.serves served, Ordered.serves served ok.waits ok.ordered ok.numeric numbers,
      numbers⟩
  · rw [same, flight]
    exact ⟨ok.waits.erase gone, ok.ordered, ok.numeric⟩

/-- A run in turn, where all expiries are numbers if it matters. -/
structure Orderly (timed : Prop) (names : List String) (a : Agenda) (flying : List ContinuationId)
    (calls : List Call) : Prop where
  steady : Steady timed names a flying
  turn : InTurn a flying calls
  numbers : timed → Throughout LeavesNumbers a calls

lemma Orderly.next (run : Orderly timed names a flying (call :: calls)) :
    Orderly timed names (call.perform a) (call.flight a flying) calls :=
  ⟨run.steady.step run.turn.1 fun matters => (run.numbers matters).1, run.turn.2,
    fun matters => (run.numbers matters).2⟩

lemma Orderly.rest {before} (run : Orderly timed names a flying (before ++ calls)) :
    ∃ flying', Orderly timed names (a.after before) flying' calls := by
  induction before generalizing a flying with
  | nil => exact ⟨flying, run⟩
  | cons first rest ih => exact ih run.next

/-! ## What calls leave of a continuation -/

/-- A continuation, apart from its place among others. -/
def core? (a : Agenda) (id : ContinuationId) : Option Continuation := (a.get? id).map (·.core)

private lemma core?_insert (there : a.core? id = some c) (k : Continuation) :
    (a.insert k).2.core? id = some c := by
  obtain ⟨c, found, rfl⟩ := Option.map_eq_some_iff.1 there
  rw [core?, get?_insert, if_neg (ne_issue found), found]
  rfl

lemma core?_insert_issue (a : Agenda) (k : Continuation) :
    (a.insert k).2.core? a.issue = some k.core := by
  rw [core?, get?_insert, if_pos rfl]
  rfl

private lemma core?_drops {gone} (there : a.core? id = some c) (dropped : Drops gone a a')
    (stays : id ∉ gone) : a'.core? id = some c := by
  obtain ⟨c, found, rfl⟩ := Option.map_eq_some_iff.1 there
  rw [core?, dropped.get_of_not_mem stays found]
  rfl

private lemma core?_orphan (a : Agenda) (ids : List ContinuationId) (id : ContinuationId) :
    (a.orphan ids).core? id = a.core? id := by
  rw [core?, get?_orphan, Option.map_map]
  rfl

/-- What is not settled or cancelled stays as it is. -/
lemma core?_perform (tidy : a.Tidy) (there : a.core? id = some c) (other : call.settles? ≠ some id)
    (spared : Spares id a call) : (call.perform a).core? id = some c := by
  have registered : call.registers → (call.perform a).core? id = some c := by
    intro registers
    obtain same | ⟨k, -, -, -, inserted⟩ := Call.perform_of_registers registers a
    · rw [same]
      exact there
    · rw [inserted]
      exact core?_insert there k
  have dropped : ∀ {gone}, call.cancels → Drops gone a (call.perform a) →
      (call.perform a).core? id = some c := by
    intro gone cancels drops
    refine core?_drops there drops fun listed => ?_
    obtain ⟨c, found, rfl⟩ := Option.map_eq_some_iff.1 there
    have left := spared cancels (found ▸ rfl)
    rw [drops.get, if_pos listed] at left
    exact Bool.false_ne_true left
  cases call with
  | register | registerAt | registerOn => exact registered rfl
  | post list event =>
    cases posted : a.post list event with
    | ok a' =>
      obtain ⟨l, l', -, -, rfl⟩ := post_cases posted
      simp only [Call.perform, posted]
      exact there
    | error =>
      simp only [Call.perform, posted]
      exact there
  | takeReady | addTimeline | addListeners => exact there
  | rearmOrRetire x =>
    have differ : id ≠ x := fun same => other (same ▸ rfl)
    cases settled : a.rearmOrRetire x with
    | error =>
      simp only [Call.perform, settled]
      exact there
    | ok result =>
      simp only [Call.perform, settled]
      obtain ⟨k, found, rfl | armed⟩ := rearmOrRetire_cases settled
      · obtain ⟨a', drops, whole⟩ := retire_eq tidy found
        rw [whole, core?_orphan]
        exact core?_drops there drops fun listed => differ (List.mem_singleton.1 listed)
      · rw [armed, core?, get?_rearm found]
        simp only [differ, if_false, Option.map_id']
        exact there
  | cancel x =>
    obtain ⟨gone, drops, -⟩ := drops_cancel tidy x
    exact dropped rfl drops
  | cancelFiber f =>
    obtain ⟨gone, drops, -⟩ := drops_cancelFiber tidy f
    exact dropped rfl drops

/-- A continuation that does not recur is retired: its reference is returned and it is gone. -/
lemma rearmOrRetire_of_last (tidy : a.Tidy) (there : a.core? id = some k)
    (last : k.recurrence = 0) :
    (a.rearmOrRetire id).map (·.1) = .ok (some k.cell) ∧
      (Call.perform (.rearmOrRetire id) a).get? id = none := by
  obtain ⟨c, found, rfl⟩ := Option.map_eq_some_iff.1 there
  have settled : a.rearmOrRetire id = .ok (a.retire id) := by
    rw [rearmOrRetire, found]
    exact if_pos last
  constructor
  · obtain ⟨a', detached, -⟩ := drops_detach tidy found
    rw [settled, retire, detached]
    rfl
  · obtain ⟨a', dropped, whole⟩ := retire_eq tidy found
    simp only [Call.perform, settled]
    rw [whole, get?_orphan, dropped.get, if_pos (List.mem_singleton_self _)]
    rfl

/-- A continuation that recurs is armed again. -/
lemma rearmOrRetire_of_more (there : a.core? id = some k) (more : k.recurrence ≠ 0) :
    (a.rearmOrRetire id).map (·.1) = .ok none ∧
      (Call.perform (.rearmOrRetire id) a).core? id = some (rearmed k) := by
  obtain ⟨c, found, rfl⟩ := Option.map_eq_some_iff.1 there
  have settled : a.rearmOrRetire id =
      .ok (none, (a.set id (rearmed c)).modifyList (rearmed c).list
        (·.insert id (rearmed c).wake)) := by
    rw [rearmOrRetire, found]
    exact if_neg more
  constructor
  · rw [settled]
    rfl
  · simp only [Call.perform, settled]
    rw [core?, get?_rearm found, found]
    simp only [Option.map_some, if_true, Continuation.rearmed_eq]
    rfl

/-- A call that takes nothing out leaves the flight as it is for what it does not settle. -/
private lemma mem_flight (a : Agenda) (flying : List ContinuationId) (untimed : call.time? = none)
    (other : call.settles? ≠ some id) : id ∈ call.flight a flying ↔ id ∈ flying := by
  cases call with
  | takeReady => cases untimed
  | rearmOrRetire x => exact List.mem_erase_of_ne fun same => other (same ▸ rfl)
  | _ => exact .rfl

/-! ## Settling -/

/-- How a continuation is settled that recurs so many times, or for ever: it is armed again each
time until it is retired, and from then on it is gone. -/
structure Settled (recurrence : Int) (cell : Ref) (answers : List (Except AgendaError (Option Ref)))
    (there : Bool) : Prop where
  answer : ∀ (n : Nat) answer, answers[n]? = some answer →
    answer = Except.ok (if (n : Int) = recurrence then some cell else none)
  there : there ↔ recurrence < 0 ∨ answers.length ≤ recurrence
  bound : 0 ≤ recurrence → answers.length ≤ recurrence + 1

namespace Settled

variable {recurrence : Int} {cell : Ref} {answers : List (Except AgendaError (Option Ref))}
  {there : Bool}

lemma nil : Settled recurrence cell [] true where
  answer _ _ found := by cases found
  there := by
    simp only [List.length_nil, Int.natCast_zero, true_iff]
    omega
  bound := by
    simp only [List.length_nil, Int.natCast_zero]
    omega

/-- What does not recur is retired at once. -/
lemma retire (last : recurrence = 0) : Settled recurrence cell [.ok (some cell)] false where
  answer n answer found := by
    obtain ⟨rfl, rfl⟩ : n = 0 ∧ .ok (some cell) = answer := by
      cases n with
      | zero => exact ⟨rfl, Option.some.inj found⟩
      | succ => cases found
    exact congrArg _ (if_pos last.symm).symm
  there := by
    simp only [List.length_singleton, Bool.false_eq_true, false_iff]
    omega
  bound := by
    simp only [List.length_singleton]
    omega

/-- What recurs is armed, and then settled as often as is left. -/
lemma rearm (more : recurrence ≠ 0)
    (later : Settled (if 0 < recurrence then recurrence - 1 else recurrence) cell answers there) :
    Settled recurrence cell (.ok none :: answers) there where
  answer n answer found := by
    cases n with
    | zero =>
      rw [if_neg fun h => more h.symm]
      exact (Option.some.inj found).symm
    | succ n =>
      rw [later.answer n answer found]
      refine congrArg _ (if_congr ?_ rfl rfl)
      split <;> omega
  there := by
    rw [later.there, List.length_cons]
    split <;> omega
  bound := by
    have bound := later.bound
    rw [List.length_cons]
    split at bound <;> omega

end Settled

/-! ## Phases -/

/-- How far a continuation is: it waits, a tick has taken it out, or it is gone for good. -/
inductive Phase where
  | waiting (k : Continuation)
  | taken (k : Continuation)
  | retired

/-- A continuation names a list that takes what it waits for. -/
structure Stands (timed : Prop) (names : List String) (list : String) (id : ContinuationId)
    (a : Agenda) (k : Continuation) : Prop where
  there : a.core? id = some k
  named : k.list = list
  fits : k.Fits names
  /-- The order of expiries matters for a point in time. -/
  matters : (WaitList.time {}).takes k.wake → timed

namespace Stands

lemma quiet (ok : Stands timed names list id a k) (tidy : a.Tidy) (other : call.settles? ≠ some id)
    (spared : Spares id a call) : Stands timed names list id (call.perform a) k :=
  ⟨core?_perform tidy ok.there other spared, ok.named, ok.fits, ok.matters⟩

/-- What is armed again stands in its list as before. -/
lemma rearm (ok : Stands timed names list id a k) (more : k.recurrence ≠ 0) :
    Stands timed names list id (Call.perform (.rearmOrRetire id) a) (rearmed k) := by
  obtain ⟨wake, recurrence, whole, takes⟩ := rearmed_eq k
  refine ⟨(rearmOrRetire_of_more ok.there more).2, ?_, ?_, ?_⟩
  · rw [whole]
    exact ok.named
  · refine (Continuation.fits_congr ?_ fun l => ?_).2 ok.fits
    · rw [whole]
    · rw [whole]
      exact takes l
  · rw [whole]
    exact fun time => ok.matters ((takes _).symm.trans time)

/-- A tick takes out a continuation that waits exactly if what it waits for has come, and only
once. -/
lemma count_takeReady (ok : Stands timed names list id a k) (steady : Steady timed names a flying)
    (grounded : id ∉ flying) (now : Binary64) :
    (a.takeReady now).1.count id = (a.due list now k.wake).toNat := by
  obtain ⟨c, found, rfl⟩ := Option.map_eq_some_iff.1 ok.there
  have counted := Agenda.count_takeReady steady.waits steady.ordered found ok.fits ok.matters
    grounded now
  rw [← ok.named, counted]
  exact (Bool.cond_eq_ite _ _ _).symm

end Stands

namespace Phase

variable {phase : Phase}

/-- A continuation is in a phase. -/
def Holds (timed : Prop) (names : List String) (list : String) (id : ContinuationId) (a : Agenda)
    (flying : List ContinuationId) : Phase → Prop
  | waiting k => Stands timed names list id a k ∧ id ∉ flying
  | taken k => Stands timed names list id a k ∧ id ∈ flying
  | retired => a.get? id = none ∧ id.id < a.continuations.next ∧ id ∉ flying

/-- In which ticks a continuation in a phase fires. -/
def firings : Phase → List (Wake → Bool) → List Bool
  | waiting k, ticks => k.firings ticks
  | taken k, ticks =>
    if k.recurrence = 0 then ticks.map fun _ => false else (rearmed k).firings ticks
  | retired, ticks => ticks.map fun _ => false

/-- The phase after a tick. -/
def tick (due : Wake → Bool) : Phase → Phase
  | waiting k => if due k.wake then taken k else waiting k
  | phase => phase

/-- The phase after a continuation that was taken out is settled. -/
def settle : Phase → Phase
  | taken k => if k.recurrence = 0 then retired else waiting (rearmed k)
  | phase => phase

lemma firings_settle (phase : Phase) : phase.settle.firings = phase.firings := by
  funext ticks
  cases phase with
  | waiting | retired => rfl
  | taken k =>
    rw [settle, firings]
    split <;> rfl

/-- How a continuation in a phase is settled: it is armed again, as often as it recurs, and then
retired. -/
def Settled (answers : List (Except AgendaError (Option Ref))) (there : Bool) : Phase → Prop
  | waiting k | taken k => Agenda.Settled k.recurrence.toInt k.cell answers there
  | retired => answers = [] ∧ there = false

lemma settled_tick {due : Wake → Bool} {answers there} :
    (phase.tick due).Settled answers there ↔ phase.Settled answers there := by
  cases phase with
  | taken | retired => exact .rfl
  | waiting k =>
    rw [tick]
    split <;> exact .rfl

namespace Holds

/-- What is there at first has not been settled. -/
lemma settled (holds : phase.Holds timed names list id a flying) :
    phase.Settled [] (a.get? id).isSome := by
  cases phase with
  | waiting k | taken k =>
    obtain ⟨c, found, -⟩ := Option.map_eq_some_iff.1 holds.1.there
    rw [found]
    exact .nil
  | retired =>
    rw [holds.1]
    exact ⟨rfl, rfl⟩

/-- A call that begins no tick and does not settle the continuation leaves it in its phase. -/
lemma quiet (holds : phase.Holds timed names list id a flying) (tidy : a.Tidy)
    (untimed : call.time? = none) (other : call.settles? ≠ some id) (spared : Spares id a call) :
    phase.Holds timed names list id (call.perform a) (call.flight a flying) := by
  have flies := mem_flight a flying untimed other
  cases phase with
  | waiting k => exact ⟨holds.1.quiet tidy other spared, fun h => holds.2 (flies.1 h)⟩
  | taken k => exact ⟨holds.1.quiet tidy other spared, flies.2 holds.2⟩
  | retired =>
    obtain ⟨gone, issued, grounded⟩ := holds
    have evolved := Evolves.call call a
    exact ⟨bond?_eq_none.1 (evolved.gone issued (bond?_eq_none.2 gone)),
      issued.trans_le evolved.next_le, fun h => grounded (flies.1 h)⟩

/-- A tick takes a continuation out exactly if it waits and what it waits for has come. -/
lemma tick (holds : phase.Holds timed names list id a flying) (steady : Steady timed names a flying)
    (turn : (Call.takeReady now).InTurn a flying) :
    (phase.tick (a.due list now)).Holds timed names list id (a.takeReady now).2
      (flying ++ (a.takeReady now).1) ∧ ∃ fires : Bool, (a.takeReady now).1.count id = fires.toNat ∧
        ∀ later, phase.firings (a.due list now :: later) =
          fires :: (phase.tick (a.due list now)).firings later := by
  cases phase with
  | waiting k =>
    obtain ⟨stands, grounded⟩ := holds
    have stays : Stands timed names list id (a.takeReady now).2 k :=
      ⟨stands.there, stands.named, stands.fits, stands.matters⟩
    have counted := stands.count_takeReady steady grounded now
    rw [Phase.tick]
    cases due : a.due list now k.wake with
    | true =>
      rw [due] at counted
      have ready : id ∈ (a.takeReady now).1 :=
        List.count_pos_iff.1 (Nat.lt_of_lt_of_eq Nat.one_pos counted.symm)
      refine ⟨⟨stays, List.mem_append_right _ ready⟩, true, counted, fun later => ?_⟩
      rw [firings, Continuation.firings, due]
      rfl
    | false =>
      rw [due] at counted
      refine ⟨⟨stays, fun flies => ?_⟩, false, counted, fun later => ?_⟩
      · exact (List.mem_append.1 flies).elim grounded (List.count_eq_zero.1 counted)
      · rw [firings, Continuation.firings, due]
        rfl
  | taken k =>
    obtain ⟨c, found, -⟩ := Option.map_eq_some_iff.1 holds.1.there
    have gone := turn id holds.2
    rw [found] at gone
    cases gone
  | retired =>
    obtain ⟨gone, issued, grounded⟩ := holds
    have absent : id ∉ (a.takeReady now).1 := by
      intro ready
      obtain ⟨k, found⟩ := steady.waits.tidy.ready ready
      rw [gone] at found
      cases found
    exact ⟨⟨gone, issued, fun flies => (List.mem_append.1 flies).elim grounded absent⟩, false,
      List.count_eq_zero.2 absent, fun _ => rfl⟩

/-- Settling a continuation that was taken out arms it again or retires it. -/
lemma settle (holds : phase.Holds timed names list id a flying)
    (steady : Steady timed names a flying) (due : id ∈ flying) :
    phase.settle.Holds timed names list id (Call.perform (.rearmOrRetire id) a)
      (flying.erase id) := by
  cases phase with
  | waiting k => exact absurd due holds.2
  | retired => exact absurd due holds.2.2
  | taken k =>
    obtain ⟨stands, -⟩ := holds
    have grounded : id ∉ flying.erase id := by
      obtain ⟨c, found, rfl⟩ := Option.map_eq_some_iff.1 stands.there
      obtain ⟨l, listed⟩ := Option.isSome_iff_exists.1 (steady.waits.home found).1
      have once := steady.waits.once found listed
      have counted := List.count_pos_iff.2 due
      refine List.count_eq_zero.1 ?_
      rw [List.count_erase_self]
      split at once <;> omega
    rw [Phase.settle]
    by_cases last : k.recurrence = 0
    · rw [if_pos last]
      obtain ⟨c, found, rfl⟩ := Option.map_eq_some_iff.1 stands.there
      have evolved := Evolves.call (.rearmOrRetire id) a
      refine ⟨(rearmOrRetire_of_last steady.waits.tidy stands.there last).2, ?_, grounded⟩
      exact (lt_next_of_bond? (bond?_of_get? found)).trans_le evolved.next_le
    · rw [if_neg last]
      exact ⟨stands.rearm last, grounded⟩

/-- The ticks that take a continuation out are those where it is due, each once. -/
lemma firings (holds : phase.Holds timed names list id a flying)
    (run : Orderly timed names a flying calls) (spared : Throughout (Spares id) a calls) :
    (ticks a calls).map (timesTaken id) =
      (phase.firings ((ticks a calls).map fun t => t.1.due list t.2)).map Bool.toNat := by
  induction calls generalizing a flying phase with
  | nil =>
    cases phase with
    | waiting | retired => rfl
    | taken k =>
      rw [Phase.firings]
      split <;> rfl
  | cons call rest ih =>
    cases time : call.time? with
    | some now =>
      obtain rfl := Call.eq_takeReady time
      obtain ⟨holds', fires, counted, first⟩ := holds.tick run.steady run.turn.1
      have later := ih holds' run.next spared.2
      rw [ticks_takeReady, List.map_cons, List.map_cons, first, List.map_cons, ← counted, later]
      rfl
    | none =>
      rw [ticks_of_untimed time]
      by_cases settles : call.settles? = some id
      · obtain rfl := Call.eq_rearmOrRetire settles
        have later := ih (holds.settle run.steady run.turn.1) run.next spared.2
        rw [firings_settle] at later
        exact later
      · exact ih (holds.quiet run.steady.waits.tidy time settles spared.1) run.next spared.2

/-- A continuation is armed again each time it is settled, until it has recurred often enough. -/
lemma settlements (holds : phase.Holds timed names list id a flying)
    (run : Orderly timed names a flying calls) (spared : Throughout (Spares id) a calls) :
    phase.Settled (answers id a calls) ((a.after calls).get? id).isSome := by
  induction calls generalizing a flying phase with
  | nil => exact holds.settled
  | cons call rest ih =>
    by_cases settles : call.settles? = some id
    · obtain rfl := Call.eq_rearmOrRetire settles
      have later := ih (holds.settle run.steady run.turn.1) run.next spared.2
      rw [answers_rearmOrRetire]
      cases phase with
      | waiting k => exact absurd run.turn.1 holds.2
      | retired => exact absurd run.turn.1 holds.2.2
      | taken k =>
        rw [Phase.settle] at later
        by_cases last : k.recurrence = 0
        · rw [if_pos last] at later
          rw [(rearmOrRetire_of_last run.steady.waits.tidy holds.1.there last).1, later.1,
            after_cons, later.2]
          exact .retire (k.toInt_recurrence_eq_zero.2 last)
        · rw [if_neg last] at later
          rw [(rearmOrRetire_of_more holds.1.there last).1]
          refine .rearm (fun none_left => last (k.toInt_recurrence_eq_zero.1 none_left)) ?_
          rw [← k.toInt_recurrence_rearmed, ← k.cell_rearmed]
          exact later
    · rw [answers_of_ne settles]
      cases time : call.time? with
      | some now =>
        obtain rfl := Call.eq_takeReady time
        have later := ih (holds.tick run.steady run.turn.1).1 run.next spared.2
        exact settled_tick.1 later
      | none => exact ih (holds.quiet run.steady.waits.tidy time settles spared.1) run.next spared.2

end Holds

end Phase

/-- What is registered waits. -/
lemma Steady.holds_insert (ok : Steady timed names a flying) (fits : k.Fits names)
    (matters : (WaitList.time {}).takes k.wake → timed) :
    (Phase.waiting k.core).Holds timed names k.list a.issue (a.insert k).2 flying :=
  ⟨⟨a.core?_insert_issue k, rfl, fits, matters⟩, fun flies =>
    Nat.lt_irrefl _ (ok.waits.issued _ flies)⟩

end Agenda

end FiberVM
