import FiberVM.Proofs.Agenda.Firing

/-!
# Expiries and recurrence

A continuation that waits for a point in time is taken out by the first tick that reaches its
expiry. It is then armed again with an expiry that is later by its delta, as often as it recurs, and
so it is taken out by the first tick that reaches that expiry, and so on. After the last time it is
retired.
-/

namespace FiberVM.Agenda

variable {a : Agenda} {id : ContinuationId} {k : Continuation} {flying : List ContinuationId}
  {names : List String} {calls : List Call} {delta expiry : Binary64} {timed : Prop}

/-- In which ticks at given times something fires that has an expiry and recurs so many times, or
for ever if the number is negative: first when the expiry is reached, then when the next one is. -/
def expirations (delta : Binary64) : Binary64 → Int → List Binary64 → List Bool
  | _, _, [] => []
  | expiry, recurrence, now :: later =>
    if expiry.le now then
      true ::
        if recurrence = 0 then later.map fun _ => false
        else
          expirations delta (expiry.add delta)
            (if 0 < recurrence then recurrence - 1 else recurrence) later
    else false :: expirations delta expiry recurrence later

/-- What recurs so many times fires once more at most. -/
lemma sum_expirations_le (delta expiry : Binary64) {recurrence} (finite : 0 ≤ recurrence)
    (times : List Binary64) :
    ((expirations delta expiry recurrence times).map Bool.toNat).sum ≤ recurrence.toNat + 1 := by
  induction times generalizing expiry recurrence with
  | nil => exact Nat.zero_le _
  | cons now later ih =>
    rw [expirations]
    split
    · rw [List.map_cons, List.sum_cons, Bool.toNat_true, Nat.add_comm]
      apply Nat.succ_le_succ
      by_cases last : recurrence = 0
      · -- nothing fires after the last time
        have silent : ((later.map fun _ => false).map Bool.toNat).sum = 0 := by
          apply List.sum_eq_zero
          intro n listed
          obtain ⟨b, silent, rfl⟩ := List.mem_map.1 listed
          obtain ⟨_, -, rfl⟩ := List.mem_map.1 silent
          rfl
        rw [if_pos last, silent]
        exact Nat.zero_le _
      · have more : 0 < recurrence := by omega
        have rest := ih (expiry.add delta) (Int.le_sub_one_of_lt more)
        rw [if_neg last, if_pos more]
        omega
    · rw [List.map_cons, List.sum_cons, Bool.toNat_false, Nat.zero_add]
      exact ih expiry finite

/-- Where no list for events is called `time`, a point in time has come once its expiry is
reached. -/
lemma Waits.due_timeName (ok : Waits names a flying) (unnamed : timeName ∉ names)
    (now expiry : Binary64) :
    a.due timeName now (.at expiry) = expiry.le now := by
  have kind := ok.kind timeName
  rw [list?_ofLists, if_neg unnamed, if_pos rfl] at kind
  obtain ⟨l, list, takes⟩ := Option.map_eq_some_iff.1 kind
  rw [due, list]
  cases l with
  | time => rfl
  | events => exact absurd (congrFun takes (.at .zero)) Bool.false_ne_true

/-- On the list called `time` an expiry is due once it is reached. -/
lemma Orderly.due_timeName (run : Orderly timed names a flying calls) (unnamed : timeName ∉ names) :
    ∀ t ∈ ticks a calls, ∀ expiry, t.1.due timeName t.2 (.at expiry) = expiry.le t.2 := by
  induction calls generalizing a flying with
  | nil => exact fun t listed => absurd listed List.not_mem_nil
  | cons call rest ih =>
    have later := ih run.next
    cases time : call.time? with
    | none =>
      rw [ticks_of_untimed time]
      exact later
    | some now =>
      obtain rfl := Call.eq_takeReady time
      intro t listed
      rcases List.mem_cons.1 listed with rfl | listed
      · exact run.steady.waits.due_timeName unnamed now
      · exact later t listed

/-- Whether a continuation fires depends on the times of the ticks alone. -/
lemma firings_eq_expirations {ticks : List (Agenda × Binary64)}
    (due : ∀ t ∈ ticks, ∀ expiry, t.1.due timeName t.2 (.at expiry) = expiry.le t.2)
    (wake : k.wake = .at expiry) :
    k.firings (ticks.map fun t => t.1.due timeName t.2) =
      expirations k.delta expiry k.recurrence.toInt (ticks.map (·.2)) := by
  induction ticks generalizing k expiry with
  | nil => rfl
  | cons t later ih =>
    have due' : ∀ t ∈ later, ∀ expiry, t.1.due timeName t.2 (.at expiry) = expiry.le t.2 :=
      fun t listed => due t (List.mem_cons_of_mem _ listed)
    rw [List.map_cons, List.map_cons, Continuation.firings, expirations, wake,
      due t List.mem_cons_self]
    by_cases reached : expiry.le t.2
    · rw [if_pos reached, if_pos reached]
      apply congrArg (true :: ·)
      by_cases last : k.recurrence = 0
      · rw [if_pos last, if_pos (k.toInt_recurrence_eq_zero.2 last), List.map_map, List.map_map]
        rfl
      · rw [if_neg last, if_neg fun h => last (k.toInt_recurrence_eq_zero.1 h)]
        have again : (rearmed k).wake = .at (expiry.add k.delta) := by
          rw [Continuation.rearmed_eq, wake]
          rfl
        have rest := ih due' again
        rw [k.toInt_recurrence_rearmed, k.delta_rearmed] at rest
        exact rest
    · rw [if_neg reached, if_neg reached, ih due' wake]

/-- In a run in turn where all expiries are numbers, a continuation that waits for a point in time
and is not cancelled is taken out by exactly the ticks that reach its expiries, one after the other,
and each of them takes it out once. It is armed again as often as it recurs, and then it is
retired. -/
theorem fires_at_expiries (unnamed : timeName ∉ names) {before later : List Call}
    {parent : Option ContinuationId} {fiber : FiberId} {cell : Ref} {pc : Nat} {recurrence : Int64}
    (turn : InTurn (ofLists names) []
      (before ++ .registerAt parent fiber cell expiry pc recurrence delta :: later))
    (numbers : Throughout LeavesNumbers (ofLists names)
      (before ++ .registerAt parent fiber cell expiry pc recurrence delta :: later))
    (registered : ((ofLists names).after before).registerAt parent fiber cell expiry pc recurrence
      delta = (id, a))
    (spared : Throughout (Spares id) a later) :
    (ticks a later).map (timesTaken id) =
        (expirations delta expiry recurrence.toInt ((ticks a later).map (·.2))).map Bool.toNat ∧
      (0 ≤ recurrence.toInt → ((ticks a later).map (timesTaken id)).sum ≤
        recurrence.toInt.toNat + 1) ∧
      Settled recurrence.toInt cell (answers id a later) ((a.after later).get? id).isSome := by
  have whole : Orderly True names (ofLists names) [] _ :=
    ⟨steady_ofLists True names, turn, fun _ => numbers⟩
  obtain ⟨flying, run⟩ := whole.rest
  generalize (ofLists names).after before = a₀ at *
  let k : Continuation := ⟨fiber, cell, parent, [], pc, .at expiry, recurrence, delta, timeName⟩
  obtain ⟨rfl, rfl⟩ : a₀.issue = id ∧ (a₀.insert k).2 = a := Prod.mk.inj registered
  have holds := run.steady.holds_insert (k := k) unnamed fun _ => trivial
  have due : ∀ t ∈ ticks (a₀.insert k).2 later, ∀ expiry, t.1.due timeName t.2 (.at expiry) =
      expiry.le t.2 :=
    run.next.due_timeName unnamed
  have fired := holds.firings run.next spared
  rw [Phase.firings, firings_eq_expirations due rfl] at fired
  refine ⟨fired, fun finite => ?_, holds.settlements run.next spared⟩
  rw [fired]
  exact sum_expirations_le _ _ finite _

/-- A continuation that recurs once. -/
def recurringOnce : Call := .registerAt none ⟨0⟩ ⟨0⟩ .zero 1 1 .zero

/-- Three ticks, with another continuation that is cancelled while it is in flight. -/
def threeTicks : List Call :=
  [.registerAt none ⟨1⟩ ⟨1⟩ .zero 2 (-1) .zero, .takeReady .zero, .rearmOrRetire ⟨0⟩, .cancel ⟨1⟩,
    .takeReady .zero, .rearmOrRetire ⟨0⟩, .takeReady .zero]

/-- It is taken out twice, and retired when it is settled for the second time. -/
theorem fires_at_expiries_recurringOnce :
    (ticks (recurringOnce.perform (ofLists ["door"])) threeTicks).map (timesTaken ⟨0⟩) = [1, 1, 0] ∧
      Settled 1 ⟨0⟩ (answers ⟨0⟩ (recurringOnce.perform (ofLists ["door"])) threeTicks) false := by
  have turn : InTurn (ofLists ["door"]) [] ([] ++ recurringOnce :: threeTicks) := by decide +kernel
  have numbers : Throughout LeavesNumbers (ofLists ["door"])
      ([] ++ recurringOnce :: threeTicks) := by decide +kernel
  have spared : Throughout (Spares ⟨0⟩) (recurringOnce.perform (ofLists ["door"])) threeTicks := by
    decide +kernel
  have registered : (ofLists ["door"]).registerAt none ⟨0⟩ ⟨0⟩ .zero 1 1 .zero =
      (⟨0⟩, recurringOnce.perform (ofLists ["door"])) := rfl
  obtain ⟨fired, -, settled⟩ := fires_at_expiries (by decide) turn numbers registered spared
  have times : (ticks (recurringOnce.perform (ofLists ["door"])) threeTicks).map (·.2) =
      [.zero, .zero, .zero] := by
    decide +kernel
  have gone : (((recurringOnce.perform (ofLists ["door"])).after threeTicks).get? ⟨0⟩).isSome =
      false := by decide +kernel
  have expected : (expirations .zero .zero 1 [.zero, .zero, .zero]).map Bool.toNat = [1, 1, 0] := by
    decide +kernel
  rw [gone] at settled
  rw [times] at fired
  exact ⟨fired.trans expected, settled⟩

end FiberVM.Agenda
