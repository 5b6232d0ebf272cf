import FiberVM.Proofs.Agenda.Waiting

/-!
# Why continuations are lost

A continuation is lost because something is done to it, or to one above it: the one above is
cancelled, or the fiber to which it is bound is. A relation between what is lost, the topmost one
and the fiber of the topmost one says what was done (`Agenda.Loses`). Nothing that was registered
before comes to be beneath something else, so the path to what is lost is there from the beginning,
and losses add up.
-/

namespace FiberVM.Agenda

/-- A later agenda has lost continuations for reasons that are given. -/
structure Loses (C : ContinuationId → ContinuationId → FiberId → Prop) (a a' : Agenda) : Prop where
  persists : Persists a a'
  /-- What was registered before becomes no child. -/
  child : ∀ {p id}, id.id < a.continuations.next → a'.Child p id → a.Child p id
  /-- What is lost descends from something to which something was done. -/
  cause : ∀ {id k}, a.get? id = some k → a'.get? id = none →
    ∃ top f r, a.Descends top id ∧ a.bond? top = some (f, r) ∧ C id top f

variable {a a' a'' : Agenda} {id top : ContinuationId} {f : FiberId} {k : Continuation}
  {C C' : ContinuationId → ContinuationId → FiberId → Prop}

namespace Loses

lemma mono (x : Loses C a a') (given : ∀ id top f, C id top f → C' id top f) : Loses C' a a' where
  persists := x.persists
  child := x.child
  cause found gone := by
    obtain ⟨top, f, r, path, bound, cause⟩ := x.cause found gone
    exact ⟨top, f, r, path, bound, given _ _ _ cause⟩

/-- Where continuations and their children are as before, nothing is lost. -/
lemma of_get? (same : ∀ id, a'.get? id = a.get? id)
    (next : a'.continuations.next = a.continuations.next) :
    Loses C a a' where
  persists := ⟨Nat.le_of_eq next.symm, fun id _ => .inr (by rw [bond?, same, bond?])⟩
  child := by
    rintro p id - ⟨k, found, listed⟩
    exact ⟨k, (same p).symm.trans found, listed⟩
  cause found gone := by
    rw [same, found] at gone
    cases gone

lemma refl (a : Agenda) : Loses C a a := .of_get? (fun _ => rfl) rfl

/-- What descends from something was registered beneath it before. -/
lemma descends (x : Loses C a a') (path : a'.Descends top id)
    (issued : id.id < a.continuations.next) :
    a.Descends top id ∧ top.id < a.continuations.next := by
  induction path using Relation.ReflTransGen.head_induction_on with
  | refl => exact ⟨.refl, issued⟩
  | head step _ ih =>
    obtain ⟨k, found, listed⟩ := x.child ih.2 step
    exact ⟨.head ⟨k, found, listed⟩ ih.1, lt_next_of_bond? (bond?_of_get? found)⟩

lemma trans (x : Loses C a a') (y : Loses C a' a'') : Loses C a a'' where
  persists := x.persists.trans y.persists
  child issued child :=
    x.child issued (y.child (Nat.lt_of_lt_of_le issued x.persists.next_le) child)
  cause {id k} found gone := by
    cases between : a'.get? id with
    | none => exact x.cause found between
    | some k' =>
      have issued := lt_next_of_bond? (bond?_of_get? found)
      obtain ⟨top, f, r, path, bound, cause⟩ := y.cause between gone
      obtain ⟨path', issued'⟩ := x.descends path issued
      -- what the topmost one is bound to has not changed
      rcases x.persists.bond top issued' with lost | kept
      · rw [lost] at bound
        cases bound
      · exact ⟨top, f, r, path', kept.symm.trans bound, cause⟩

end Loses

/-! ## What calls lose -/

/-- Taking continuations out loses them. -/
lemma Drops.loses {gone} (x : Drops gone a a')
    (cause : ∀ id ∈ gone, ∃ top f r, a.Descends top id ∧ a.bond? top = some (f, r) ∧ C id top f) :
    Loses C a a' where
  persists := by
    refine ⟨Nat.le_of_eq x.next.symm, fun id _ => ?_⟩
    rw [bond?, x.get]
    split
    · exact .inl rfl
    · rw [Option.map_map]
      exact .inr rfl
  child _ := x.child
  cause {id k} found lost := by
    refine cause id ?_
    rw [x.get, found] at lost
    split at lost
    case isTrue taken => exact taken
    case isFalse => cases lost

/-- An insertion loses nothing. -/
lemma loses_insert (a : Agenda) (k : Continuation) (childless : k.children = []) :
    Loses C a (a.insert k).2 where
  persists := (a.gains_insert k).persists
  child {p id} issued child := by
    obtain ⟨k', found, listed⟩ := child
    obtain ⟨k₀, origin, rfl⟩ := get?_insert_cases found
    rcases Continuation.mem_children_adopt.1 listed with old | ⟨rfl, -⟩
    · rcases origin with ⟨-, rfl⟩ | before
      · rw [childless] at old
        cases old
      · exact ⟨k₀, before, old⟩
    · exact absurd issued (Nat.lt_irrefl _)
  cause {id k'} found gone := by
    have bound := (a.gains_insert k).bond id
    rw [bond?_eq_none.2 gone, bond?_of_get? found] at bound
    split at bound <;> cases bound

/-- A call that registers loses nothing. -/
lemma loses_of_registers {call : Call} (registers : call.registers) (a : Agenda) :
    Loses C a (call.perform a) := by
  obtain same | ⟨k, childless, -, -, inserted⟩ := Call.perform_of_registers registers a
  · rw [same]
    exact .refl a
  · rw [inserted]
    exact a.loses_insert k childless

lemma loses_post {list event} (posted : a.post list event = .ok a') : Loses C a a' := by
  obtain ⟨l, l', -, -, rfl⟩ := post_cases posted
  exact .of_get? (fun _ => rfl) rfl

lemma loses_takeReady (a : Agenda) (now : Binary64) : Loses C a (a.takeReady now).2 :=
  .of_get? (fun _ => rfl) rfl

/-- Cancelling a continuation loses what is beneath it. -/
lemma loses_cancel (tidy : a.Tidy) (id : ContinuationId) :
    Loses (fun _ top _ => top = id) a (a.cancel id).2 := by
  obtain ⟨gone, dropped, exactly⟩ := drops_cancel tidy id
  refine dropped.loses fun x lost => ?_
  obtain ⟨there, top, listed, path⟩ := (exactly x).1 lost
  obtain rfl := List.mem_singleton.1 listed
  cases found : a.get? top with
  | none =>
    rw [path.eq_of_gone found, found] at there
    cases there
  | some k => exact ⟨top, k.fiber, k.cell, path, bond?_of_get? found, rfl⟩

/-- Cancelling the continuations of a fiber loses what is beneath them. -/
lemma loses_cancelFiber (tidy : a.Tidy) (f : FiberId) :
    Loses (fun _ _ g => g = f) a (a.cancelFiber f).2 := by
  obtain ⟨gone, dropped, exactly⟩ := drops_cancelFiber tidy f
  refine dropped.loses fun x lost => ?_
  obtain ⟨-, top, listed, path⟩ := (exactly x).1 lost
  obtain ⟨k, found, fiber⟩ := tidy.owned listed
  exact ⟨top, k.fiber, k.cell, path, bond?_of_get? found, fiber⟩

/-- Settling a continuation loses no other one. -/
lemma loses_rearmOrRetire (tidy : a.Tidy) {result} (settled : a.rearmOrRetire id = .ok result) :
    Loses (fun lost _ _ => lost = id) a result.2 := by
  have persists : Persists a result.2 := by
    obtain ⟨cell, later⟩ := result
    exact (sheds_rearmOrRetire settled).persists
  obtain ⟨c, found, rfl | armed⟩ := rearmOrRetire_cases settled
  · obtain ⟨a', dropped, whole⟩ := retire_eq tidy found
    have first : Loses (fun lost _ _ => lost = id) a a' := by
      refine dropped.loses fun x lost => ?_
      obtain rfl := List.mem_singleton.1 lost
      exact ⟨x, c.fiber, c.cell, .refl, bond?_of_get? found, rfl⟩
    rw [whole] at persists ⊢
    refine ⟨persists, fun issued child => first.child issued ?_, fun there gone =>
      first.cause there ?_⟩
    · obtain ⟨k, left, listed⟩ := child
      rw [get?_orphan] at left
      obtain ⟨k₀, before, rfl⟩ := Option.map_eq_some_iff.1 left
      exact ⟨k₀, before, listed⟩
    · rw [get?_orphan] at gone
      exact Option.map_eq_none_iff.1 gone
  · rw [armed] at persists ⊢
    refine ⟨persists, fun {p x} _ child => ?_, fun {x k} there gone => ?_⟩
    · obtain ⟨k, left, listed⟩ := child
      rw [get?_rearm found] at left
      obtain ⟨k₀, before, rfl⟩ := Option.map_eq_some_iff.1 left
      refine ⟨k₀, before, ?_⟩
      split at listed
      · obtain ⟨wake, recurrence, whole, -⟩ := rearmed_eq k₀
        rw [whole] at listed
        exact listed
      · exact listed
    · rw [get?_rearm found, there] at gone
      cases gone

end FiberVM.Agenda
