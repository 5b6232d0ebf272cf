import FiberVM.Proofs.Agenda.Dispatch

/-!
# Cancelling subtrees

Cancelling goes through what is pending, one continuation after the other: one that is gone is
passed over, and one that is taken out leaves its children in its place (`Agenda.Cancels`). This
comes to an end for every agenda. In a tidy agenda it takes out exactly what is beneath the
continuations at which it begins, whichever fibers own it, and hands back one reference for each
(`Agenda.Prunes`). Where it begins first does not matter.
-/

namespace FiberVM.Agenda

variable {a a' a'' : Agenda} {id : ContinuationId} {k : Continuation} {fuel : Nat} {f : FiberId}
  {pending pending' gone gone' : List ContinuationId} {refs refs' : List Ref}

/-- Cancelling goes through what is pending and comes to an end. The continuations that are taken
out are listed in their order, with the references that are handed back for them. -/
inductive Cancels : List ContinuationId → Agenda → List ContinuationId → List Ref → Agenda → Prop
  | done {a : Agenda} : Cancels [] a [] [] a
  | skip {id : ContinuationId} {pending gone : List ContinuationId} {a a' : Agenda}
      {refs : List Ref} (absent : a.get? id = none) (later : Cancels pending a gone refs a') :
      Cancels (id :: pending) a gone refs a'
  /-- The last child is cancelled first, and what else is pending comes after the children. -/
  | take {id : ContinuationId} {pending gone : List ContinuationId} {a a' a'' : Agenda}
      {refs : List Ref} {k : Continuation} (detached : a.detach id = some (k, a'))
      (later : Cancels (k.children.reverse ++ pending) a' gone refs a'') :
    Cancels (id :: pending) a (id :: gone) (k.cell :: refs) a''

/-! ## Cancelling comes to an end -/

private lemma cancelAll_empty (fuel : Nat) (a : Agenda) : cancelAll fuel [] a = ([], a) := by
  unfold cancelAll
  cases fuel <;> rfl

/-- What is not there is passed over. -/
private lemma cancelAll_absent (absent : a.get? id = none) :
    cancelAll fuel (id :: pending) a = cancelAll fuel pending a := by
  have skip : (id :: pending).dropWhile (fun id => (a.get? id).isNone) =
      pending.dropWhile (fun id => (a.get? id).isNone) := by
    rw [List.dropWhile_cons, absent]
    rfl
  conv_lhs => unfold cancelAll
  conv_rhs => unfold cancelAll
  rw [skip]

/-- What is there is taken out before its children. -/
private lemma cancelAll_present (found : a.get? id = some k)
    (detached : a.detach id = some (k, a')) :
    cancelAll (fuel + 1) (id :: pending) a =
      (k.cell :: (cancelAll fuel (k.children.reverse ++ pending) a').1,
        (cancelAll fuel (k.children.reverse ++ pending) a').2) := by
  have first : (id :: pending).dropWhile (fun id => (a.get? id).isNone) = id :: pending := by
    rw [List.dropWhile_cons, found]
    rfl
  conv_lhs => unfold cancelAll
  rw [first]
  simp only [detached]

/-- What is there can be taken out, and then one continuation fewer is there. -/
private lemma detach_of_present (found : a.get? id = some k) :
    ∃ a', a.detach id = some (k, a') ∧ a.cells.card = a'.cells.card + 1 := by
  obtain ⟨a', detached⟩ : ∃ a', a.detach id = some (k, a') := by
    rw [detach, found]
    exact ⟨_, rfl⟩
  refine ⟨a', detached, ?_⟩
  rw [(sheds_detach detached).1.cells, Multiset.card_add, Multiset.card_singleton, Nat.add_comm]

/-- Cancelling comes to an end when it may take out as many continuations as there are. -/
private lemma cancels_cancelAll (enough : a.cells.card ≤ fuel) (pending : List ContinuationId) :
    ∃ gone, Cancels pending a gone (cancelAll fuel pending a).1 (cancelAll fuel pending a).2 := by
  -- a continuation that is taken out brings its children, so there are fewer continuations but not
  -- fewer pending ones
  induction fuel using Nat.strong_induction_on generalizing a pending with
  | _ fuel ihFuel =>
    induction pending with
    | nil =>
      rw [cancelAll_empty]
      exact ⟨[], .done⟩
    | cons id rest ih =>
      cases found : a.get? id with
      | none =>
        obtain ⟨gone, later⟩ := ih
        rw [cancelAll_absent found]
        exact ⟨gone, .skip found later⟩
      | some k =>
        obtain ⟨a', detached, counted⟩ := detach_of_present found
        obtain ⟨fewer, rfl⟩ : ∃ fewer, fuel = fewer + 1 :=
          Nat.exists_eq_add_one_of_ne_zero (by omega)
        obtain ⟨gone, later⟩ := ihFuel fewer (Nat.lt_succ_self fewer) (a := a') (by omega)
          (k.children.reverse ++ rest)
        rw [cancelAll_present found detached]
        exact ⟨id :: gone, .take detached later⟩

lemma cancels_cancel (a : Agenda) (id : ContinuationId) :
    ∃ gone, Cancels [id] a gone (a.cancel id).1 (a.cancel id).2 :=
  cancels_cancelAll (Nat.le_of_eq a.card_cells) [id]

/-- Cancelling some continuations and then others is cancelling all of them. -/
lemma Cancels.append (first : Cancels pending a gone refs a')
    (later : Cancels pending' a' gone' refs' a'') :
    Cancels (pending ++ pending') a (gone ++ gone') (refs ++ refs') a'' := by
  induction first with
  | done => exact later
  | skip absent _ ih => exact .skip absent (ih later)
  | take detached _ ih =>
    have whole := ih later
    rw [List.append_assoc] at whole
    exact .take detached whole

lemma cancels_cancelEach (ids : List ContinuationId) (a : Agenda) :
    ∃ gone, Cancels ids a gone (cancelEach ids a).1 (cancelEach ids a).2 := by
  induction ids generalizing a with
  | nil => exact ⟨[], .done⟩
  | cons id rest ih =>
    obtain ⟨gone, first⟩ := a.cancels_cancel id
    obtain ⟨gone', later⟩ := ih (a.cancel id).2
    exact ⟨gone ++ gone', first.append later⟩

/-! ## What cancelling takes out -/

/-- Continuations are taken out of an agenda that are there. One reference is handed back for
each. -/
structure Removes (a : Agenda) (gone : List ContinuationId) (refs : List Ref) (a' : Agenda) :
    Prop where
  drops : Drops gone a a'
  nodup : gone.Nodup
  /-- What is handed back are the references that the continuations held, in the same order. -/
  refs : refs.map some = gone.map fun x => (a.get? x).map (·.cell)

/-- What is taken out is there. -/
lemma Removes.present (x : Removes a gone refs a') (lost : id ∈ gone) : (a.get? id).isSome := by
  have listed : (a.get? id).map (·.cell) ∈ refs.map some := by
    rw [x.refs]
    exact List.mem_map.2 ⟨id, lost, rfl⟩
  obtain ⟨r, -, held⟩ := List.mem_map.1 listed
  obtain ⟨k, found, -⟩ := Option.map_eq_some_iff.1 held.symm
  rw [found]
  rfl

/-- If all that is gone was there, what is gone is what was there and is there no more. -/
lemma Drops.mem_iff (x : Drops gone a a') (present : ∀ id ∈ gone, (a.get? id).isSome) :
    id ∈ gone ↔ (a.get? id).isSome ∧ a'.get? id = none := by
  constructor
  · intro lost
    exact ⟨present id lost, by rw [x.get, if_pos lost]⟩
  · rintro ⟨there, absent⟩
    by_contra stays
    have left := x.isSome_iff.2 ⟨there, stays⟩
    rw [absent] at left
    cases left

lemma Removes.mem_iff (x : Removes a gone refs a') :
    id ∈ gone ↔ (a.get? id).isSome ∧ a'.get? id = none :=
  x.drops.mem_iff fun _ => x.present

/-- Cancelling takes each continuation out once. -/
lemma Cancels.removes (cancels : Cancels pending a gone refs a') (tidy : a.Tidy) :
    Removes a gone refs a' := by
  induction cancels with
  | done => exact ⟨.refl tidy, List.nodup_nil, rfl⟩
  | skip absent _ ih => exact ih tidy
  | @take id pending gone a a' a'' refs k detached _ ih =>
    have found : a.get? id = some k := by
      unfold detach at detached
      split at detached
      case h_1 => cases detached
      case h_2 c found =>
        cases detached
        exact found
    obtain ⟨a₁, detached', dropped⟩ := drops_detach tidy found
    rw [detached] at detached'
    cases detached'
    have later := ih (dropped.tidy tidy)
    have absent : a'.get? id = none := by rw [dropped.get, if_pos (List.mem_singleton_self id)]
    refine ⟨dropped.trans later.drops, ?_, ?_⟩
    · refine List.nodup_cons.2 ⟨fun lost => ?_, later.nodup⟩
      have there := later.present lost
      rw [absent] at there
      cases there
    · -- what is taken out later has lost at most children
      rw [List.map_cons, List.map_cons, found, later.refs]
      refine congrArg _ (List.map_congr_left fun x lost => ?_)
      obtain ⟨c, left⟩ := Option.isSome_iff_exists.1 (later.present lost)
      obtain ⟨-, c₀, before, rfl⟩ := dropped.get_of left
      rw [left, before]
      rfl

/-- Only what is gone matters, not how it is listed. -/
lemma Drops.of_mem_iff (x : Drops gone a a') (same : ∀ id, id ∈ gone ↔ id ∈ gone') :
    Drops gone' a a' := by
  have stays : (fun id => decide (id ∉ gone)) = fun id => decide (id ∉ gone') :=
    funext fun id => decide_eq_decide.2 (not_congr (same id))
  have without : (fun k : Continuation => k.without gone) = fun k => k.without gone' := by
    funext k
    rw [Continuation.without, stays, Continuation.without]
  refine ⟨x.next, x.tick, fun id => ?_, x.entry, fun f => ?_, ?_⟩
  · rw [x.get, without]
    exact if_congr (same id) rfl rfl
  · rw [x.owned, stays]
  · rw [x.lists, stays]

/-- Exactly what is beneath some continuations is taken out, and one reference is handed back for
each. -/
structure Prunes (tops : List ContinuationId) (a : Agenda) (gone : List ContinuationId)
    (refs : List Ref) (a' : Agenda) : Prop extends Removes a gone refs a' where
  exactly : ∀ x, x ∈ gone ↔ a.Beneath tops x

lemma prunes_cancel (tidy : a.Tidy) (id : ContinuationId) :
    ∃ gone, Cancels [id] a gone (a.cancel id).1 (a.cancel id).2 ∧
      Prunes [id] a gone (a.cancel id).1 (a.cancel id).2 := by
  obtain ⟨gone, cancels⟩ := a.cancels_cancel id
  obtain ⟨gone', dropped, exactly⟩ := drops_cancel tidy id
  have removes := cancels.removes tidy
  refine ⟨gone, cancels, removes, fun x => ?_⟩
  rw [removes.mem_iff, ← exactly, dropped.mem_iff fun x lost => ((exactly x).1 lost).1]

/-- Cancelling the continuations of a fiber, in whichever order, takes out exactly what is beneath
them. -/
lemma prunes_cancelOwned (tidy : a.Tidy) {ids : List ContinuationId}
    (owned : ids.Perm (a.ownedBy f)) :
    ∃ gone,
      Cancels ids { a with owned := a.owned.erase f } gone
        (cancelEach ids { a with owned := a.owned.erase f }).1
        (cancelEach ids { a with owned := a.owned.erase f }).2 ∧
      Prunes (a.ownedBy f) a gone (cancelEach ids { a with owned := a.owned.erase f }).1
        (cancelEach ids { a with owned := a.owned.erase f }).2 := by
  obtain ⟨gone, cancels⟩ := cancels_cancelEach ids { a with owned := a.owned.erase f }
  obtain ⟨gone', dropped, exactly⟩ := drops_cancelOwned tidy f fun x => owned.mem_iff
  have removes := cancels.removes (tidy.forget f)
  have same : ∀ x, x ∈ gone' ↔ x ∈ gone := by
    intro x
    rw [dropped.mem_iff fun x lost => ((exactly x).1 lost).1, removes.mem_iff]
    exact Iff.rfl
  exact ⟨gone, cancels, ⟨dropped.of_mem_iff same, removes.nodup, removes.refs⟩,
    fun x => (same x).symm.trans (exactly x)⟩

/-! ## What is taken out does not come back -/

/-- Whatever is called afterwards, some continuations are not found, and are never due. -/
def Lost (gone : List ContinuationId) (a : Agenda) : Prop :=
  ∀ a', Evolves a a' → ∀ id ∈ gone, a'.get? id = none ∧ ∀ now, id ∉ (a'.takeReady now).1

/-- No trace is left of what is taken out. -/
lemma Removes.lost (x : Removes a gone refs a') (tidy : a.Tidy) : Lost gone a' := by
  intro a'' evolved id lost
  have absent : a''.get? id = none := by
    obtain ⟨k, found⟩ := Option.isSome_iff_exists.1 (x.present lost)
    have issued := lt_next_of_bond? (bond?_of_get? found)
    rw [← x.drops.next] at issued
    have before := (x.mem_iff.1 lost).2
    rcases evolved.persists.bond id issued with gone | same
    · exact bond?_eq_none.1 gone
    · exact bond?_eq_none.1 (same.trans (bond?_eq_none.2 before))
  refine ⟨absent, fun now ready => ?_⟩
  obtain ⟨k, found⟩ := Tidy.ready (evolved.tidy (x.drops.tidy tidy)) ready
  rw [absent] at found
  cases found

/-- Cancelling a continuation comes to an end and takes out exactly the continuations that are there
and descend from it. Cancelling a fiber takes out exactly those that descend from one of its own, in
whichever order these are visited, and the fiber has none left. The references that are handed back
are one for each continuation that is taken out. All else is left as it was but for the identities
that are gone, which no later call brings back. -/
theorem cancelling_takes_subtrees {names : List String} {a : Agenda}
    (evolved : Evolves (ofLists names) a) :
    (∀ id, ∃ gone, Cancels [id] a gone (a.cancel id).1 (a.cancel id).2 ∧
        Prunes [id] a gone (a.cancel id).1 (a.cancel id).2 ∧ Lost gone (a.cancel id).2) ∧
      ∀ f, (∀ id, id ∈ a.ownedBy f ↔ ∃ k, a.get? id = some k ∧ k.fiber = f) ∧
        (a.cancelFiber f).2.ownedBy f = [] ∧
        ∃ gone, Prunes (a.ownedBy f) a gone (a.cancelFiber f).1 (a.cancelFiber f).2 ∧
          Lost gone (a.cancelFiber f).2 ∧
          ∀ ids : List ContinuationId, ids.Perm (a.ownedBy f) → ∃ gone', gone'.Perm gone ∧
            Cancels ids { a with owned := a.owned.erase f } gone'
              (cancelEach ids { a with owned := a.owned.erase f }).1
              (cancelEach ids { a with owned := a.owned.erase f }).2 ∧
            Prunes (a.ownedBy f) a gone' (cancelEach ids { a with owned := a.owned.erase f }).1
              (cancelEach ids { a with owned := a.owned.erase f }).2 := by
  have tidy : a.Tidy := evolved.tidy (tidy_ofLists names)
  have known : a.Indexed :=
    evolved.keeps (fun call a known => (call.effect a).indexed known) (indexed_ofLists names)
  refine ⟨fun id => ?_, fun f => ⟨fun id => ⟨tidy.owned, ?_⟩, ?_⟩⟩
  · obtain ⟨gone, cancels, prunes⟩ := prunes_cancel tidy id
    exact ⟨gone, cancels, prunes, prunes.lost tidy⟩
  · rintro ⟨k, found, rfl⟩
    exact known id k.fiber k.cell (bond?_of_get? found)
  · obtain ⟨gone, -, prunes⟩ := prunes_cancelOwned tidy (List.Perm.refl (a.ownedBy f))
    have none_left : (a.cancelFiber f).2.ownedBy f = [] := by
      refine (prunes.drops.owned f).trans (List.filter_eq_nil_iff.2 fun id listed stays => ?_)
      obtain ⟨k, found, -⟩ := tidy.owned listed
      exact of_decide_eq_true stays ((prunes.exactly id).2 ⟨found ▸ rfl, id, listed, .refl⟩)
    refine ⟨none_left, gone, prunes, prunes.lost tidy, fun ids owned => ?_⟩
    obtain ⟨gone', cancels', prunes'⟩ := prunes_cancelOwned tidy owned
    refine ⟨gone', ?_, cancels', prunes'⟩
    exact (List.perm_ext_iff_of_nodup prunes'.nodup prunes.nodup).2 fun x =>
      (prunes'.exactly x).trans (prunes.exactly x).symm

/-- A continuation of a fiber, one of another fiber beneath it, one of the first fiber again beneath
that one, and one that is apart from them. -/
def ancestryOfTwoFibers : Agenda :=
  (ofLists ["door"]).after [.registerAt none ⟨0⟩ ⟨10⟩ .zero 1 0 .zero,
    .registerOn (some ⟨0⟩) ⟨1⟩ ⟨11⟩ "door" "open" 2 0,
      .registerAt (some ⟨1⟩) ⟨0⟩ ⟨10⟩ .zero 3 0 .zero,
    .registerOn none ⟨1⟩ ⟨11⟩ "door" "open" 4 0]

/-- The three that are related go, with the one of the other fiber, and the fourth one stays. -/
theorem cancelling_takes_subtrees_ancestryOfTwoFibers :
    Evolves (ofLists ["door"]) ancestryOfTwoFibers ∧
      (ancestryOfTwoFibers.cancelFiber ⟨0⟩).1 = [⟨10⟩, ⟨11⟩, ⟨10⟩] ∧
      (ancestryOfTwoFibers.cancelFiber ⟨0⟩).2.ownedBy ⟨1⟩ = [⟨3⟩] ∧
      ∃ gone, gone.length = 3 ∧ Lost gone (ancestryOfTwoFibers.cancelFiber ⟨0⟩).2 ∧
        ∀ x, x ∈ gone ↔ ancestryOfTwoFibers.Beneath [⟨0⟩, ⟨2⟩] x := by
  have evolved : Evolves (ofLists ["door"]) ancestryOfTwoFibers := evolves_after _ _
  obtain ⟨-, -, gone, prunes, lost, -⟩ := (cancelling_takes_subtrees evolved).2 ⟨0⟩
  have returned : (ancestryOfTwoFibers.cancelFiber ⟨0⟩).1 = [⟨10⟩, ⟨11⟩, ⟨10⟩] := by decide +kernel
  have counted := congrArg List.length prunes.refs
  rw [returned, List.length_map, List.length_map] at counted
  have owned : ancestryOfTwoFibers.ownedBy ⟨0⟩ = [⟨0⟩, ⟨2⟩] := by decide +kernel
  exact ⟨evolved, returned, by decide +kernel, gone, counted.symm, lost, fun x =>
    owned ▸ prunes.exactly x⟩

end FiberVM.Agenda
