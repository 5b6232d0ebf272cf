import FiberVM.Proofs.World.Cancellation
import FiberVM.Proofs.World.Runs

/-!
# Loops in the course of time

A loop lasts as long as its run is in more loops than before (`World.InLoops`). Meanwhile one body
after the other is run, and `World.Laps` lists the elements that are done. Whatever the bodies do,
the elements are those that the value had when the loop began, and each way out of the loop
(`World.LeavesLoop`) leads to the run as it was before the loop, with every reference to an element
given up (`World.forEach_visits_snapshot`).
-/

namespace FiberVM

open Engine

variable {c : Conduct} {e e' : Engine} {a x : Activation} {callers : Callers} {p : Progress}
  {s : Session} {w w' w₀ w₁ : World} {calls : List (HostCall × Session)} {H : Multiset Ref}
  {n d : Nat} {z : Failure} {above : List Activation} {l : Loop} {r : Ref} {inner outer : List Loop}
  {done frame : List Ref}

/-- Two activations of the same run: of the same fiber, with the same image, at the same depth. -/
def Activation.SameRun (a x : Activation) : Prop :=
  (x.fiber, x.machine, x.image, x.cell, x.base) = (a.fiber, a.machine, a.image, a.cell, a.base)

namespace World

/-- The run that has so many below it is in more loops than so many. -/
def InLoops (n d : Nat) (w : World) : Prop := ∃ x, w.activation? n = some x ∧ d < x.loops.length

/-- The run that has so many below it comes to the end of the body of a loop with so many around
it. -/
def EndsBody (n d : Nat) (frame : List Ref) (w : World) : Prop :=
  ∃ s calls H inline budget, w = work (.run s) calls H ∧ w.height = n + 1 ∧
    s.current.fetch = .ok (.endBody, inline, budget) ∧ s.current.loops.length = d + 1 ∧
      s.current.frame = frame

/-- What happens while a loop lasts, with the elements that are done and the world in which the
latest body has begun. -/
inductive Laps (c : Conduct) (n d : Nat) (w₀ : World) : List Ref → World → World → Prop
  | begin (inside : w₀.InLoops n d) : Laps c n d w₀ [] w₀ w₀
  /-- The body ends and begins again. -/
  | next {done frame : List Ref} {w₁ w w' : World} (before : Laps c n d w₀ done w₁ w)
      (ends : w.EndsBody n d frame) (move : Move c w w') (inside : w'.InLoops n d) :
      Laps c n d w₀ (done ++ frame) w' w'
  /-- The body goes on. -/
  | other {done : List Ref} {w₁ w w' : World} (before : Laps c n d w₀ done w₁ w)
      (body : ∀ frame, ¬ w.EndsBody n d frame) (move : Move c w w') (inside : w'.InLoops n d) :
    Laps c n d w₀ done w₁ w'

/-- Whatever happens while a loop lasts, its bodies are counted. -/
lemma laps_iff (inside : w₀.InLoops n d) :
    Relation.ReflTransGen (fun w w' => Move c w w' ∧ w'.InLoops n d) w₀ w ↔
      ∃ done w₁, Laps c n d w₀ done w₁ w := by
  constructor
  · intro lasts
    induction lasts with
    | refl => exact ⟨[], w₀, .begin inside⟩
    | @tail w w' _ move ih =>
      obtain ⟨done, w₁, laps⟩ := ih
      by_cases ends : ∃ frame, w.EndsBody n d frame
      · obtain ⟨frame, ends⟩ := ends
        exact ⟨done ++ frame, w', .next laps ends move.1 move.2⟩
      · exact ⟨done, w₁, .other laps (not_exists.1 ends) move.1 move.2⟩
  · rintro ⟨done, w₁, laps⟩
    induction laps with
    | begin => exact .refl
    | next _ _ move inside ih => exact ih.tail ⟨move, inside⟩
    | other _ _ move inside ih => exact ih.tail ⟨move, inside⟩

/-- The body of a loop begins for an element. -/
def BeginsBody (n : Nat) (l : Loop) (r : Ref) (outer : List Loop) (w : World) : Prop :=
  ∃ s calls H, w = work (.run s) calls H ∧ w.height = n + 1 ∧ s.current.frame = [r] ∧
    s.current.loops = l :: outer ∧ s.current.next = l.body

/-- At the end of a body its element is given up, and the loop goes on with those that are left. -/
def GoesAround (l : Loop) (r : Ref) (outer : List Loop) (w w' : World) : Prop :=
  ∃ s calls H inline budget, w = work (.run s) calls H ∧
    s.current.fetch = .ok (.endBody, inline, budget) ∧
    w' = after calls H (Session.iterate ((s.executing budget).outside l outer) s.callers l
      (s.engine.release r))

/-- The run that has so many below it ends its state, changes it, or fails. -/
inductive BreaksOff (n : Nat) : World → World → Prop
  | ended {s calls H inline budget w'} (latest : (work (.run s) calls H).height = n + 1)
      (fetched : s.current.fetch = .ok (.endState, inline, budget)) :
      BreaksOff n (work (.run s) calls H) w'
  | entered {s calls H inline budget control e w'} (latest : (work (.run s) calls H).height = n + 1)
      (fetched : s.current.fetch = .ok (.gotoState, inline, budget))
      (executed : (s.executing budget).execute .gotoState inline s.engine = .ok control e) :
    BreaksOff n (work (.run s) calls H) w'
  | failed {w : World} {z calls} (faults : w.Faults z)
      (lowest : (z.callers.activations ++ pending calls).length = n) :
    BreaksOff n w (after calls w.held z.progress)

/-- The ways out of a loop from the body for an element. The run that has so many below it is
outside of the loop as it was before, and what the loop has held is given up. -/
inductive LeavesLoop (n : Nat) (a : Activation) (l : Loop) (r : Ref) : World → World → Prop
  /-- The body for the last element has ended, and the run goes on after the loop. -/
  | past {s calls H inline budget} (latest : (work (.run s) calls H).height = n + 1)
      (same : a.SameRun s.current) (fetched : s.current.fetch = .ok (.endBody, inline, budget))
      (exhausted : l.rest.size = 0) :
    LeavesLoop n a l r (work (.run s) calls H)
      (work (.run ⟨s.engine.release r, { (s.executing budget).outside l a.loops with
        next := l.exit }, s.callers⟩)
        calls H)
  /-- The body ends the state, and so the run ends. -/
  | ended {s calls H inline budget inner} (latest : (work (.run s) calls H).height = n + 1)
      (same : a.SameRun s.current) (fetched : s.current.fetch = .ok (.endState, inline, budget))
      (within : s.current.Within l r a.loops inner) :
    LeavesLoop n a l r (work (.run s) calls H)
      (after calls H (Session.finish ((s.executing budget).outside l a.loops) s.callers .stateEnd
        (l.leave r inner s.current.frame s.engine)))
  /-- The body changes the state of the fiber. -/
  | entered {s calls H inline address budget inner e}
      (latest : (work (.run s) calls H).height = n + 1) (same : a.SameRun s.current)
      (fetched : s.current.fetch = .ok (.gotoState, inline, budget))
      (executed : (s.executing budget).execute .gotoState inline s.engine = .ok (.enter address) e)
      (within : s.current.Within l r a.loops inner) :
    LeavesLoop n a l r (work (.run s) calls H)
      (after calls H (Session.proceed ((s.executing budget).outside l a.loops) s.callers .gotoState
        (l.leave r inner s.current.frame e) (.enter address)))
  /-- The body has ended, and the loop cannot go on with the next element. -/
  | stuck {w : World} {z x e calls} (faults : w.Faults z)
      (lowest : (z.callers.activations ++ pending calls).length = n) (own : z.fiber = a.fiber)
      (same : a.SameRun x) (ends : w.EndsBody n a.loops.length [r]) (left : l.rest.size ≠ 0)
      (stops : l.rest.Stops (w.engine.release r) e)
      (finished : z.engine = (x.outside l a.loops).finish e) :
    LeavesLoop n a l r w (after calls w.held z.progress)
  /-- The body fails. -/
  | failed {w : World} {z x inner e calls} (faults : w.Faults z)
      (lowest : (z.callers.activations ++ pending calls).length = n) (own : z.fiber = a.fiber)
      (same : a.SameRun x) (within : x.Within l r a.loops inner)
      (finished : z.engine = (x.outside l a.loops).finish (l.leave r inner x.frame e)) :
    LeavesLoop n a l r w (after calls w.held z.progress)

end World

namespace Activation

/-- A loop inside of another one begins, goes on or is over. -/
lemma Iterates.within {l' x'} (iterates : x.Iterates l' e (.ok x' e')) (around : l'.outer = x.frame)
    (within : x.Within l r outer inner) :
    ∃ inner, x.SameRun x' ∧ x'.Within l r outer inner := by
  cases iterates with
  | past => exact ⟨inner, rfl, within.loops, within.frame⟩
  | @body r' rest _ yields =>
    refine ⟨{ l' with rest } :: inner, rfl, congrArg (List.cons _) within.loops, ?_⟩
    rw [← within.frame, ← around]
    rfl

/-- The body of a loop inside of another one ends. -/
lemma Within.shallower {l' loops} (within : x.Within l r outer (l' :: inner))
    (inside : x.loops = l' :: loops) :
    { x with frame := l'.outer, loops }.Within l r outer inner where
  loops := (List.cons.inj (inside.symm.trans within.loops)).2
  frame := within.frame

end Activation

namespace Session

lemma step_endState {inline budget} (fetched : s.current.fetch = .ok (.endState, inline, budget)) :
    s.step = finish (s.executing budget) s.callers .stateEnd s.engine := by
  rw [step_of_fetch fetched]
  rfl

/-- A run that ends in a loop ends as if the loop had been left before. -/
lemma finish_within (within : a.Within l r outer inner) (callers : Callers) (how : RunEnd)
    (e : Engine) :
    finish a callers how e = finish (a.outside l outer) callers how
      (l.leave r inner a.frame e) := by
  rw [finish, within.finish]
  rfl

lemma enter_within (within : a.Within l r outer inner) (callers : Callers) (address : Nat)
    (e : Engine) :
    proceed a callers .gotoState e (.enter address) =
      proceed (a.outside l outer) callers .gotoState (l.leave r inner a.frame e)
        (.enter address) := by
  simp only [proceed, within.leaveLoops]

end Session

namespace World

/-- The run stays in the body of a loop. -/
def StaysInBody (n : Nat) (a : Activation) (l : Loop) (r : Ref) (w : World) : Prop :=
  ∃ x inner, w.activation? n = some x ∧ a.SameRun x ∧ x.Within l r a.loops inner

/-- A run that fails in the body of a loop leaves the loop. -/
lemma leavesLoop_of_faults (faults : w.Faults z)
    (lowest : (z.callers.activations ++ pending calls).length = n) (same : a.SameRun x)
    (within : x.Within l r a.loops inner) (own : z.fiber = x.fiber)
    (finished : z.engine = x.finish e) : w.LeavesLoop n a l r (after calls w.held z.progress) :=
  .failed faults lowest (own.trans (congrArg Prod.fst same)) same within
    (finished.trans (within.finish e))

/-- A run that goes on has as many below it as before. -/
lemma staysInBody_of_activations (latest : (work (.run s) calls H).height = n + 1)
    (runs : p.activations = above ++ x :: s.callers.activations) (same : a.SameRun x)
    (within : x.Within l r a.loops inner) : (after calls H p).StaysInBody n a l r := by
  have split : (after calls H p).activations =
      above ++ x :: (s.callers.activations ++ pending calls) := by
    rw [activations_after, runs, List.append_assoc]
    rfl
  exact ⟨x, inner, activation?_eq_some_iff.2 ⟨above, _, split, length_below latest⟩, same, within⟩

/-- An instruction that does not end the body leaves the run in it, or leads out of the loop. -/
lemma step_within (latest : (work (.run s) calls H).height = n + 1) (same : a.SameRun s.current)
    (within : s.current.Within l r a.loops inner)
    (body : ∀ frame, ¬ (work (.run s) calls H).EndsBody n a.loops.length frame) :
    (after calls H s.step).StaysInBody n a l r ∨ (work (.run s) calls H).LeavesLoop n a l r
      (after calls H s.step) := by
  have inLoop : s.current.loops ≠ [] := by
    rw [within.loops]
    exact List.append_ne_nil_of_right_ne_nil _ (List.cons_ne_nil _ _)
  have lowest := length_below latest
  have counted : inner = [] → s.current.loops.length = a.loops.length + 1 := by
    rintro rfl
    rw [within.loops]
    rfl
  -- the run goes on, with those below it
  have stays : ∀ {x : Activation} {inner : List Loop} (more : List Activation),
      s.step.activations = more ++ x :: s.callers.activations → a.SameRun x →
        x.Within l r a.loops inner → (after calls H s.step).StaysInBody n a l r ∨
          (work (.run s) calls H).LeavesLoop n a l r (after calls H s.step) :=
    fun more runs same within => .inl (staysInBody_of_activations latest runs same within)
  have waiting : ∀ budget, (s.executing budget).Within l r a.loops inner := fun budget =>
    ⟨within.loops, within.frame⟩
  generalize stepped : s.step = p at stays
  cases show s.Steps p from stepped ▸ s.steps with
  | on => exact stays [] rfl same ⟨within.loops, within.frame⟩
  | await => exact stays [] rfl same ⟨within.loops, within.frame⟩
  | launch => exact stays [_] rfl same ⟨within.loops, within.frame⟩
  | @enter inline address budget e fetched executed =>
    refine .inr ?_
    rw [Session.enter_within (waiting budget)]
    exact .entered latest same fetched executed within
  | @loop inline exit budget elements e e' x fetched executed iterated =>
    have iterates := (s.executing budget).iterates ⟨elements, s.current.frame, s.current.next + 2,
      exit⟩ e
    rw [iterated] at iterates
    obtain ⟨inner', own, within'⟩ := iterates.within rfl (waiting budget)
    exact stays [] rfl (own.trans same) within'
  | @again inline budget l' loops e x fetched inside iterated =>
    have iterates := { s.executing budget with frame := l'.outer, loops }.iterates l'
      (s.engine.releaseAll s.current.frame)
    rw [iterated] at iterates
    cases inner with
    | nil =>
      exact absurd ⟨s, calls, H, inline, budget, rfl, latest, fetched, counted rfl,
        rfl⟩ (body s.current.frame)
    | cons l₁ inner =>
      obtain ⟨rfl, -⟩ := List.cons.inj (inside.symm.trans within.loops)
      obtain ⟨inner', own, within'⟩ := iterates.within rfl ((waiting budget).shallower inside)
      exact stays [] rfl (own.trans same) within'
  | @finish op inline budget control how e fetched executed ends state =>
    rcases state with ⟨rfl, rfl, rfl⟩ | outside
    · refine .inr ?_
      rw [Session.finish_within (waiting budget)]
      exact .ended latest same fetched within
    · exact absurd outside inLoop
  | @fault y faults =>
    have fails : (work (.run s) calls H).Faults y := .step faults
    cases faults with
    | fetch | execute | loop => exact .inr (leavesLoop_of_faults fails lowest same within rfl rfl)
    | @body op inline budget l' loops fault e e' fetched executed inside failed =>
      obtain rfl : op = .endBody := Activation.directs_of_ok executed
      cases inner with
      | nil =>
        exact absurd ⟨s, calls, H, inline, budget, rfl, latest, fetched, counted rfl,
          rfl⟩ (body s.current.frame)
      | cons l₁ inner =>
        obtain ⟨rfl, -⟩ := List.cons.inj (inside.symm.trans within.loops)
        have outside := (waiting budget).shallower inside
        exact .inr (leavesLoop_of_faults (x := { s.executing budget with frame := l'.outer, loops })
          fails lowest same outside rfl rfl)
    | @begin op inline budget made fault e e' fetched executed failed =>
      let launcher := (s.executing budget).waiting
      have split : launcher :: s.callers.activations = [] ++ launcher :: s.callers.activations :=
        rfl
      rcases fails.waits split with ⟨more, runs⟩ | ⟨z, fails, progress, ends, callers⟩
      · exact stays more runs same ⟨within.loops, within.frame⟩
      · obtain ⟨e₁, finished⟩ := ends.engine
        rw [← progress]
        exact .inr (leavesLoop_of_faults (x := s.executing budget) fails (callers ▸ lowest) same
          (waiting budget) ends.fiber finished)
    | @ended op inline budget control cell launcher under fault e e' fetched executed ends callers
        failed =>
      rcases ends with ⟨how, rfl⟩ | ⟨-, outside⟩
      · rcases Activation.directs_of_ok executed with ⟨rfl, rfl⟩ | ⟨-, outside⟩
        · rw [← stepped, Session.step_endState fetched, Session.finish_within (waiting budget)]
          exact .inr (.ended latest same fetched within)
        · exact absurd outside inLoop
      · exact absurd outside inLoop

/-- Whatever happens but the end of the body, the run stays in the body or leaves the loop. -/
lemma Move.staysInBody (move : Move c w w') (there : w.StaysInBody n a l r)
    (body : ∀ frame, ¬ w.EndsBody n a.loops.length frame) :
    w'.StaysInBody n a l r ∨ w.LeavesLoop n a l r w' := by
  obtain ⟨x, inner, found, same, within⟩ := there
  obtain ⟨above, below, split, rfl⟩ := activation?_eq_some_iff.1 found
  rcases move.waits split with ⟨above', kept⟩ | ⟨s, calls, H, rfl, rfl, rfl⟩ |
    ⟨z, faults, ends, calls, rfl, rfl⟩
  · exact .inl ⟨x, inner, activation?_eq_some_iff.2 ⟨above', below, kept, rfl⟩, same, within⟩
  · cases move
    exact step_within (length_activations _).symm same within body
  · obtain ⟨e, finished⟩ := ends.engine
    exact .inr (leavesLoop_of_faults faults rfl same within ends.fiber finished)

/-! ## The end of a body -/

/-- Where a body ends, the run is in no loop inside of it. -/
lemma EndsBody.within (ends : w.EndsBody n a.loops.length frame) (there : w.StaysInBody n a l r) :
    ∃ s calls H inline budget, w = work (.run s) calls H ∧ w.height = n + 1 ∧
      s.current.fetch = .ok (.endBody, inline, budget) ∧ s.current.frame = frame ∧
        a.SameRun s.current ∧
      s.current.Within l r a.loops [] := by
  obtain ⟨s, calls, H, inline, budget, rfl, latest, fetched, counted, rfl⟩ := ends
  obtain ⟨x, inner, found, same, within⟩ := there
  rw [activation?_run s latest] at found
  cases found
  have alone : inner = [] := by
    rw [within.loops, List.length_append, List.length_cons] at counted
    exact List.length_eq_zero_iff.1 (by omega)
  subst alone
  exact ⟨s, calls, H, inline, budget, rfl, latest, fetched, rfl, same, within⟩

end World

/-- At the end of a body the element is given up, and the loop goes on. -/
lemma Session.step_endBody {inline budget} (within : s.current.Within l r outer [])
    (fetched : s.current.fetch = .ok (.endBody, inline, budget)) :
    s.step = iterate ((s.executing budget).outside l outer) s.callers l (s.engine.release r) := by
  have frame : s.current.frame = [r] := within.frame
  rw [step_of_fetch fetched]
  change proceed (s.executing budget) s.callers .endBody s.engine .endBody = _
  rw [proceed, show (s.executing budget).loops = l :: outer from within.loops]
  change iterate ((s.executing budget).outside l outer) s.callers l
    (s.engine.releaseAll s.current.frame) = _
  rw [frame]
  rfl

namespace World

/-- After a body the next one begins, or the loop is left. -/
lemma next_or_leaves {inline budget} (latest : (work (.run s) calls H).height = n + 1)
    (same : a.SameRun s.current) (within : s.current.Within l r a.loops [])
    (fetched : s.current.fetch = .ok (.endBody, inline, budget)) :
    (∃ r' rest e, l.rest.Yields (s.engine.release r) r' rest e ∧ (after calls H s.step).engine = e ∧
        (after calls H s.step).BeginsBody n { l with rest } r' a.loops ∧
        (after calls H s.step).StaysInBody n a { l with rest } r') ∨
      (work (.run s) calls H).LeavesLoop n a l r (after calls H s.step) := by
  have iterates := ((s.executing budget).outside l a.loops).iterates l (s.engine.release r)
  have stepped := Session.step_endBody within fetched
  cases iterated : ((s.executing budget).outside l a.loops).iterate l (s.engine.release r) with
  | ok x e =>
    have stepped : s.step = .running (.run ⟨e, x, s.callers⟩) := by
      rw [stepped, Session.iterate, iterated]
    rw [iterated] at iterates
    rw [stepped]
    cases iterates with
    | past exhausted => exact .inr (.past latest same fetched exhausted)
    | @body r' rest _ yields =>
      refine .inl ⟨r', rest, e, yields, rfl, ⟨_, calls, H, rfl, latest, rfl, rfl, rfl⟩, ?_⟩
      exact ⟨_, [], activation?_run _ latest, same, rfl, rfl⟩
  | error fault e =>
    rw [iterated] at iterates
    have failed : { s.executing budget with frame := l.outer, loops := a.loops }.iterate l
        (s.engine.releaseAll s.current.frame) = .error fault e := by
      rw [show s.current.frame = [r] from within.frame]
      exact iterated
    have faults := Session.Faults.body fetched rfl within.loops failed
    rw [faults.step_eq]
    cases iterates with
    | stuck left stops =>
      refine .inr (.stuck (.step faults) (length_below latest) (congrArg Prod.fst same) same ?_ left
        stops rfl)
      exact ⟨s, calls, H, inline, budget, rfl, latest, fetched, congrArg List.length within.loops,
        within.frame⟩

/-- A run that has ended is in no loops. -/
lemma not_inLoops_of_activations (left : p.activations <:+ callers.activations)
    (lowest : (callers.activations ++ pending calls).length = n) :
    ¬ (after calls H p).InLoops n d := by
  rintro ⟨x, found, -⟩
  obtain ⟨above, below, split, rfl⟩ := activation?_eq_some_iff.1 found
  have fewer := left.length_le
  have whole := congrArg List.length split
  rw [activations_after] at whole
  simp only [List.length_append, List.length_cons] at whole lowest
  omega

lemma not_inLoops_of_run (latest : (work (.run s) calls H).height = n + 1)
    (fewer : s.current.loops.length ≤ d) :
    ¬ (work (.run s) calls H).InLoops n d := by
  rintro ⟨x, found, more⟩
  rw [activation?_run s latest] at found
  cases found
  exact Nat.not_lt_of_le fewer more

lemma not_inLoops_of_finish {how} (latest : (work (.run s) calls H).height = n + 1) :
    ¬ (after calls H (Session.finish x s.callers how e)).InLoops n d :=
  not_inLoops_of_activations (Session.unwinds_finish (P := .nothing) _ _ _ _).activations
    (length_below latest)

lemma not_inLoops_of_progress (lowest : (z.callers.activations ++ pending calls).length = n) :
    ¬ (after calls H z.progress).InLoops n d :=
  not_inLoops_of_activations (Session.unwinds_conclude (P := .nothing) _ _ _).activations lowest

/-- A loop that is left does not last. -/
lemma LeavesLoop.not_inLoops (leaves : w.LeavesLoop n a l r w') :
    ¬ w'.InLoops n a.loops.length := by
  cases leaves with
  | past latest => exact not_inLoops_of_run latest (Nat.le_refl _)
  | entered latest => exact not_inLoops_of_run latest (Nat.zero_le _)
  | ended latest => exact not_inLoops_of_finish latest
  | stuck faults lowest => exact not_inLoops_of_progress lowest
  | failed faults lowest => exact not_inLoops_of_progress lowest

/-- No loop lasts when its run ends its state, changes it, or fails. -/
lemma BreaksOff.not_inLoops (breaks : w.BreaksOff n w') (move : Move c w w') :
    ¬ w'.InLoops n d := by
  cases breaks with
  | @ended s calls H inline budget w' latest fetched =>
    cases move
    change ¬ (after calls H s.step).InLoops n d
    rw [Session.step_endState fetched]
    exact not_inLoops_of_finish latest
  | @entered s calls H inline budget control e w' latest fetched executed =>
    cases move
    obtain ⟨address, rfl⟩ := Session.enter_of_gotoState executed
    change ¬ (after calls H s.step).InLoops n d
    rw [Session.step_of_fetch fetched, executed]
    exact not_inLoops_of_run latest (Nat.zero_le d)
  | failed faults lowest => exact not_inLoops_of_progress lowest

lemma StaysInBody.inLoops (stays : w.StaysInBody n a l r) : w.InLoops n a.loops.length := by
  obtain ⟨x, inner, found, -, within⟩ := stays
  refine ⟨x, found, ?_⟩
  rw [within.loops, List.length_append, List.length_cons]
  omega

/-- Besides what it held before, the run holds a reference to the element and to each one that is
left. -/
lemma StaysInBody.refs_le (stays : w.StaysInBody n a l r) (outer : l.outer = a.frame) :
    ∀ x ∈ w.activation? n, a.refs + ({r} + (l.rest.refs : Multiset Ref)) ≤ x.refs := by
  obtain ⟨x, inner, found, same, within⟩ := stays
  intro y there
  cases found.symm.trans there
  have cell : x.cell = a.cell := congrArg (·.2.2.2.1) same
  have held : (x.outside l a.loops).refs = a.refs := by
    rw [Activation.refs, Activation.refs, Activation.outside, cell, outer]
  exact held ▸ within.refs_le

/-- There are no other ways out of a loop. -/
lemma Move.leavesLoop (move : Move c w w') (stays : w.StaysInBody n a l r)
    (left : ¬ w'.InLoops n a.loops.length) :
    w.LeavesLoop n a l r w' := by
  by_cases ends : ∃ frame, w.EndsBody n a.loops.length frame
  · obtain ⟨frame, ends⟩ := ends
    obtain ⟨s, calls, H, inline, budget, rfl, latest, fetched, rfl, same, within⟩ :=
      ends.within stays
    cases move
    rcases next_or_leaves latest same within fetched with ⟨r', rest, e, -, -, -, stays'⟩ | leaves
    · exact absurd stays'.inLoops left
    · exact leaves
  · rcases move.staysInBody stays (not_exists.1 ends) with stays' | leaves
    · exact absurd stays'.inLoops left
    · exact leaves

/-! ## Whole loops -/

/-- The body for the first element begins, or there is none. -/
lemma begins_or_skips {v heap heap' inline exit budget elements}
    (latest : (work (.run s) calls H).height = n + 1)
    (fetched : s.current.fetch = .ok (.forEach, inline, budget))
    (executed : (s.executing budget).execute .forEach inline s.engine = .ok (.loop elements exit) e)
    (generates : Activation.generator v heap = .ok elements heap') :
    (∃ r rest, v.Visits (after calls H s.step).engine.heap [] r rest ∧
        (after calls H s.step).BeginsBody n ⟨rest, s.current.frame, s.current.next + 2,
          exit⟩ r s.current.loops ∧
        (after calls H s.step).StaysInBody n (s.executing budget)
          ⟨rest, s.current.frame, s.current.next + 2, exit⟩ r) ∨
      ¬ (after calls H s.step).InLoops n s.current.loops.length ∧
        (v.loopSize = 0 ∧ s.step =
          .running (.run ⟨e, { s.executing budget with next := exit }, s.callers⟩) ∨
          v.loopSize ≠ 0 ∧ ∃ fault e', elements.Stops e e' ∧
            s.Faults ⟨s.current.fiber, s.current.next, fault, s.callers, s.current.finish e'⟩) := by
  let loop : Loop := ⟨elements, s.current.frame, s.current.next + 2, exit⟩
  have iterates := (s.executing budget).iterates loop e
  have stepped : s.step = Session.iterate (s.executing budget) s.callers loop e := by
    rw [Session.step_of_fetch fetched, executed]
    rfl
  have size := Value.size_of_generator generates
  cases iterated : (s.executing budget).iterate loop e with
  | ok x e' =>
    have stepped : s.step = .running (.run ⟨e', x, s.callers⟩) := by
      rw [stepped, Session.iterate, iterated]
    rw [iterated] at iterates
    rw [stepped]
    cases iterates with
    | past exhausted =>
      exact .inr ⟨not_inLoops_of_run latest (Nat.le_refl _), .inl ⟨size ▸ exhausted, rfl⟩⟩
    | @body r rest _ yields =>
      refine .inl ⟨r, rest, Value.visits_first generates yields,
        ⟨_, calls, H, rfl, latest, rfl, rfl, rfl⟩, ?_⟩
      exact ⟨_, [], activation?_run _ latest, rfl, rfl, rfl⟩
  | error fault e' =>
    rw [iterated] at iterates
    have faults := Session.Faults.loop fetched executed iterated
    refine .inr ⟨?_, .inr ?_⟩
    · rw [faults.step_eq]
      exact not_inLoops_of_progress (length_below latest)
    · cases iterates with
      | stuck left stops => exact ⟨size ▸ left, fault, e', stops, faults⟩

/-- As long as a loop lasts, the run is in the body for the element after those that are done. -/
lemma Laps.visits {v : Value} {body exit : Nat} (laps : Laps c n a.loops.length w₀ done w₁ w)
    (first : ∃ r rest, v.Visits w₀.engine.heap [] r rest ∧
      w₀.BeginsBody n ⟨rest, a.frame, body, exit⟩ r a.loops ∧
      w₀.StaysInBody n a ⟨rest, a.frame, body, exit⟩ r) :
    ∃ r rest, v.Visits w₁.engine.heap done r rest ∧
      w₁.BeginsBody n ⟨rest, a.frame, body, exit⟩ r a.loops ∧
      w.StaysInBody n a ⟨rest, a.frame, body, exit⟩ r := by
  induction laps with
  | begin => exact first
  | @next done frame w₁ w w' before ends move inside ih =>
    obtain ⟨r, rest, visits, -, stays⟩ := ih
    obtain ⟨s, calls, H, inline, budget, rfl, latest, fetched, rfl, same, within⟩ :=
      ends.within stays
    cases move
    rcases next_or_leaves latest same within fetched with
      ⟨r', rest', e, yields, rfl, begins, stays'⟩ | leaves
    · rw [show s.current.frame = [r] from within.frame]
      exact ⟨r', rest', visits.next yields, begins, stays'⟩
    · exact absurd inside leaves.not_inLoops
  | @other done w₁ w w' before body move inside ih =>
    obtain ⟨r, rest, visits, begins, stays⟩ := ih
    rcases move.staysInBody stays body with stays' | leaves
    · exact ⟨r, rest, visits, begins, stays'⟩
    · exact absurd inside leaves.not_inLoops

lemma Laps.inLoops (laps : Laps c n d w₀ done w₁ w) : w₀.InLoops n d := by
  induction laps with
  | begin inside => exact inside
  | next _ _ _ _ ih => exact ih
  | other _ _ _ _ ih => exact ih

/-- A loop runs its body for each element that the value has when the loop begins, in order and with
the element as the frame, whatever the bodies do to the value. It is over after the last element, or
before that if a body ends the state, changes it or fails, or if the next element cannot be visited;
no body suspends the fiber. In each case the run is in as many loops and at the same depth as
before, with the same frame. While the loop lasts the run holds a reference to the element and to
each one that is left, and each of them is given up once, at the end of the body or when the loop is
left. -/
theorem forEach_visits_snapshot {inline : Nat} {budget : Option Nat} {control : Control}
    (latest : (work (.run s) calls H).height = n + 1)
    (fetched : s.current.fetch = .ok (.forEach, inline, budget))
    (executed : (s.executing budget).execute .forEach inline s.engine = .ok control e) :
    ∃ v elements exit, control = .loop elements exit ∧
      (s.executing budget).LoopsOver s.engine v elements exit e ∧
      let a := s.executing budget
      let w₀ := after calls H s.step
      let loop (rest : Generator) : Loop := ⟨rest, a.frame, a.pc + 2, exit⟩
      (w₀.InLoops n a.loops.length ∨
        v.loopSize = 0 ∧ s.step = .running (.run ⟨e, { a with next := exit }, s.callers⟩) ∨
        v.loopSize ≠ 0 ∧ ∃ fault e', elements.Stops e e' ∧
          s.Faults ⟨a.fiber, a.pc, fault, s.callers, a.finish e'⟩) ∧
      ∀ w, (w₀.InLoops n a.loops.length ∧
          Relation.ReflTransGen (fun w w' => Move c w w' ∧ w'.InLoops n a.loops.length) w₀ w ↔
            ∃ done w₁, Laps c n a.loops.length w₀ done w₁ w) ∧
        ∀ done w₁, Laps c n a.loops.length w₀ done w₁ w →
          ∃ r rest, v.Visits w₁.engine.heap done r rest ∧ done.length + 1 + rest.size = v.loopSize ∧
            w₁.BeginsBody n (loop rest) r a.loops ∧ w.StaysInBody n a (loop rest) r ∧
            (∀ x ∈ w.activation? n, a.refs + ({r} + (rest.refs : Multiset Ref)) ≤ x.refs) ∧
            ∀ w', Move c w w' →
              (∀ frame, w.EndsBody n a.loops.length frame → frame = [r] ∧
                w.GoesAround (loop rest) r a.loops w') ∧
                (w.BreaksOff n w' → ¬ w'.InLoops n a.loops.length) ∧
                (¬ w'.InLoops n a.loops.length → w.LeavesLoop n a (loop rest) r w') := by
  obtain ⟨v, elements, exit, rfl, loopsOver⟩ := Activation.loopsOver_of_forEach executed
  obtain ⟨x, r, stack, heap, -, -, -, generates⟩ := loopsOver.generates
  refine ⟨v, elements, exit, rfl, loopsOver, ?_⟩
  have start := begins_or_skips latest fetched executed generates
  have first := fun inside : (after calls H s.step).InLoops n s.current.loops.length =>
    start.resolve_right fun skips => skips.1 inside
  refine ⟨?_, fun w => ⟨⟨fun lasts => (laps_iff lasts.1).1 lasts.2, ?_⟩, fun done w₁ laps => ?_⟩⟩
  · rcases start with ⟨r, rest, -, -, stays⟩ | ⟨-, skips⟩
    · exact .inl stays.inLoops
    · exact .inr skips
  · rintro ⟨done, w₁, laps⟩
    exact ⟨laps.inLoops, (laps_iff laps.inLoops).2 ⟨done, w₁, laps⟩⟩
  · obtain ⟨r, rest, visits, begins, stays⟩ := laps.visits (first laps.inLoops)
    refine ⟨r, rest, visits, visits.size, begins, stays, stays.refs_le rfl, fun w' move =>
      ⟨fun frame ends => ?_, fun breaks => breaks.not_inLoops move, move.leavesLoop stays⟩⟩
    obtain ⟨s', calls', H', inline', budget', rfl, -, fetched', rfl, -, within⟩ := ends.within stays
    cases move
    refine ⟨within.frame, s', calls', H', inline', budget', rfl, fetched', ?_⟩
    exact congrArg (after calls' H') (Session.step_endBody within fetched')

/-- A machine that loops over an array of two numbers. -/
def loopOverPair : Image where
  name := "loopOverPair"
  words := #[.plain .paramsStart, .plain .pushInt, ⟨5⟩, .plain .pushInt, ⟨7⟩, .plain .paramsEnd,
    .plain .forEach, ⟨9⟩, .plain .endBody, .plain .endState]
  states := [⟨0, 0⟩]
  locals := []
  shared := []
  strings := ⟨#[97, 0], #[0]⟩

/-- A fiber of that machine that is about to enter the loop. -/
def beforePairLoop : Session where
  engine := (((Engine.create (fun _ => some loopOverPair) {}).launch "loopOverPair").run 4).engine
  current :=
    { fiber := ⟨0⟩
      machine := "loopOverPair"
      image := loopOverPair
      cell := ⟨0⟩
      continuation := none
      frame := []
      loops := []
      base := 0
      budget := none
      pc := 5
      next := 6 }
  callers := .launch ⟨0⟩ ⟨0⟩

/-- The fiber is in the body for the first number. -/
def firstElement : Session where
  engine := beforePairLoop.step.engine
  current := { beforePairLoop.current with
    frame := [⟨1⟩], loops := [⟨.elements [⟨2⟩], [], 8, 9⟩], pc := 6, next := 8 }
  callers := .launch ⟨0⟩ ⟨0⟩

/-- The fiber is in the body for the second number. -/
def secondElement : Session where
  engine := firstElement.step.engine
  current := { beforePairLoop.current with
    frame := [⟨2⟩], loops := [⟨.elements [], [], 8, 9⟩], pc := 8, next := 8 }
  callers := .launch ⟨0⟩ ⟨0⟩

/-- The first lap is over. -/
private lemma laps_secondElement :
    Laps c 0 0 (after [] 0 beforePairLoop.step) [⟨1⟩] (work (.run secondElement) [] 0)
      (work (.run secondElement) [] 0) := by
  have begun : Laps c 0 0 (after [] 0 beforePairLoop.step) [] (after [] 0 beforePairLoop.step)
      (work (.run firstElement) [] 0) :=
    .begin ⟨firstElement.current, rfl, Nat.one_pos⟩
  have ends : (work (.run firstElement) [] 0).EndsBody 0 0 [⟨1⟩] :=
    ⟨firstElement, [], 0, 0, none, rfl, rfl, by decide +kernel, rfl, rfl⟩
  exact .next begun ends (.step (.run firstElement)) ⟨secondElement.current, rfl, Nat.one_pos⟩

/-- The second number is visited after the first one, and it is the last one. -/
theorem forEach_visits_snapshot_secondElement :
    (work (.run beforePairLoop) [] 0).height = 1 ∧ beforePairLoop.current.fetch = .ok
      (.forEach, 0, none) ∧ beforePairLoop.engine.heap.get? ⟨3⟩ = some (.array #[⟨1⟩, ⟨2⟩]) ∧
      Laps .owning 0 0 (after [] 0 beforePairLoop.step) [⟨1⟩] (work (.run secondElement) [] 0)
        (work (.run secondElement) [] 0) ∧
      Value.Visits secondElement.engine.heap [⟨1⟩] ⟨2⟩ (.elements []) (.array #[⟨1⟩, ⟨2⟩]) ∧
      ∀ w, Move .owning (work (.run secondElement) [] 0) w → ¬ w.InLoops 0 0 →
        (work (.run secondElement) [] 0).LeavesLoop 0 (beforePairLoop.executing none)
          ⟨.elements [], [], 8, 9⟩ ⟨2⟩ w := by
  have fetched : beforePairLoop.current.fetch = .ok (.forEach, 0, none) := by decide +kernel
  have holds : beforePairLoop.engine.heap.get? ⟨3⟩ = some (.array #[⟨1⟩, ⟨2⟩]) := by decide +kernel
  have present : (beforePairLoop.engine.fiber? ⟨0⟩).map (·.stack) = some [some ⟨3⟩] := by
    decide +kernel
  obtain ⟨e, executed⟩ :
    ∃ e, (beforePairLoop.executing none).execute .forEach 0 beforePairLoop.engine =
      .ok (.loop (.elements [⟨1⟩, ⟨2⟩]) 9) e := ⟨_, rfl⟩
  have latest : (work (.run beforePairLoop) [] 0).height = 0 + 1 := rfl
  obtain ⟨v, elements, exit, loops, loopsOver, -, lasts⟩ :=
    forEach_visits_snapshot (c := .owning) latest fetched executed
  cases loops
  obtain ⟨x, r, stack, heap, found, top, read, -⟩ := loopsOver.generates
  -- the array is on top of the stack
  have array : v = .array #[⟨1⟩, ⟨2⟩] := by
    rw [show beforePairLoop.engine.fiber? ⟨0⟩ = some x from found] at present
    cases top.symm.trans (Option.some.inj present)
    exact Option.some.inj (read.symm.trans holds)
  subst array
  obtain ⟨r', rest, ⟨left, whole, rfl⟩, -, -, -, -, leaves⟩ := (lasts _).2 _ _ laps_secondElement
  obtain ⟨rfl, rfl⟩ := List.cons.inj (List.cons.inj whole).2
  exact ⟨rfl, fetched, holds, laps_secondElement, ⟨[], rfl, rfl⟩, fun w move => (leaves w move).2.2⟩

end World

end FiberVM
