import FiberVM.Proofs.Engine.Framing
import FiberVM.Proofs.Engine.Literal
import FiberVM.Proofs.Heap.Collapse
import FiberVM.Proofs.World.Flight

/-!
# Argument lists in the course of time

An argument list is opened by a marker on the stack of a fiber. Whatever happens in the world, the
marker and everything beneath it stay in their place as long as the fiber exists, until an
instruction of the fiber closes the list (`World.Closes`). Meanwhile the instructions of the fiber
do as if there were nothing beneath the marker, and the one that closes the list leaves an array in
its place (`World.brackets_protected`).
-/

namespace FiberVM

open Engine

variable {c : Conduct} {w w' : World} {H H' : Multiset Ref} {e e' : Engine}
  {calls : List (HostCall × Session)} {closes : FiberId → Prop} {f : FiberId} {x y : Fiber}
  {below : List (Option Ref)}

/-! ## What a host does -/

namespace Engine

/-- A registration touches no stack. -/
lemma guards_register (parent : Option ContinuationId) (f : FiberId) (condition : Condition)
    (pc : Nat) (e : Engine) :
    Guards closes e (e.register parent f condition pc).2 := by
  unfold Engine.register
  cases retained : e.retainFiber f with
  | none => exact .refl e
  | some taken =>
    obtain ⟨cell, e'⟩ := taken
    obtain ⟨-, heap, rfl⟩ := retainFiber_eq retained
    dsimp only
    split <;> exact .of_eq rfl

lemma guards_registerAt (parent : Option ContinuationId) (f : FiberId) (expiry : Binary64)
    (pc : Nat) (recurrence : Int64) (delta : Binary64) (e : Engine) :
    Guards closes e (e.registerAt parent f expiry pc recurrence delta).2 := by
  unfold Engine.registerAt
  cases retained : e.retainFiber f with
  | none => exact .refl e
  | some taken =>
    obtain ⟨cell, e'⟩ := taken
    obtain ⟨-, heap, rfl⟩ := retainFiber_eq retained
    exact .of_eq rfl

lemma guards_reap (e : Engine) : Guards closes e e.reap :=
  (changes_reap (P := .nothing) e).guards.mono fun _ => False.elim

lemma guards_cancel (id : ContinuationId) (e : Engine) : Guards closes e (e.cancel id).2 := by
  unfold Engine.cancel
  split
  · exact .refl e
  · have released : Guards closes e ({ e with agenda := (e.agenda.cancel id).2 }.releaseAll
        (e.agenda.cancel id).1) :=
      .of_eq rfl
    exact released.trans (guards_reap _)

end Engine

/-- What a host does at once leaves stacks alone. -/
lemma Act.guards (done : Act c e H e' H') : Guards closes e e' := by
  cases done with
  | post list event =>
    unfold Engine.post
    split <;> exact .of_eq rfl
  | register parent fiber condition pc => exact guards_register parent fiber condition pc e
  | registerAt parent fiber expiry pc recurrence delta =>
    exact guards_registerAt parent fiber expiry pc recurrence delta e
  | cancel id => exact guards_cancel id e
  | declareGlobal name v => cases Engine.declareGlobal name v e.heap <;> exact .of_eq rfl
  | alloc | allocFull | copy | release | takeFaults | print | addFunction | addLibrary | meddle =>
    exact .of_eq rfl

/-! ## What an engine does -/

lemma Request.guards (q : Request) (e : Engine) : Guards closes e (q.start e).engine := by
  rcases q.flies e with ⟨dt, rfl⟩ | flies
  · exact .of_eq rfl
  · exact flies.guards.mono fun _ => False.elim

lemma Session.guards_fire (due : List ContinuationId) (e : Engine) :
    Guards closes e (fire due e).engine := by
  obtain ⟨agenda, cells, changes⟩ := changes_fire due e
  have released : Guards closes e ({ e with agenda }.releaseAll cells) := .of_eq rfl
  exact released.trans (changes.guards.mono fun _ => False.elim)

namespace World

/-- The next instruction closes an argument list of a fiber. -/
def ClosesList (w : World) (f : FiberId) : Prop :=
  ∃ s calls H, w = work (.run s) calls H ∧ (Session.permit s).closes f

/-- Whatever happens, only an instruction that closes a list takes away what is guarded. -/
lemma Move.guards (move : Move c w w') : Guards w.ClosesList w.engine w'.engine := by
  cases move with
  | act done => exact done.guards
  | request q =>
    rw [engine_after]
    exact q.guards _
  | @answer e H calls call s results =>
    have unwinds := s.unwinds_answer (P := .nothing) e call results
    rw [engine_after]
    exact unwinds.flies.guards.mono fun _ => False.elim
  | step t =>
    rw [engine_after]
    cases t with
    | run s => exact (Session.flies_step s).guards.mono fun f closes => ⟨s, _, _, rfl, closes⟩
    | fire due e => exact Session.guards_fire due e

/-! ## Closing a list -/

/-- The next instruction closes the argument list of a fiber that starts above some entries. -/
def Closes (f : FiberId) (below : List (Option Ref)) (w : World) : Prop :=
  ∃ s calls H inline budget x, w = work (.run s) calls H ∧ s.current.fiber = f ∧
    s.current.fetch = .ok (.paramsEnd, inline, budget) ∧ s.engine.fiber? f = some x ∧
      x.guarded = none :: below

end World

/-- Above the latest marker there are references. -/
lemma Fiber.stack_of_guarded (guarded : x.guarded = none :: below) :
    ∃ refs : List Ref, x.stack = refs.reverse.map some ++ none :: below := by
  have split : ∀ stack : List (Option Ref), stack.dropWhile Option.isSome = none :: below →
      ∃ refs : List Ref, stack = refs.map some ++ none :: below := by
    intro stack dropped
    induction stack with
    | nil => cases dropped
    | cons entry rest ih =>
      cases entry with
      | none => exact ⟨[], dropped⟩
      | some r =>
        obtain ⟨refs, rfl⟩ := ih dropped
        exact ⟨r :: refs, rfl⟩
  obtain ⟨refs, stack⟩ := split x.stack guarded
  exact ⟨refs.reverse, by rw [List.reverse_reverse, stack]⟩

namespace Session

variable {s : Session} {inline : Nat} {budget : Option Nat} {refs : List Ref}
  {inner : List (Option Ref)}

/-- The array of the references takes the place of the list. -/
lemma step_closes (fetched : s.current.fetch = .ok (.paramsEnd, inline, budget))
    (found : s.engine.fiber? s.current.fiber = some x)
    (pushed : x.stack = refs.reverse.map some ++ none :: below)
    (room : s.engine.heap.isFull = false) :
    ∃ e' r, s.step = .running
      (.run ⟨e', { s.executing budget with next := s.current.next + 1 }, s.callers⟩) ∧
      s.engine.Restacks s.current.fiber x 1 (some r :: below) e' ∧
        e'.heap.get? r = some (.array refs.toArray) := by
  obtain ⟨e', r, closed, restacks, holds⟩ := closeList_restacks found room pushed
  have executed : (s.executing budget).execute .paramsEnd inline s.engine = .ok .advance e' :=
    bind_of_ok closed
  refine ⟨e', r, ?_, restacks, holds⟩
  rw [step_of_fetch fetched, executed]
  rfl

/-- Where there is no room for the array, the references are given up and the run fails. -/
lemma step_closes_of_full (fetched : s.current.fetch = .ok (.paramsEnd, inline, budget))
    (found : s.engine.fiber? s.current.fiber = some x)
    (pushed : x.stack = refs.reverse.map some ++ none :: below)
    (full : s.engine.heap.isFull = true) :
    s.step = fail (s.executing budget) s.callers .heapExhausted
      (({ s.engine with heap := s.engine.heap.releaseValue (.array refs.toArray) } :
        Engine).setFiber s.current.fiber { x with stack := below }) := by
  have executed : (s.executing budget).execute .paramsEnd inline s.engine = .error _ _ :=
    bind_of_error (closeList_of_full found full pushed)
  rw [step_of_fetch fetched, executed]
  rfl

/-- Closing a list leaves everything beneath it in its place. -/
lemma marked_of_closes (fetched : s.current.fetch = .ok (.paramsEnd, inline, budget))
    (found : s.engine.fiber? s.current.fiber = some x) (guarded : x.guarded = none :: inner)
    (marked : none :: below <:+ inner) (found' : s.step.engine.fiber? s.current.fiber = some y) :
    none :: below <:+ y.stack := by
  obtain ⟨refs, pushed⟩ := Fiber.stack_of_guarded guarded
  cases full : s.engine.heap.isFull with
  | false =>
    obtain ⟨e', r, step, restacks, -⟩ := step_closes fetched found pushed full
    rw [step] at found'
    cases restacks.fiber.symm.trans found'
    exact marked.trans (List.suffix_cons _ _)
  | true =>
    have step := step_closes_of_full fetched found pushed full
    rw [step] at found'
    have guards := (unwinds_fail (P := .nothing) (s.executing budget) s.callers .heapExhausted
      (({ s.engine with heap := s.engine.heap.releaseValue (.array refs.toArray) } :
        Engine).setFiber s.current.fiber { x with stack := inner })).flies.guards
    refine guards.marked ((fiber?_setFiber found).trans (if_pos rfl)) marked id found'

end Session

namespace World

/-- A marker and everything beneath it stay in their place, unless their list is closed or their
fiber ends. -/
lemma Move.marked (move : Move c w w') (there : w.engine.fiber? f = some x)
    (marked : none :: below <:+ x.stack) (unclosed : ¬ w.Closes f below)
    (found : w'.engine.fiber? f = some y) : none :: below <:+ y.stack := by
  by_cases closes : w.ClosesList f
  · obtain ⟨s, calls, H, rfl, inline, budget, fetched, rfl⟩ := closes
    -- The list that is closed is another one, which starts above the marker.
    obtain ⟨inner, guarded, marked'⟩ : ∃ inner, x.guarded = none :: inner ∧
        none :: below <:+ inner := by
      have beneath := Fiber.guarded_of_marked marked
      rcases x.guarded_cases with nothing | ⟨inner, guarded⟩
      · rw [nothing] at beneath
        cases List.suffix_nil.1 beneath
      · rw [guarded] at beneath
        rcases List.suffix_cons_iff.1 beneath with same | inside
        · exact absurd ⟨s, calls, H, inline, budget, x, rfl, rfl, fetched, there,
            guarded.trans same.symm⟩ unclosed
        · exact ⟨inner, guarded, inside⟩
    cases move with
    | step t =>
      rw [engine_after] at found
      exact Session.marked_of_closes fetched there guarded marked' found
  · exact move.guards.marked there marked closes found

/-- What can happen next while a list stays open. -/
def Unclosed (c : Conduct) (f : FiberId) (below : List (Option Ref)) (w w' : World) : Prop :=
  Move c w w' ∧ ¬ w.Closes f below

/-- A marker stays until its list is closed. -/
lemma marked_of_unclosed (later : Relation.ReflTransGen (Unclosed c f below) w w')
    (there : w.engine.fiber? f = some x) (marked : none :: below <:+ x.stack)
    (found : w'.engine.fiber? f = some y) : none :: below <:+ y.stack := by
  have kept : f.id < w'.engine.fibers.next ∧ ∀ y, w'.engine.fiber? f = some y →
      none :: below <:+ y.stack := by
    clear found
    induction later with
    | refl =>
      refine ⟨lt_next_of_isSome (there ▸ rfl), fun y found => ?_⟩
      cases there.symm.trans found
      exact marked
    | tail _ next ih =>
      obtain ⟨issued, marked⟩ := ih
      have guards := next.1.guards
      refine ⟨issued.trans_le guards.next, fun y found => ?_⟩
      -- A fiber that is there now was there before.
      obtain ⟨z, there, -⟩ := guards.kept issued found
      exact next.1.marked there (marked z there) next.2 found
  exact kept.2 y found

/-- A stack is taken apart at a marker. -/
lemma stands_of_marked {above} (found : e.fiber? f = some y)
    (stack : y.stack = above ++ none :: below) :
    Stands f (none :: below) (e.setFiber f { y with stack := above }) e := by
  have same : e.fibers.get? f.id = some y := found
  refine ⟨e.fibers, ⟨(Arena.next_set _ _ _).symm, ?_, fun id other => ?_⟩, rfl⟩
  · rw [setFiber, Arena.get?_set, same, if_pos ⟨rfl, rfl⟩]
    change some y = some { y with stack := above ++ none :: below }
    rw [← stack]
  · rw [setFiber, Arena.get?_set, if_neg fun both => other both.1]

/-- Once an instruction has opened an argument list of its fiber, the marker and everything beneath
it stay in their place as long as the list is not closed and the fiber exists. An instruction of the
fiber that does not close the list does as if the stack ended with the marker: either it underflows,
or what is beneath the operands makes no difference to it. The instruction that closes the list puts
an array of the references above the marker in their place, in the order in which they were pushed;
if there is no room for it, each of them is given up and the run fails. -/
theorem brackets_protected {s₀ : Session} {inline₀ : Nat} {budget₀ : Option Nat}
    (opened : s₀.current.fetch = .ok (.paramsStart, inline₀, budget₀))
    (present : s₀.engine.fiber? s₀.current.fiber = some x)
    (later : Relation.ReflTransGen (Unclosed c s₀.current.fiber x.stack) (after calls H s₀.step) w)
    (found : w.engine.fiber? s₀.current.fiber = some y) :
    ∃ above, y.stack = above ++ none :: x.stack ∧
      ∀ s calls H op inline budget, w = work (.run s) calls H → s.current.fiber = s₀.current.fiber →
        s.current.fetch = .ok (op, inline, budget) →
        ((op = .paramsEnd → none ∈ above) →
          let bare := s.engine.setFiber s.current.fiber { y with stack := above }
          Stands s.current.fiber (none :: x.stack) bare s.engine ∧
            ∀ rest e, Stands s.current.fiber rest bare e →
              Framed (· = .stackUnderflow) s.current.fiber rest
                ((s.executing budget).execute op inline bare)
                  ((s.executing budget).execute op inline e) ∧
                (Takes s.current.fiber rest ((s.executing budget).execute op inline e) →
                  ∃ e', (s.executing budget).execute op inline s.engine =
                    .error .stackUnderflow e')) ∧
        (op = .paramsEnd → none ∉ above → ∃ refs : List Ref, above = refs.reverse.map some ∧
          (s.engine.heap.isFull = false → ∃ e r,
            s.step = .running (.run ⟨e, { s.executing budget with next := s.current.next + 1 },
              s.callers⟩) ∧ s.engine.Restacks s.current.fiber y 1 (some r :: x.stack) e ∧
              e.heap.get? r = some (.array refs.toArray)) ∧
          (s.engine.heap.isFull = true →
            s.step = Session.fail (s.executing budget) s.callers .heapExhausted
              (({ s.engine with heap := s.engine.heap.releaseValue (.array refs.toArray) } :
                Engine).setFiber s.current.fiber { y with stack := x.stack }) ∧
            (s.engine.heap.Filled → ∃ D, s.engine.heap.Collapsed {.array refs.toArray} D
              (s.engine.heap.releaseValue (.array refs.toArray))))) := by
  have step : s₀.step =
      .running (.run ⟨s₀.engine.setFiber s₀.current.fiber { x with stack := none :: x.stack },
      { s₀.executing budget₀ with next := s₀.current.next + 1 }, s₀.callers⟩) := by
    have executed : (s₀.executing budget₀).execute .paramsStart inline₀ s₀.engine =
        .ok .advance _ :=
      bind_of_ok (bind_of_ok (fiber_of_some present))
    rw [Session.step_of_fetch opened, executed]
    rfl
  rw [step] at later
  obtain ⟨above, stack⟩ :=
    marked_of_unclosed later ((fiber?_setFiber present).trans (if_pos rfl)) List.suffix_rfl found
  refine ⟨above, stack.symm, fun s calls H op inline budget here same fetched => ?_⟩
  subst here
  rw [← same] at found
  constructor
  · intro unclosed
    have framed : ∀ {rest e},
        Stands s.current.fiber rest (s.engine.setFiber s.current.fiber { y with stack := above })
          e →
        Framed _ _ _ _ _ := fun stands => Activation.framed_execute (a := s.executing budget) stands
      ((fiber?_setFiber found).trans (if_pos rfl)) unclosed inline
    have bare := stands_of_marked found stack.symm
    refine ⟨bare, fun rest e stands => ⟨framed stands, fun takes => ?_⟩⟩
    obtain ⟨fault, e', failed, rfl⟩ := (framed stands).short_of_takes takes
    have here := framed bare
    rw [failed] at here
    exact here.error_of_marked
  · rintro rfl latest
    have guarded : y.guarded = none :: x.stack := by
      rw [Fiber.guarded, ← stack, List.dropWhile_append_of_pos]
      · rfl
      · intro entry listed
        cases entry with
        | none => exact absurd listed latest
        | some r => rfl
    obtain ⟨refs, pushed⟩ := Fiber.stack_of_guarded guarded
    refine ⟨refs, List.append_cancel_right (stack.trans pushed), fun room => ?_, fun full =>
      ⟨?_, fun filled => ?_⟩⟩
    · exact Session.step_closes fetched found pushed room
    · exact Session.step_closes_of_full fetched found pushed full
    · exact Heap.collapsed_releaseValues filled [.array refs.toArray]

/-- A machine that adds within an argument list, where there is one number only. -/
def addInsideList : Image where
  name := "addInsideList"
  words := #[.plain .pushInt, ⟨5⟩, .plain .paramsStart, .plain .pushInt, ⟨7⟩, .plain .add,
    .plain .endState]
  states := [⟨0, 0⟩]
  locals := []
  shared := []
  strings := ⟨#[97, 0], #[0]⟩

/-- A fiber of that machine that is about to open the list. -/
def beforeList : Session where
  engine := (((Engine.create (fun _ => some addInsideList) {}).launch "addInsideList").run 1).engine
  current :=
    { fiber := ⟨0⟩
      machine := "addInsideList"
      image := addInsideList
      cell := ⟨0⟩
      continuation := none
      frame := []
      loops := []
      base := 0
      budget := none
      pc := 0
      next := 2 }
  callers := .launch ⟨0⟩ ⟨0⟩

/-- The fiber is about to add. -/
def beforeAdd : Session where
  engine := ((Progress.running (.run beforeList)).run 2).engine
  current := { beforeList.current with pc := 3, next := 5 }
  callers := beforeList.callers

private lemma unclosed_beforeAdd (below : List (Option Ref)) :
    Relation.ReflTransGen (Unclosed c ⟨0⟩ below) (after [] 0 beforeList.step)
      (work (.run beforeAdd) [] 0) := by
  refine .single ⟨.step _, ?_⟩
  rintro ⟨s, calls, H, inline, budget, x, here, -, fetched, -⟩
  cases here
  cases fetched

/-- The fiber with a stack. -/
def summand (stack : List (Option Ref)) : Fiber :=
  { machine := "addInsideList", image := addInsideList, cell := some ⟨0⟩, stack }

/-- The sum finds one number above the marker, and does not take the other one from beneath it as it
would without the marker. -/
theorem brackets_protected_beforeList :
    beforeList.engine.fiber? ⟨0⟩ = some (summand [some ⟨1⟩]) ∧
      beforeAdd.engine.fiber? ⟨0⟩ = some (summand [some ⟨2⟩, none, some ⟨1⟩]) ∧
      Takes ⟨0⟩ [some ⟨1⟩] ((beforeAdd.executing none).execute .add 0
        (beforeAdd.engine.setFiber ⟨0⟩ (summand [some ⟨2⟩, some ⟨1⟩]))) ∧
      ∃ e, (beforeAdd.executing none).execute .add 0 beforeAdd.engine =
        .error .stackUnderflow e := by
  have present : beforeList.engine.fiber? ⟨0⟩ = some (summand [some ⟨1⟩]) := by decide +kernel
  have found : beforeAdd.engine.fiber? ⟨0⟩ = some (summand [some ⟨2⟩, none, some ⟨1⟩]) := by
    decide +kernel
  obtain ⟨above, stack, instruction⟩ :=
    brackets_protected (c := .owning) (w := work (.run beforeAdd) [] 0) rfl present
      (unclosed_beforeAdd _) found
  have same : [some (⟨2⟩ : Ref)] ++ [none, some ⟨1⟩] = above ++ [none, some ⟨1⟩] := stack
  obtain rfl := List.append_cancel_right same
  have takes : Takes ⟨0⟩ [some ⟨1⟩] ((beforeAdd.executing none).execute .add 0
      (beforeAdd.engine.setFiber ⟨0⟩ (summand [some ⟨2⟩, some ⟨1⟩]))) := by
    have left : (match (beforeAdd.executing none).execute .add 0
        (beforeAdd.engine.setFiber ⟨0⟩ (summand [some ⟨2⟩, some ⟨1⟩])) with
        | .ok _ e | .error _ e => e.fiber? ⟨0⟩) = some (summand [some ⟨3⟩]) := by decide +kernel
    generalize (beforeAdd.executing none).execute .add 0 _ = r at left ⊢
    cases r with
    | ok a e => exact ⟨_, left, by decide⟩
    | error fault e => exact ⟨_, left, by decide⟩
  obtain ⟨-, framed⟩ := (instruction beforeAdd [] 0 .add 0 none rfl rfl rfl).1 nofun
  have stands : Stands ⟨0⟩ [some ⟨1⟩] (beforeAdd.engine.setFiber ⟨0⟩ (summand [some ⟨2⟩]))
      (beforeAdd.engine.setFiber ⟨0⟩ (summand [some ⟨2⟩, some ⟨1⟩])) := stands_setFiber _
  exact ⟨present, found, takes, (framed _ _ stands).2 takes⟩

end World

end FiberVM
