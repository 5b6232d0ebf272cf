import FiberVM.Proofs.Engine.Addresses
import FiberVM.Proofs.Image.Boundary
import FiberVM.Proofs.World.Flight
import FiberVM.Proofs.World.Isolation

/-!
# Runs stay on instructions

Runs are stacked upon each other: a run that launches a fiber or calls the host waits until those
above it have ended. So a run is known by its height in the stack for as long as it lasts
(`World.Lasts`), and each run is at a position of its own (`World.positions`).

A run that begins at an instruction of an aligned image goes on at instructions and at the end of
the words. It finds all words and strings that it reads, and the addresses that it keeps for later
are boundaries again (`World.run_stays_on_boundaries`). Where execution goes astray all the same is
said by `World.Faults.astray`.
-/

namespace FiberVM

open Engine

variable {c : Conduct} {source : String → Option Image} {config : Config} {P : Permit} {e : Engine}
  {i : Image} {a : Activation} {op : Opcode} {callers : Callers} {p : Progress} {s : Session}
  {w w' w₀ : World} {x : Failure} {calls : List (HostCall × Session)} {H : Multiset Ref}
  {f : FiberId} {n : Nat}

/-! ## Positions -/

/-- Where a run goes on. -/
structure Position where
  fiber : FiberId
  image : Image
  loops : List Loop
  next : Nat

/-- The position of an activation that goes on at an address. -/
def Activation.position (a : Activation) (next : Nat) : Position :=
  ⟨a.fiber, a.image, a.loops, next⟩

/-- The positions of the activations that wait, the latest first. -/
def Callers.positions : Callers → List Position
  | nested _ launcher below => launcher.position (launcher.pc + 1) :: below.positions
  | _ => []

/-- The positions of a session that waits for the host. -/
def Session.waiting (s : Session) : List Position :=
  s.current.position (s.current.pc + 1) :: s.callers.positions

def Progress.positions : Progress → List Position
  | running (.run s) => s.current.position s.current.next :: s.callers.positions
  | running (.fire ..) => []
  | awaiting _ s => s.waiting
  | done .. => []

/-- Once a run has ended, those below it that have not ended are where they were. -/
lemma Unwinds.positions (unwinds : Unwinds P e callers p) : p.positions <:+ callers.positions := by
  induction unwinds with
  | answer => exact List.nil_suffix
  | fire => exact List.nil_suffix
  | resume => exact List.suffix_rfl
  | fail _ ih => exact ih.trans (List.suffix_cons _ _)

/-- A position to which an instruction leads. -/
structure Position.Follows (a : Activation) (op : Opcode) (x : Position) : Prop where
  fiber : x.fiber = a.fiber
  image : x.image = a.image
  next : a.Leads op x.next
  loops : ∀ l ∈ x.loops, a.Leads op l.body ∧ a.Leads op l.exit

/-- The run on top goes where its instruction leads, with another one above it or not, or it has
ended. -/
lemma Session.Goes.positions (goes : Session.Goes P a op callers e p) :
    ∃ x above, Position.Follows a op x ∧ p.positions <:+ above ++ x :: callers.positions := by
  have waits : op.width = 1 → Position.Follows a op (a.position (a.pc + 1)) :=
    fun width => ⟨rfl, rfl, Activation.leads_of_width width, a.leads_loops op⟩
  cases goes with
  | @on a' e' goesOn changes =>
    exact ⟨a'.position a'.next, [], ⟨goesOn.fiber, goesOn.image, goesOn.next, goesOn.loops⟩,
      List.suffix_rfl⟩
  | @launch b cell start e' fresh endowed room width changes own =>
    exact ⟨_, [b.position b.next], waits width, List.suffix_rfl⟩
  | back width unwinds => exact ⟨_, [], waits width, unwinds.positions⟩
  | await width changes => exact ⟨_, [], waits width, List.suffix_rfl⟩
  | unwind unwinds =>
    refine ⟨a.position (a.pc + op.width), [], ⟨rfl, rfl, .next, a.leads_loops op⟩, ?_⟩
    exact unwinds.positions.trans (List.suffix_cons _ _)

/-- The run of a fiber is at a boundary of its image, and its loops lead to boundaries. -/
structure Image.OnCourse (i : Image) (f : FiberId) (x : Position) : Prop where
  fiber : x.fiber = f
  image : x.image = i
  next : i.Boundary x.next
  loops : ∀ l ∈ x.loops, i.Boundary l.body ∧ i.Boundary l.exit

/-! ## Steps of the run on top -/

namespace Session

/-- The run on top is on course. -/
abbrev OnCourse (i : Image) (f : FiberId) (s : Session) : Prop :=
  i.OnCourse f (s.current.position s.current.next)

variable {inline : Nat} {budget : Option Nat}

/-- On course, an instruction of the image is fetched. -/
lemma OnCourse.fetched (course : s.OnCourse i f) (sound : i.defect? = none)
    (fetched : s.current.fetch = .ok (op, inline, budget)) :
    ∃ ins ∈ i.instructions, ins.address = s.current.next ∧ ins.op = op ∧ ins.inline = inline := by
  rcases Image.fetch_of_boundary sound course.image course.next with
    ⟨ins, listed, address, failed | ⟨budget', found⟩⟩ | ⟨-, failed⟩
  · rw [fetched] at failed
    cases failed
  · rw [fetched] at found
    cases found
    exact ⟨ins, listed, address, rfl, rfl⟩
  · rw [fetched] at failed
    cases failed

/-- On course, an instruction leads to boundaries. -/
lemma OnCourse.leads (course : s.OnCourse i f) (aligned : i.Aligned)
    (fetched : s.current.fetch = .ok (op, inline, budget)) {address}
    (leads : (s.executing budget).Leads op address) : i.Boundary address := by
  obtain ⟨ins, listed, here, rfl, -⟩ := course.fetched aligned.sound fetched
  exact aligned.leads (a := s.executing budget) course.image listed here course.loops leads

/-- On course, a run goes on on course. -/
lemma OnCourse.follows (course : s.OnCourse i f) (aligned : i.Aligned)
    (fetched : s.current.fetch = .ok (op, inline, budget)) {x}
    (follows : Position.Follows (s.executing budget) op x) : i.OnCourse f x where
  fiber := follows.fiber.trans course.fiber
  image := follows.image.trans course.image
  next := course.leads aligned fetched follows.next
  loops l inside := by
    obtain ⟨body, exit⟩ := follows.loops l inside
    exact ⟨course.leads aligned fetched body, course.leads aligned fetched exit⟩

/-- On course, an instruction has its operand word. -/
lemma OnCourse.word (course : s.OnCourse i f) (sound : i.defect? = none)
    (fetched : s.current.fetch = .ok (op, inline, budget)) (takes : op.operands ≠ 0) :
    ∃ v, s.current.image.words[s.current.next + 1]? = some v := by
  obtain ⟨ins, listed, here, rfl, -⟩ := course.fetched sound fetched
  obtain ⟨v, found, -⟩ := (Image.stands sound listed).operand takes
  have image : s.current.image = i := course.image
  rw [here, Array.getElem?_toList, ← image] at found
  exact ⟨v, found⟩

lemma OnCourse.operand (course : s.OnCourse i f) (sound : i.defect? = none)
    (fetched : s.current.fetch = .ok (op, inline, budget)) (takes : op.operands ≠ 0) :
    ∃ v, (s.executing budget).operand = pure v := by
  obtain ⟨v, found⟩ := course.word sound fetched takes
  refine ⟨v, ?_⟩
  change EngineM.orFault s.current.image.words[s.current.next + 1]? _ = _
  rw [found]
  rfl

/-- On course, an instruction finds its string. -/
lemma OnCourse.string (course : s.OnCourse i f) (sound : i.defect? = none)
    (fetched : s.current.fetch = .ok (op, inline, budget)) (takes : op.takesString) :
    ∃ name, (s.executing budget).string inline = pure name := by
  obtain ⟨ins, listed, -, rfl, rfl⟩ := course.fetched sound fetched
  obtain ⟨small, readable⟩ := (Image.operands_of_sound sound listed).1 takes
  obtain ⟨name, found⟩ := Option.isSome_iff_exists.1 readable
  have image : (s.executing budget).image = i := course.image
  refine ⟨name, ?_⟩
  rw [Activation.string, if_pos small, image, found]
  rfl

/-- What the run on top keeps while it is on course. -/
def onCoursePermit (i : Image) (f : FiberId) : Permit where
  keeps g pc := g = f ∧ i.Boundary pc
  leaves _ := True
  closes _ := True
  looks _ := True
  notes _ _ := True

/-- On course, only boundaries are kept for later. -/
lemma OnCourse.permitted (course : s.OnCourse i f) (aligned : i.Aligned)
    (fetched : s.current.fetch = .ok (op, inline, budget)) :
    (s.executing budget).Permitted (onCoursePermit i f) op inline where
  body := by
    rintro rfl v found
    exact ⟨course.fiber, course.leads aligned fetched (.operand rfl found)⟩
  after := by
    rintro (rfl | rfl)
    · exact ⟨course.fiber, course.leads aligned fetched .next⟩
    · exact ⟨course.fiber, course.leads aligned fetched .next⟩
  state _ := trivial
  list _ := trivial
  call _ := trivial
  note _ := trivial

/-- On course, the addresses that are kept for later are boundaries. -/
lemma OnCourse.stores (course : s.OnCourse i f) (aligned : i.Aligned)
    (tidy : s.engine.agenda.Tidy) :
    Stores (fun g pc => g = f ∧ i.Boundary pc) s.engine s.step.engine := by
  cases fetched : s.current.fetch with
  | error fault => exact (unwinds_step (P := onCoursePermit i f) fetched).flies.stores tidy
  | ok instruction =>
    obtain ⟨op, inline, budget⟩ := instruction
    exact (goes_step fetched (course.permitted aligned fetched)).flies.stores tidy

end Session

namespace World

/-! ## Runs that last -/

/-- The positions of all runs, the latest first. -/
def positions : World → List Position
  | host _ calls _ => calls.flatMap (·.2.waiting)
  | work t calls _ => (Progress.running t).positions ++ calls.flatMap (·.2.waiting)

/-- The number of runs that have not ended. -/
def height (w : World) : Nat := w.positions.length

/-- The position of the run that has so many below it. -/
def position? (n : Nat) (w : World) : Option Position := w.positions.reverse[n]?

/-- What happens while the run lasts that was the latest one at the beginning. -/
abbrev Lasts (c : Conduct) (w₀ : World) : World → Prop :=
  Relation.ReflTransGen (fun w w' => Move c w w' ∧ w₀.height ≤ w'.height) w₀

lemma positions_after (calls : List (HostCall × Session)) (H : Multiset Ref) (p : Progress) :
    (after calls H p).positions = p.positions ++ calls.flatMap (·.2.waiting) := by
  cases p <;> rfl

/-- Runs that were there before are where they were. -/
lemma position?_of_append {above} (more : w'.positions = above ++ w.positions)
    (deep : n < w.height) :
    w'.position? n = w.position? n := by
  rw [position?, more, List.reverse_append, List.getElem?_append_left, position?]
  rw [List.length_reverse]
  exact deep

/-- Runs that have not ended are where they were. -/
lemma position?_of_suffix {l x} (left : w'.positions <:+ l) (there : w'.position? n = some x) :
    l.reverse[n]? = some x := by
  obtain ⟨above, rfl⟩ := left
  rw [List.reverse_append, List.getElem?_append_left (List.getElem?_eq_some_iff.1 there).1]
  exact there

/-- Where the latest run has gone on, with others above it, every run is where it was or is the one
that has gone on. -/
private lemma getElem?_reverse_cases {above} {below : List Position} {x y z}
    (deep : n ≤ below.length) (there : (above ++ y :: below).reverse[n]? = some x) :
    (z :: below).reverse[n]? = some x ∨ (z :: below).reverse[n]? = some z ∧ x = y := by
  rw [List.reverse_append, List.reverse_cons, List.append_assoc] at there
  rw [List.reverse_cons]
  rcases Nat.lt_or_eq_of_le deep with lower | rfl
  · rw [← List.length_reverse] at lower
    rw [List.getElem?_append_left lower] at there ⊢
    exact .inl there
  · rw [← List.length_reverse, List.getElem?_append_right (Nat.le_refl _), Nat.sub_self] at there ⊢
    cases there
    exact .inr ⟨rfl, rfl⟩

/-- A run that is on course stays so in each move in which it does not end. -/
lemma Move.onCourse (move : Move c w w') (aligned : i.Aligned) (deep : n < w.height)
    (course : ∀ x ∈ w.position? n, i.OnCourse f x) : ∀ x ∈ w'.position? n, i.OnCourse f x := by
  intro x there
  cases move with
  | act done => exact course x there
  | @request e H calls q =>
    -- a new run begins above all others
    rw [position?_of_append (positions_after calls H _) deep] at there
    exact course x there
  | @answer e H calls call s results =>
    have unwinds := s.unwinds_answer (P := .nothing) e call results
    refine course x (position?_of_suffix ?_ there)
    rw [positions_after]
    exact List.suffix_append_self_iff.2 unwinds.positions
  | @step H calls t =>
    cases t with
    | fire due e =>
      rw [position?_of_append (positions_after calls H _) deep] at there
      exact course x there
    | run s =>
      cases fetched : s.current.fetch with
      | error fault =>
        have unwinds := Session.unwinds_step (P := .nothing) fetched
        refine course x (position?_of_suffix ?_ there)
        rw [positions_after]
        exact List.suffix_append_self_iff.2 (unwinds.positions.trans (List.suffix_cons _ _))
      | ok instruction =>
        obtain ⟨op, inline, budget⟩ := instruction
        have goes := Session.goes_step fetched (Activation.permitted_anything _ op _)
        obtain ⟨y, above, follows, left⟩ := goes.positions
        have left : (after calls H s.step).positions <:+
            above ++ y :: (s.callers.positions ++ calls.flatMap (·.2.waiting)) := by
          rw [positions_after, ← List.cons_append, ← List.append_assoc]
          exact List.suffix_append_self_iff.2 left
        -- a run further down waits where it has waited, and the one on top goes where its
        -- instruction leads
        rcases getElem?_reverse_cases (Nat.le_of_lt_succ deep) (position?_of_suffix left there) with
          same | ⟨own, rfl⟩
        · exact course x same
        · exact Session.OnCourse.follows (course _ own) aligned fetched follows

/-- A run that is on course stays so as long as it lasts. -/
lemma Lasts.onCourse (lasts : Lasts c w₀ w) (aligned : i.Aligned) (latest : w₀.height = n + 1)
    (course : ∀ x ∈ w₀.position? n, i.OnCourse f x) : ∀ x ∈ w.position? n, i.OnCourse f x := by
  have both : n < w.height ∧ ∀ x ∈ w.position? n, i.OnCourse f x := by
    induction lasts with
    | refl => exact ⟨Nat.lt_of_succ_le (Nat.le_of_eq latest.symm), course⟩
    | tail _ move ih =>
      have there : n < _ := Nat.lt_of_succ_le (Nat.le_trans (Nat.le_of_eq latest.symm) move.2)
      exact ⟨there, move.1.onCourse aligned ih.1 ih.2⟩
  exact both.2

lemma Lasts.reaches (lasts : Lasts c w₀ w) : Reaches c w₀ w := by
  induction lasts with
  | refl => exact .refl
  | tail _ move ih => exact ih.tail move.1

/-- The latest run, where the engine is at work on it. -/
lemma position?_run (s : Session) (latest : (work (.run s) calls H).height = n + 1) :
    (work (.run s) calls H).position? n = some (s.current.position s.current.next) := by
  have below : (s.callers.positions ++ calls.flatMap (·.2.waiting)).length = n :=
    Nat.succ.inj latest
  rw [← below]
  change (_ :: (s.callers.positions ++ calls.flatMap (·.2.waiting))).reverse[_]? = _
  rw [List.reverse_cons, ← List.length_reverse, List.getElem?_append_right (Nat.le_refl _),
    Nat.sub_self]
  rfl

end World

/-! ## Going astray -/

/-- What makes changes does not go astray. -/
private lemma not_astray {α : Type} {Q : Engine → Prop} {R : α → Engine → Prop} {m fault e'}
    (does : Does .nothing Q m R) (ready : Q e) (failed : m e = .error fault e') :
    fault.isAstray ≠ true := by
  have outcome := does e ready
  rw [failed] at outcome
  exact ne_true_of_eq_false outcome.2.1

/-- The run on top goes astray: there is no instruction, or it lacks its operand word. -/
def Session.Strays (s : Session) (fault : Fault) : Prop :=
  s.current.fetch = .error fault ∨
    ∃ op inline budget, s.current.fetch = .ok (op, inline, budget) ∧ op.operands ≠ 0 ∧
      s.current.image.words[s.current.next + 1]? = none

/-- On course, the run on top goes astray only at the end of the words. -/
lemma Session.OnCourse.strays {fault} (course : s.OnCourse i f) (sound : i.defect? = none)
    (strays : s.Strays fault) (astray : fault.isAstray) :
    fault = .invalidInstructionAddress ∧ s.current.next = i.words.size := by
  rcases strays with failed | ⟨op, inline, budget, fetched, takes, missing⟩
  · rcases Image.fetch_of_boundary sound course.image course.next with
      ⟨ins, -, -, spent | ⟨budget, found⟩⟩ | ⟨ended, none⟩
    · rw [failed] at spent
      cases spent
      cases astray
    · rw [failed] at found
      cases found
    · rw [failed] at none
      cases none
      exact ⟨rfl, ended⟩
  · obtain ⟨v, found⟩ := course.word sound fetched takes
    rw [missing] at found
    cases found

/-- A session goes astray only in the run on top. -/
lemma Session.Faults.astray (faults : s.Faults x) (astray : x.fault.isAstray) :
    x.callers = s.callers ∧ s.Strays x.fault := by
  have executes : ∀ op inline budget, Outcome (Changes .anything) ((s.executing budget).Fails op)
      (fun control e => (s.executing budget).Directs op e.config control) (fun _ => True) s.engine
      ((s.executing budget).execute op inline s.engine) := by
    intro op inline budget
    exact Activation.executes (Activation.permitted_anything _ op inline) s.engine trivial
  cases faults with
  | fetch failed => exact ⟨rfl, .inl failed⟩
  | @execute op inline budget fault e fetched failed =>
    have executed := executes op inline budget
    rw [failed] at executed
    obtain ⟨-, takes, missing⟩ := executed.2.1 astray
    exact ⟨rfl, .inr ⟨op, inline, budget, fetched, takes, missing⟩⟩
  | @loop op inline exit budget elements fault e e' fetched run failed =>
    have executed := executes op inline budget
    rw [run] at executed
    obtain ⟨rfl, past⟩ : op = .forEach ∧ (s.executing budget).Leads op exit := executed.2
    let l : Loop := ⟨elements, s.current.frame, s.current.next + 2, exit⟩
    have iterates := Activation.does_iterate (P := .nothing) (a := s.executing budget)
        (l := l) s.current.frame
      List.suffix_rfl (Activation.leads_of_width rfl) past
    exact absurd astray (not_astray iterates trivial failed)
  | @body op inline budget l loops fault e e' fetched run inside failed =>
    have around : l :: loops <:+ (s.executing budget).loops := inside ▸ List.suffix_rfl
    obtain ⟨body, past⟩ := (s.executing budget).leads_loops op l (around.subset List.mem_cons_self)
    have iterates := Activation.does_iterate (P := .nothing) l.outer
      ((List.suffix_cons l loops).trans around) body past
    exact absurd astray (not_astray iterates trivial failed)
  | begin fetched executed failed =>
    exact absurd astray (not_astray (Activation.does_begin _ _ _ _) trivial failed)
  | ended fetched run ends callers failed =>
    exact absurd astray (not_astray (Operand.makes_pushValue _ _) trivial failed)

namespace World

/-- The host answers the latest call with a fault, and so the run that has called it fails. -/
inductive Denied : World → Failure → Prop
  | intro {e e'} {call : HostCall} {s calls H} {fault}
      (failed : Activation.finishCall call.fiber call.receiver call.args
        (call.checked (.error fault)) e = .error fault e') :
    Denied (host e ((call, s) :: calls) H) ⟨s.current.fiber, s.current.pc, fault, s.callers,
      s.current.finish e'⟩

/-- Execution goes astray only in the latest run, unless the host says so. -/
lemma Faults.astray (faults : w.Faults x) (astray : x.fault.isAstray) :
    w.Denied x ∨ ∃ s calls H, w = work (.run s) calls H ∧ x.callers = s.callers ∧
      s.Strays x.fault := by
  cases faults with
  | @step s calls H x faults => exact .inr ⟨s, calls, H, rfl, faults.astray astray⟩
  | @answer e e' call s calls H results fault failed =>
    have checked : Triple (Changes .nothing) (fun fault => fault.isAstray → results = .error fault)
      (fun _ => True)
        (call.checked results) (fun _ _ => True) fun _ => True :=
          Session.makes_checkResults call results
    have finished := Activation.makes_finishCall call.fiber call.receiver call.args
      (fun fault tame astray => absurd astray (ne_true_of_eq_false tame)) checked e trivial
    rw [failed] at finished
    obtain rfl := finished.2.1 astray
    exact .inl (.intro failed)
  | fire registered present failed =>
    exact absurd astray (not_astray (Activation.does_begin _ _ _ _) trivial failed)
  | launch spawned failed =>
    exact absurd astray (not_astray (Activation.does_begin _ _ _ _) trivial failed)
  | resume found suspended failed =>
    exact absurd astray (not_astray (Activation.does_begin _ _ _ _) trivial failed)
  | above first next =>
    cases next with
    | launcher callers failed =>
      exact absurd astray (not_astray (Operand.makes_pushValue _ _) trivial failed)

/-- A run that begins at a boundary of an aligned image goes on at boundaries as long as it lasts.
It finds each operand word and each string that it reads, and the addresses that it keeps for later,
where the fiber is suspended or a continuation goes on, are boundaries. It goes astray only at the
end of the words, unless a function of the host says so. -/
theorem run_stays_on_boundaries {s₀ : Session} {calls₀ : List (HostCall × Session)}
    {H₀ : Multiset Ref} {start : Nat} (aligned : i.Aligned)
    (reached : Reachable c source config (work (.run s₀) calls₀ H₀)) (image : s₀.current.image = i)
    (fresh : s₀.current.Fresh start) (boundary : i.Boundary start)
    (lasts : Lasts c (work (.run s₀) calls₀ H₀) w) :
    (∀ s calls H, w = work (.run s) calls H → w.height = (work (.run s₀) calls₀ H₀).height →
      s.current.fiber = s₀.current.fiber ∧ s.current.image = i ∧ i.Boundary s.current.next ∧
        (∀ op inline budget, s.current.fetch = .ok (op, inline, budget) →
          (op.operands ≠ 0 → ∃ v, (s.executing budget).operand = pure v) ∧
          (op.takesString → ∃ name, (s.executing budget).string inline = pure name)) ∧
        Stores (fun f pc => f = s₀.current.fiber ∧ i.Boundary pc) s.engine s.step.engine) ∧
      ∀ x, w.Faults x → x.fault.isAstray → w.Denied x ∨
        ∃ s calls H, w = work (.run s) calls H ∧ x.callers = s.callers ∧
          (w.height = (work (.run s₀) calls₀ H₀).height →
            x.fault = .invalidInstructionAddress ∧ s.current.next = i.words.size) := by
  have latest : (work (.run s₀) calls₀ H₀).height =
      (s₀.callers.positions ++ calls₀.flatMap (·.2.waiting)).length + 1 := rfl
  generalize (s₀.callers.positions ++ calls₀.flatMap (·.2.waiting)).length = n at latest
  have begun : ∀ x ∈ (work (.run s₀) calls₀ H₀).position? n, i.OnCourse s₀.current.fiber x := by
    rw [position?_run s₀ latest]
    rintro x ⟨⟩
    refine ⟨rfl, image, fresh.next.symm ▸ boundary, fun l inside => ?_⟩
    rw [Activation.position, fresh.loops] at inside
    cases inside
  -- it is the latest run again whenever the stack has the height that it had
  have course : ∀ {s calls H}, w = work (.run s) calls H →
    w.height = (work (.run s₀) calls₀ H₀).height →
      s.OnCourse i s₀.current.fiber := by
    rintro s calls H rfl same
    exact Lasts.onCourse lasts aligned latest begun _ (position?_run s (same.trans latest))
  refine ⟨fun s calls H whole same => ?_, fun x faults astray => ?_⟩
  · have course := course whole same
    refine ⟨course.fiber, course.image, course.next, fun op inline budget fetched => ⟨?_, ?_⟩, ?_⟩
    · exact course.operand aligned.sound fetched
    · exact course.string aligned.sound fetched
    · obtain ⟨flown, staffed, -⟩ := Reachable.staffed (reached.trans (Lasts.reaches lasts))
      rw [whole] at staffed
      exact course.stores aligned staffed.waits.tidy
  · rcases faults.astray astray with denied | ⟨s, calls, H, whole, callers, strays⟩
    · exact .inl denied
    · exact .inr ⟨s, calls, H, whole, callers, fun same =>
        (course whole same).strays aligned.sound strays astray⟩

/-- While an engine at work takes steps the latest run lasts, if it does not end. -/
lemma Lasts.run {k} (lasts : Lasts c w₀ (after calls H p))
    (more : ∀ m ≤ k, w₀.height ≤ (after calls H (p.run m)).height) :
    Lasts c w₀ (after calls H (p.run k)) := by
  induction k generalizing p with
  | zero =>
    rw [Progress.run_zero]
    exact lasts
  | succ k ih =>
    cases p with
    | running t =>
      refine ih (lasts.tail ⟨.step t, ?_⟩) fun m few => more (m + 1) (Nat.succ_le_succ few)
      rw [← t.next.run_zero]
      exact more 1 (Nat.succ_le_succ (Nat.zero_le k))
    | awaiting call s => exact lasts
    | done e reply => exact lasts

/-- A machine that goes through a loop once and suspends. -/
def loopOnceAndSuspend : Image where
  name := "loopOnceAndSuspend"
  words := #[.plain .pushInt, ⟨1⟩, .plain .forEach, ⟨5⟩, .plain .endBody, .plain .suspend,
    .plain .endState]
  states := [⟨0, 0⟩]
  locals := []
  shared := []
  strings := ⟨#[97, 0], #[0]⟩

/-- A fiber of that machine was launched. -/
def beforeLoop : Session where
  engine :=
    ((Engine.create (fun _ => some loopOnceAndSuspend) {}).launch "loopOnceAndSuspend").engine
  current :=
    { fiber := ⟨0⟩
      machine := "loopOnceAndSuspend"
      image := loopOnceAndSuspend
      cell := ⟨0⟩
      continuation := none
      frame := []
      loops := []
      base := 0
      budget := none
      pc := 0
      next := 0 }
  callers := .launch ⟨0⟩ ⟨0⟩

/-- The fiber has gone through the loop. -/
def afterLoop : Session where
  engine := ((Progress.running (.run beforeLoop)).run 3).engine
  current := { beforeLoop.current with pc := 4, next := 5 }
  callers := .launch ⟨0⟩ ⟨0⟩

lemma reachable_beforeLoop :
    Reachable c (fun _ => some loopOnceAndSuspend) {} (work (.run beforeLoop) [] 0) :=
  Reaches.request .refl (.launch "loopOnceAndSuspend") 0

lemma lasts_afterLoop : Lasts c (work (.run beforeLoop) [] 0) (work (.run afterLoop) [] 0) := by
  have begun : Lasts c (work (.run beforeLoop) [] 0) (after [] 0 (.running (.run beforeLoop))) :=
    .refl
  have more : ∀ m ≤ 3, (work (.run beforeLoop) [] 0).height ≤
      (after [] 0 ((Progress.running (.run beforeLoop)).run m)).height := by decide +kernel
  exact begun.run more

/-- After the loop the fiber is suspended, at a boundary. -/
theorem run_stays_on_boundaries_afterLoop :
    Reachable .owning (fun _ => some loopOnceAndSuspend) {} (work (.run beforeLoop) [] 0) ∧
      loopOnceAndSuspend.Aligned ∧ beforeLoop.current.Fresh 0 ∧ loopOnceAndSuspend.Boundary 0 ∧
      Lasts .owning (work (.run beforeLoop) [] 0) (work (.run afterLoop) [] 0) ∧
      (afterLoop.step.engine.fiber? ⟨0⟩).bind (·.suspended) = some 6 ∧
        loopOnceAndSuspend.Boundary 6 := by
  have aligned : loopOnceAndSuspend.Aligned := by decide +kernel
  have fresh : beforeLoop.current.Fresh 0 := ⟨rfl, rfl, rfl⟩
  have start : loopOnceAndSuspend.Boundary 0 := by decide +kernel
  have suspended : (afterLoop.step.engine.fiber? ⟨0⟩).bind (·.suspended) = some 6 := by
    decide +kernel
  have awake : (afterLoop.engine.fiber? ⟨0⟩).bind (·.suspended) = none := by decide +kernel
  have stays := run_stays_on_boundaries (c := .owning) aligned reachable_beforeLoop rfl fresh start
    lasts_afterLoop
  obtain ⟨-, -, -, -, stores⟩ := stays.1 afterLoop [] 0 rfl rfl
  refine ⟨reachable_beforeLoop, aligned, fresh, start, lasts_afterLoop, suspended, ?_⟩
  obtain ⟨x, found, kept⟩ := Option.bind_eq_some_iff.1 suspended
  rcases stores.suspended found kept with ⟨y, before, kept'⟩ | ⟨-, boundary⟩
  · rw [before] at awake
    cases awake.symm.trans kept'
  · exact boundary

end World

end FiberVM
