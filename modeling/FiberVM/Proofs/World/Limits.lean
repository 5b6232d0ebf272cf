import FiberVM.Proofs.Engine.Limits
import FiberVM.Proofs.World.Reaping
import FiberVM.Proofs.World.Runs

/-!
# Bounded execution

Where the configuration gives each run a budget, every request comes to an end: the engine answers
it or calls the host (`World.Reachable.stops`). The runs of a world have budgets of their own
(`World.budget?`). While a run lasts, its budget and the number of instructions that it has executed
(`World.Executes`) add up to the budget it began with, no matter how often it has been in a loop and
what the runs above it have executed.
-/

namespace FiberVM

open Engine

variable {c : Conduct} {source : String → Option Image} {config : Config} {P : Permit}
  {e e' : Engine} {a : Activation} {op : Opcode} {callers : Callers} {p : Progress} {s : Session}
  {w w' w₀ : World} {calls : List (HostCall × Session)} {H H' : Multiset Ref} {n k : Nat}
  {inline : Nat} {budget fresh : Option Nat}

/-! ## Reaping -/

namespace Engine

/-- Reaping takes one round after the other for as long as there are orphans. -/
lemma reapRounds_eq_iterate (n : Nat) (e : Engine) :
    ∃ rounds ≤ n, reapRounds n e = Nat.iterate reapOrphans rounds e ∧
      ∀ k < rounds, (Nat.iterate reapOrphans k e).heap.orphans ≠ [] := by
  induction n generalizing e with
  | zero => exact ⟨0, Nat.le_refl 0, rfl, fun k few => absurd few (Nat.not_lt_zero k)⟩
  | succ n ih =>
    rw [reapRounds]
    split
    case isTrue => exact ⟨0, Nat.zero_le _, rfl, fun k few => absurd few (Nat.not_lt_zero k)⟩
    case isFalse orphaned =>
      obtain ⟨rounds, few, reaped, orphans⟩ := ih e.reapOrphans
      refine ⟨rounds + 1, Nat.succ_le_succ few, reaped, fun k before => ?_⟩
      cases k with
      | zero => exact orphaned
      | succ k => exact orphans k (Nat.lt_of_succ_lt_succ before)

end Engine

/-! ## Worlds within limits -/

/-- What a host does at once leaves the configuration alone. -/
lemma Act.config_eq (done : Act c e H e' H') : e'.config = e.config := by
  cases done with
  | post list event =>
    unfold Engine.post
    split <;> rfl
  | register parent fiber condition pc =>
    unfold Engine.register
    split
    · rfl
    case h_2 cell e₁ retained =>
      obtain ⟨-, heap, rfl⟩ := retainFiber_eq retained
      split <;> rfl
  | registerAt parent fiber expiry pc recurrence delta =>
    unfold Engine.registerAt
    split
    · rfl
    case h_2 cell e₁ retained =>
      obtain ⟨-, heap, rfl⟩ := retainFiber_eq retained
      rfl
  | cancel id =>
    unfold Engine.cancel
    split
    · rfl
    · exact (changes_reap (P := .nothing) _).config
  | declareGlobal name v => cases Engine.declareGlobal name v e.heap <;> rfl
  | alloc | allocFull | copy | release | takeFaults | print | addFunction | addLibrary | meddle =>
    rfl

/-- A request begins with a run at the bottom, or without any. -/
lemma Request.opens (q : Request) (e : Engine) : Session.Opens e.config (q.start e) := by
  cases q with
  | update dt => exact .none rfl rfl
  | launch name =>
    have spawned := meets_spawn (P := .nothing) name [] e trivial
    change Session.Opens e.config (e.launch name)
    unfold Engine.launch
    cases run : spawn name [] e with
    | error err e₁ =>
      rw [run] at spawned
      exact .none rfl spawned.1.config
    | ok s e₁ =>
      rw [run] at spawned
      rw [← spawned.1.config]
      refine Session.opens_start s.fiber s.entry ?_ e₁
      exact trivial
  | resume fiber =>
    rcases e.resume_eq fiber with ⟨err, refused⟩ | ⟨x, pc, -, -, started⟩
    · rw [Request.start, refused]
      exact .none rfl rfl
    · rw [Request.start, started]
      refine Session.opens_start fiber pc ?_ (e.awaken fiber x)
      exact trivial

namespace World

/-- The sessions of a world, the latest first. -/
def sessions : World → List Session
  | host _ calls _ => calls.map Prod.snd
  | work t calls _ => (Progress.running t).sessions ++ calls.map Prod.snd

/-- The configuration is the same as ever, and all runs keep to its limits. -/
structure Limited (config : Config) (w : World) : Prop where
  same : w.engine.config = config
  sessions : ∀ s ∈ w.sessions, s.Limited config

lemma sessions_after (calls : List (HostCall × Session)) (H : Multiset Ref) (p : Progress) :
    (after calls H p).sessions = p.sessions ++ calls.map Prod.snd := by
  cases p <;> rfl

/-- All sessions keep to the limits. -/
lemma limited_after_iff :
    (after calls H p).Limited config ↔ p.Limited config ∧ ∀ s ∈ calls.map Prod.snd,
      s.Limited config := by
  constructor
  · rintro ⟨same, sessions⟩
    rw [sessions_after, List.forall_mem_append] at sessions
    exact ⟨⟨engine_after calls H p ▸ same, sessions.1⟩, sessions.2⟩
  · rintro ⟨⟨same, current⟩, waiting⟩
    refine ⟨(engine_after calls H p).symm ▸ same, ?_⟩
    rw [sessions_after]
    exact List.forall_mem_append.2 ⟨current, waiting⟩

/-- Every move keeps all runs within the limits. -/
lemma Move.limited (move : Move c w w') (ok : w.Limited config) : w'.Limited config := by
  obtain ⟨rfl, sessions⟩ := ok
  cases move with
  | act done => exact ⟨done.config_eq, sessions⟩
  | request q => exact limited_after_iff.2 ⟨(q.opens _).limited, sessions⟩
  | @answer e H calls call s results =>
    obtain ⟨latest, others⟩ := List.forall_mem_cons.1 sessions
    have answered : ({ s with engine := e }.answer call results).Limited e.config :=
      Session.Limited.answer (s := { s with engine := e }) ⟨latest.current, latest.callers⟩ call
        results
    exact limited_after_iff.2 ⟨answered, others⟩
  | step t =>
    obtain ⟨current, waiting⟩ := List.forall_mem_append.1 sessions
    have ok : (Progress.running t).Limited t.engine.config := ⟨rfl, current⟩
    exact limited_after_iff.2 ⟨ok.next, waiting⟩

lemma Reachable.limited (reached : Reachable c source config w) : w.Limited config := by
  induction reached with
  | refl => exact ⟨rfl, List.forall_mem_nil _⟩
  | tail _ move ih => exact move.limited ih

end World

/-- The engine is at work on a run. -/
def Progress.isRun : Progress → Bool
  | running (.run _) => true
  | _ => false

/-- The engine is no longer at work. It waits for the host only if the host may have added
functions. -/
def Progress.Stopped (c : Conduct) : Progress → Prop
  | running _ => False
  | awaiting .. => c = .free
  | done .. => True

namespace World

/-- Where there is a budget, the engine does not stay at work for ever. -/
lemma Reachable.stops (reached : Reachable c source config (after calls H p))
    (bounded : config.stepBudget.isSome) :
    ∃ k, (p.run k).Stopped c := by
  have limited := (limited_after_iff.1 reached.limited).1
  have ok : (after calls H (p.run (p.steps config))).Sound c :=
    Reachable.sound (reached.trans (reaches_run p (p.steps config)))
  refine ⟨p.steps config, ?_⟩
  cases stopped : p.run (p.steps config) with
  | running t => exact absurd stopped (limited.stops bounded (Nat.le_refl _) t)
  | done e reply => exact trivial
  | awaiting call s =>
    rw [stopped] at ok
    by_contra builtin
    cases ok.2 builtin

end World

/-! ## Budgets -/

/-- Some of the latest runs have ended, or a run has begun above all others. -/
def Shifts (fresh : Option Nat) (before after : List Activation) : Prop :=
  after.map (·.budget) <:+ before.map (·.budget) ∨
    after.map (·.budget) = fresh :: before.map (·.budget)

namespace Shifts

variable {before after : List Activation}

/-- Others may wait below. -/
lemma append (shifts : Shifts fresh before after) (below : List Activation) :
    Shifts fresh (before ++ below) (after ++ below) := by
  rw [Shifts, List.map_append, List.map_append]
  rcases shifts with ended | begun
  · exact .inl (List.suffix_append_self_iff.2 ended)
  · exact .inr (congrArg (· ++ _) begun)

/-- The runs that were there before and have not ended have the budgets that they had. -/
lemma getElem? (shifts : Shifts fresh before after) (deep : n < before.length)
    (there : n < after.length) :
    after.reverse[n]?.map (·.budget) = before.reverse[n]?.map (·.budget) := by
  rw [← List.getElem?_map, ← List.getElem?_map, List.map_reverse, List.map_reverse]
  rcases shifts with ⟨above, ended⟩ | begun
  · rw [← ended, List.reverse_append, List.getElem?_append_left]
    rw [List.length_reverse, List.length_map]
    exact there
  · rw [begun, List.reverse_cons, List.getElem?_append_left]
    rw [List.length_reverse, List.length_map]
    exact deep

end Shifts

/-- Once a run has ended, others may have ended below it. -/
lemma Unwinds.shifts (unwinds : Unwinds P e callers p) :
    Shifts fresh callers.activations p.activations :=
  .inl (unwinds.activations.map _)

/-- Only a launch puts a run above the one that executes an instruction. -/
lemma Session.Goes.shifts (goes : Session.Goes P a op callers e p) :
    Shifts e.config.stepBudget (a :: callers.activations) p.activations := by
  cases goes with
  | @on a' e' goesOn changes =>
    rw [Shifts, List.map_cons, ← goesOn.budget]
    exact .inl List.suffix_rfl
  | @launch b cell start e' fresh endowed room width changes own =>
    rw [← changes.config, ← endowed.budget]
    exact .inr rfl
  | await => exact .inl List.suffix_rfl
  | back width unwinds => exact unwinds.shifts
  | unwind unwinds => exact .inl ((unwinds.activations.map _).trans (List.suffix_cons _ _))

/-- A request begins with a run that has the whole budget, or without any. -/
lemma Session.Opens.shifts (opens : Session.Opens config p) :
    Shifts config.stepBudget [] p.activations := by
  cases opens with
  | @run e a callers bottom loops endowed same =>
    have alone : callers.activations = [] := by
      cases callers with
      | nested => exact bottom.elim
      | _ => rfl
    refine .inr ?_
    change (a :: callers.activations).map (·.budget) = _
    rw [alone, ← endowed.budget]
    rfl
  | none empty same =>
    cases p with
    | running t =>
      cases t with
      | run s => cases empty
      | fire => exact .inl List.suffix_rfl
    | awaiting => cases empty
    | done => exact .inl List.suffix_rfl

namespace World

/-- The budget of the run that has so many below it. -/
def budget? (n : Nat) (w : World) : Option (Option Nat) := (w.activation? n).map (·.budget)

/-- In a move only the budget of the run on top changes, and only if it executes an instruction. -/
lemma Move.shifts (move : Move c w w') :
    ∃ spent, Shifts w.engine.config.stepBudget spent w'.activations ∧ (spent = w.activations ∨
      ∃ s calls H budget, w = work (.run s) calls H ∧
        spent = s.executing budget :: w.activations.tail) := by
  cases move with
  | act done => exact ⟨_, .inl List.suffix_rfl, .inl rfl⟩
  | @request e H calls q =>
    refine ⟨_, ?_, .inl rfl⟩
    rw [activations_after]
    exact (q.opens e).shifts.append _
  | @answer e H calls call s results =>
    have unwinds := s.unwinds_answer (P := .nothing) e call results
    refine ⟨_, ?_, .inl rfl⟩
    rw [activations_after]
    exact unwinds.shifts.append _
  | @step H calls t =>
    rw [activations_after]
    cases t with
    | fire due e => exact ⟨_, (Session.opens_fire due e).shifts.append _, .inl rfl⟩
    | run s =>
      cases fetched : s.current.fetch with
      | error fault =>
        have unwinds := Session.unwinds_step (P := .nothing) fetched
        have ended : Shifts s.engine.config.stepBudget (s.current :: s.callers.activations)
            s.step.activations :=
          .inl ((unwinds.activations.map _).trans (List.suffix_cons _ _))
        exact ⟨_, ended.append _, .inl rfl⟩
      | ok instruction =>
        obtain ⟨op, inline, budget⟩ := instruction
        have goes := Session.goes_step fetched (Activation.permitted_anything _ op _)
        exact ⟨_, goes.shifts.append _, .inr ⟨s, calls, H, budget, rfl, rfl⟩⟩

/-- The budget of the latest run, where the engine is at work on it. -/
lemma budget?_run (s : Session) (latest : (work (.run s) calls H).height = n + 1) :
    (work (.run s) calls H).budget? n = some s.current.budget := by
  rw [budget?, activation?_run s latest]
  rfl

/-- The budget of the latest run after it has executed an instruction. -/
lemma budget?_step (fetched : s.current.fetch = .ok (op, inline, budget))
    (latest : (work (.run s) calls H).height = n + 1) (lasts : n < (after calls H s.step).height) :
    (after calls H s.step).budget? n = some budget := by
  have goes := Session.goes_step fetched (Activation.permitted_anything _ op _)
  have shifts : Shifts s.engine.config.stepBudget
      (s.executing budget :: (s.callers.activations ++ pending calls))
      (after calls H s.step).activations := by
    rw [activations_after]
    exact goes.shifts.append _
  rw [← length_activations] at lasts
  rw [budget?, activation?, shifts.getElem? (Nat.lt_succ_of_le (length_below latest).ge) lasts]
  exact budget?_run (H := H) { s with current := s.executing budget } latest

/-- The budget of a run is left alone while it waits for those above it or for the host. -/
lemma Move.budget?_eq (move : Move c w w') (lasts : n < w'.height) (there : n < w.height)
    (above : ∀ s calls H, w = work (.run s) calls H → n + 1 < w.height) :
    w'.budget? n = w.budget? n := by
  obtain ⟨spent, shifts, runs⟩ := move.shifts
  rw [← length_activations] at lasts there
  rcases runs with rfl | ⟨s, calls, H, x, rfl, rfl⟩
  · exact shifts.getElem? there lasts
  · have lower := above s calls H rfl
    rw [← length_activations] at lower
    have lower : n < (s.callers.activations ++ pending calls).length :=
      Nat.lt_of_succ_lt_succ lower
    -- the budget of the run on top may change, but not the list of those below it
    have below : ∀ y : Activation, (y :: (s.callers.activations ++ pending calls)).reverse[n]? =
        (s.callers.activations ++ pending calls).reverse[n]? := by
      intro y
      rw [List.reverse_cons, List.getElem?_append_left]
      rw [List.length_reverse]
      exact lower
    exact (shifts.getElem? (Nat.lt_succ_of_lt lower) lasts).trans
      (congrArg _ ((below _).trans (below s.current).symm))

/-- A run that begins has the whole budget. -/
lemma Move.begins (move : Move c w w') (begins : w'.height = w.height + 1) :
    w'.budget? w.height = some w.engine.config.stepBudget := by
  obtain ⟨spent, shifts, runs⟩ := move.shifts
  have counted : spent.length = w.height := by
    rw [← length_activations]
    rcases runs with rfl | ⟨s, calls, H, budget, rfl, rfl⟩ <;> rfl
  rcases shifts with ended | begun
  · have fewer := ended.length_le
    rw [List.length_map, List.length_map, length_activations, counted, begins] at fewer
    exact absurd fewer (Nat.not_succ_le_self _)
  · rw [budget?, activation?, ← List.getElem?_map, List.map_reverse, begun, List.reverse_cons,
      ← counted, ← List.length_map (·.budget), ← List.length_reverse, List.getElem?_concat_length]

/-- Where the run on top cannot execute an instruction it ends. -/
lemma height_of_fetch_error {fault} (failed : s.current.fetch = .error fault) :
    (after calls H s.step).height < (work (.run s) calls H).height := by
  have fewer := (Session.unwinds_step (P := .nothing) failed).activations.length_le
  rw [← length_activations, ← length_activations, activations_after, List.length_append]
  change _ < (s.callers.activations ++ pending calls).length + 1
  rw [List.length_append]
  omega

/-! ## Counting instructions -/

/-- What happens while the run lasts that was the latest one at the beginning, with the number of
instructions that it executes. Those of the runs above it do not count. -/
inductive Executes (c : Conduct) (w₀ : World) : Nat → World → Prop
  | begin : Executes c w₀ 0 w₀
  /-- The run executes an instruction. -/
  | own {k : Nat} {s : Session} {calls : List (HostCall × Session)} {H : Multiset Ref} {op : Opcode}
      {inline : Nat} {budget : Option Nat} (before : Executes c w₀ k (work (.run s) calls H))
      (latest : (work (.run s) calls H).height = w₀.height)
      (fetched : s.current.fetch = .ok (op, inline, budget))
      (lasts : w₀.height ≤ (after calls H s.step).height) :
    Executes c w₀ (k + 1) (after calls H s.step)
  /-- Something else happens: it is not the engine's turn, or a run above executes an
  instruction. -/
  | other {k : Nat} {w w' : World} (before : Executes c w₀ k w)
      (above : ∀ s calls H, w = work (.run s) calls H → w₀.height < w.height) (move : Move c w w')
      (lasts : w₀.height ≤ w'.height) :
    Executes c w₀ k w'

lemma Executes.lasts (executes : Executes c w₀ k w) : Lasts c w₀ w := by
  induction executes with
  | begin => exact .refl
  | @own k s calls H op inline budget _ _ _ lasts ih => exact ih.tail ⟨.step (.run s), lasts⟩
  | other _ _ move lasts ih => exact ih.tail ⟨move, lasts⟩

lemma Lasts.height_le (lasts : Lasts c w₀ w) : w₀.height ≤ w.height := by
  cases lasts with
  | refl => exact Nat.le_refl _
  | tail _ move => exact move.2

/-- Whatever happens while a run lasts, its instructions are counted. -/
lemma Lasts.executes (lasts : Lasts c w₀ w) : ∃ k, Executes c w₀ k w := by
  induction lasts with
  | refl => exact ⟨0, .begin⟩
  | @tail w w' before move ih =>
    obtain ⟨k, executes⟩ := ih
    obtain ⟨move, lasts⟩ := move
    -- at the height of the run, the engine is at work on it and on no other one
    by_cases latest : ∃ s calls H, w = work (.run s) calls H ∧ w.height = w₀.height
    · obtain ⟨s, calls, H, rfl, latest⟩ := latest
      cases move
      cases fetched : s.current.fetch with
      | error fault =>
        have ended := Nat.lt_of_lt_of_eq (height_of_fetch_error fetched) latest
        exact absurd lasts (Nat.not_le_of_lt ended)
      | ok instruction => exact ⟨k + 1, .own executes latest fetched lasts⟩
    · refine ⟨k, .other executes (fun s calls H whole => ?_) move lasts⟩
      have least : w₀.height ≤ w.height := Lasts.height_le before
      exact Nat.lt_of_le_of_ne least fun same => latest ⟨s, calls, H, whole, same.symm⟩

/-- The instructions that a run has executed and its budget add up to the budget that it has begun
with. -/
lemma Executes.spends {m : Nat} (executes : Executes c w₀ k w) (latest : w₀.height = m + 1)
    (begun : w₀.budget? m = some (some n)) :
    ∃ left, w.budget? m = some (some left) ∧ k + left = n := by
  have deep : ∀ {w : World}, w₀.height ≤ w.height → m < w.height :=
    fun lasts => Nat.lt_of_succ_le (Nat.le_trans (Nat.le_of_eq latest.symm) lasts)
  -- the number of runs below it does not change while it lasts, so its budget is always found at
  -- the same place
  induction executes with
  | begin => exact ⟨n, begun, Nat.zero_add n⟩
  | @own k s calls H op inline budget before same fetched lasts ih =>
    obtain ⟨left, remains, rfl⟩ := ih
    rw [budget?_run s (same.trans latest)] at remains
    rcases Activation.fetch_budget fetched with ⟨unlimited, -⟩ | ⟨left', own, rfl⟩
    · rw [unlimited] at remains
      cases remains
    · rw [own] at remains
      cases remains
      refine ⟨left', ?_, Nat.succ_add_eq_add_succ k left'⟩
      exact budget?_step fetched (same.trans latest) (deep lasts)
  | @other k w w' before above move lasts ih =>
    obtain ⟨left, remains, rfl⟩ := ih
    refine ⟨left, ?_, rfl⟩
    rw [move.budget?_eq (deep lasts) (deep before.lasts.height_le) fun s calls H whole =>
      latest ▸ above s calls H whole]
    exact remains

/-- A run that has executed fewer instructions than its budget allows executes the next one, if
there is one, and one that has executed all of them fails. -/
lemma Executes.next {s : Session} {v : Word} (executes : Executes c w₀ k (work (.run s) calls H))
    (same : (work (.run s) calls H).height = w₀.height) (latest : w₀.height = w.height + 1)
    (begun : w₀.budget? w.height = some (some n))
    (found : s.current.image.words[s.current.next]? = some v) (known : v.opcode? = some op) :
    (k < n → s.current.fetch = .ok (op, v.inline, some (n - (k + 1)))) ∧
      (k = n → (work (.run s) calls H).Faults
        ⟨s.current.fiber, s.current.next, .noBudget, s.callers, s.current.finish s.engine⟩) := by
  obtain ⟨left, remains, rfl⟩ := executes.spends latest begun
  rw [budget?_run s (same.trans latest)] at remains
  have own : s.current.budget = some left := Option.some.inj remains
  refine ⟨fun fewer => ?_, fun spent => ?_⟩
  · obtain ⟨left', rfl⟩ : ∃ left', left = left' + 1 := Nat.exists_eq_add_one_of_ne_zero (by omega)
    rw [Activation.fetch_of_left found known own, show k + (left' + 1) - (k + 1) = left' by omega]
  · have none_left : left = 0 := by omega
    subst none_left
    exact .step (.fetch (Activation.fetch_of_spent found known own))

/-- While the engine is at work on the latest run alone, every step executes one of its
instructions. -/
lemma Executes.run {m : Nat} (executes : Executes c w₀ m (after calls H p))
    (alone : ∀ j < k, (p.run j).isRun)
    (same : ∀ j ≤ k, (after calls H (p.run j)).height = w₀.height) :
    Executes c w₀ (m + k) (after calls H (p.run k)) := by
  induction k generalizing p m with
  | zero =>
    rw [Progress.run_zero]
    exact executes
  | succ k ih =>
    have top := alone 0 (Nat.succ_pos k)
    have now := same 0 (Nat.zero_le _)
    have lasts := same 1 (Nat.succ_le_succ (Nat.zero_le k))
    rw [Progress.run_zero] at top now
    cases p with
    | running t =>
      cases t with
      | fire => cases top
      | run s =>
        have step : (Progress.running (.run s)).run 1 = s.step := Progress.run_zero s.step
        rw [step] at lasts
        cases fetched : s.current.fetch with
        | error fault =>
          exact absurd (lasts.trans now.symm) (Nat.ne_of_lt (height_of_fetch_error fetched))
        | ok instruction =>
          have executed := Executes.own executes now fetched (Nat.le_of_eq lasts.symm)
          rw [Nat.add_comm k 1, ← Nat.add_assoc, Nat.add_comm 1 k]
          exact ih executed (fun j few => alone (j + 1) (Nat.succ_lt_succ few)) fun j few =>
            same (j + 1) (Nat.succ_le_succ few)
    | awaiting | done => cases top

end World

/-! ## Going deeper -/

/-- At the limit, what would go deeper is a fault. -/
lemma Session.Limited.overflows (ok : s.Limited s.engine.config)
    (full : s.nesting = s.engine.config.maxDepth) (deepens : s.Deepens e) :
    s.Faults ⟨s.current.fiber, s.current.next, .stackOverflow, s.callers, s.current.finish e⟩ := by
  have deep : s.engine.config.maxDepth ≤ s.current.depth :=
    Nat.le_of_eq (full.symm.trans ok.nesting)
  cases deepens with
  | @launch inline budget name arguments e₁ e₂ fetched named given =>
    have refused := Activation.spawn_of_deep (a := s.executing budget) deep named given
    exact .execute fetched (bind_of_error refused)
  | @loop op inline exit budget elements rest r e₁ e₂ fetched executed first =>
    have executes := Activation.executes
      (Activation.permitted_anything (s.executing budget) op inline) s.engine trivial
    rw [executed] at executes
    rw [← executes.1.config] at deep
    exact .loop fetched executed (Activation.iterate_of_deep (a := s.executing budget) deep first)

namespace World

/-- Where there is a budget, every request is answered, or the host is called if it has added
functions. A run executes as many instructions as its budget allows at most, those of all its loops
included, and fails where it would execute another one. Loops and launches are nested as deep as the
limit allows at most, and it is a fault to go deeper. Reaping ends when there are no orphans
left. -/
theorem execution_bounded (limit : config.stepBudget = some n)
    (reached : Reachable c source config w) :
    (∀ e calls H, w = host e calls H → ∀ q : Request, ∃ k, ((q.start e).run k).Stopped c) ∧
      (∀ t calls H, w = work t calls H → ∃ k, ((Progress.running t).run k).Stopped c) ∧
      (∀ w₁, Move c w w₁ → w₁.height = w.height + 1 →
        (∀ w', Lasts c w₁ w' ↔ ∃ k, Executes c w₁ k w') ∧
          ∀ k w', Executes c w₁ k w' → k ≤ n ∧
            ∀ s calls H, w' = work (.run s) calls H → w'.height = w₁.height →
              ∀ v op, s.current.image.words[s.current.next]? = some v → v.opcode? = some op →
                (k < n → s.current.fetch = .ok (op, v.inline, some (n - (k + 1)))) ∧
                  (k = n → w'.Faults
                    ⟨s.current.fiber, s.current.next, .noBudget, s.callers,
                      s.current.finish s.engine⟩)) ∧
      (∀ s ∈ w.sessions, s.nesting ≤ config.maxDepth) ∧
      (∀ s calls H, w = work (.run s) calls H → s.nesting = config.maxDepth → ∀ e, s.Deepens e →
        w.Faults ⟨s.current.fiber, s.current.next, .stackOverflow, s.callers, s.current.finish e⟩) ∧
      ∀ e : Engine, ∃ rounds, e.reap = Nat.iterate reapOrphans rounds e ∧
        (∀ k < rounds, (Nat.iterate reapOrphans k e).heap.orphans ≠ []) ∧
          e.reap.heap.orphans = [] := by
  have limited := reached.limited
  have bounded : config.stepBudget.isSome := limit ▸ rfl
  refine ⟨?_, ?_, fun w₁ move begins => ?_, fun s inside => ?_, ?_, fun e => ?_⟩
  · rintro e calls H rfl q
    exact Reachable.stops (reached.tail (.request q)) bounded
  · rintro t calls H rfl
    exact Reachable.stops (p := .running t) reached bounded
  · have begun := move.begins begins
    rw [limited.same, limit] at begun
    refine ⟨fun w' => ⟨Lasts.executes, fun ⟨k, executes⟩ => executes.lasts⟩, fun k w' executes =>
      ?_⟩
    obtain ⟨left, -, total⟩ := executes.spends begins begun
    refine ⟨total ▸ Nat.le_add_right k left, ?_⟩
    rintro s calls H rfl same v op found known
    exact executes.next same begins begun found known
  · have ok := limited.sessions s inside
    exact Nat.le_trans (Nat.le_of_eq ok.nesting) ok.current.depth
  · rintro s calls H rfl full e deepens
    have same : s.engine.config = config := limited.same
    have ok : s.Limited config := limited.sessions s List.mem_cons_self
    rw [← same] at ok full
    exact .step (ok.overflows full deepens)
  · obtain ⟨rounds, -, reaped, orphaned⟩ := reapRounds_eq_iterate (e.fibers.size + 1) e
    exact ⟨rounds, reaped, orphaned, orphans_reap e⟩

/-! ## A run that would never end -/

/-- A machine that does not come out of a loop. -/
def endlessLoop : Image where
  name := "endlessLoop"
  words := #[.plain .pushInt, ⟨1⟩, .plain .forEach, ⟨6⟩, .plain .goto, ⟨4⟩, .plain .endState]
  states := [⟨0, 0⟩]
  locals := []
  shared := []
  strings := ⟨#[97, 0], #[0]⟩

/-- A run may execute four instructions and be in one loop at a time. -/
def fourInstructions : Config := { maxDepth := 1, stepBudget := some 4 }

/-- A fiber of that machine was launched. -/
def endlessLoopLaunched : Session where
  engine :=
    ((Engine.create (fun _ => some endlessLoop) fourInstructions).launch "endlessLoop").engine
  current :=
    { fiber := ⟨0⟩
      machine := "endlessLoop"
      image := endlessLoop
      cell := ⟨0⟩
      continuation := none
      frame := []
      loops := []
      base := 0
      budget := some 4
      pc := 0
      next := 0 }
  callers := .launch ⟨0⟩ ⟨0⟩

/-- The fiber has entered the loop and has jumped to its beginning twice. -/
def endlessLoopTwice : Session where
  engine := ((Progress.running (.run endlessLoopLaunched)).run 4).engine
  current :=
    { endlessLoopLaunched.current with
      frame := [⟨2⟩]
      loops := [⟨.count 1 1, [], 4, 6⟩]
      budget := some 0
      pc := 4
      next := 4 }
  callers := .launch ⟨0⟩ ⟨0⟩

/-- The fiber has executed four instructions. -/
lemma executes_endlessLoopTwice :
    Executes c (work (.run endlessLoopLaunched) [] 0) 4 (work (.run endlessLoopTwice) [] 0) := by
  have begun : Executes c (work (.run endlessLoopLaunched) [] 0) 0
      (after [] 0 (.running (.run endlessLoopLaunched))) := .begin
  have alone : ∀ m < 4, ((Progress.running (.run endlessLoopLaunched)).run m).isRun := by
    decide +kernel
  have same : ∀ m ≤ 4, (after [] 0 ((Progress.running (.run endlessLoopLaunched)).run m)).height =
      (work (.run endlessLoopLaunched) [] 0).height := by decide +kernel
  exact begun.run alone same

/-- In the loop the run comes to the end of its budget, and its launch is answered nevertheless. -/
theorem execution_bounded_endlessLoopTwice :
    fourInstructions.stepBudget = some 4 ∧
      Reachable .owning (fun _ => some endlessLoop) fourInstructions
        (host (.create (fun _ => some endlessLoop) fourInstructions) [] 0) ∧
      (∃ k, (((Engine.create (fun _ => some endlessLoop) fourInstructions).launch "endlessLoop").run
        k).Stopped .owning) ∧
      Executes .owning (work (.run endlessLoopLaunched) [] 0) 4
        (work (.run endlessLoopTwice) [] 0) ∧
      (work (.run endlessLoopTwice) [] 0).Faults
        ⟨⟨0⟩, 4, .noBudget, endlessLoopTwice.callers,
          endlessLoopTwice.current.finish endlessLoopTwice.engine⟩ ∧
      endlessLoopTwice.nesting = fourInstructions.maxDepth := by
  have reached : Reachable .owning (fun _ => some endlessLoop) fourInstructions
      (host (.create (fun _ => some endlessLoop) fourInstructions) [] 0) := .refl
  have bounded := execution_bounded (n := 4) rfl reached
  have begins : Move .owning (host (.create (fun _ => some endlessLoop) fourInstructions) [] 0)
      (work (.run endlessLoopLaunched) [] 0) :=
    .request (.launch "endlessLoop")
  obtain ⟨-, executed⟩ := bounded.2.2.1 _ begins rfl
  obtain ⟨-, next⟩ := executed 4 _ executes_endlessLoopTwice
  have spent := (next endlessLoopTwice [] 0 rfl rfl (.plain .goto) .goto rfl rfl).2 rfl
  exact ⟨rfl, reached, bounded.1 _ _ _ rfl (.launch "endlessLoop"), executes_endlessLoopTwice,
    spent, rfl⟩

end World

end FiberVM
