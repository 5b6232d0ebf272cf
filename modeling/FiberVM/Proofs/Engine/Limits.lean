import FiberVM.Proofs.Engine.Stack

/-!
# Limits of execution

A configuration may limit how many instructions one run executes, and it limits how deep loops and
launches are nested. Every run of a session keeps to both limits (`Session.Limited`): it knows how
deep it is nested, and has a budget from which each instruction takes one. At the limit no fiber is
launched (`Activation.spawn_of_deep`) and no loop is entered (`Activation.iterate_of_deep`).

A run at some depth launches others only one level further up, and each launch costs it an
instruction. So the number of steps that a session can still take is bounded, level by level, by the
budgets that are left (`Progress.steps`), and every step makes this bound smaller.
-/

namespace FiberVM

open Engine

variable {P : Permit} {config : Config} {e e' : Engine} {a : Activation} {callers : Callers}
  {p : Progress} {op : Opcode} {s : Session} {inline : Nat} {budget : Option Nat}
  {id : ContinuationId}

/-! ## Instructions and budgets -/

namespace Activation

/-- An instruction takes one from the budget, if there is one. -/
lemma fetch_budget (fetched : a.fetch = .ok (op, inline, budget)) :
    a.budget = none ∧ budget = none ∨ ∃ left, a.budget = some (left + 1) ∧ budget = some left := by
  unfold fetch at fetched
  split at fetched
  · cases fetched
  · split at fetched
    · cases fetched
    · split at fetched
      case h_1 unlimited =>
        cases fetched
        exact .inl ⟨unlimited, rfl⟩
      case h_2 => cases fetched
      case h_3 left remains =>
        cases fetched
        exact .inr ⟨left, remains, rfl⟩

variable {w : Word} {left : Nat}

lemma fetch_of_left (found : a.image.words[a.next]? = some w) (known : w.opcode? = some op)
    (remains : a.budget = some (left + 1)) : a.fetch = .ok (op, w.inline, some left) := by
  simp only [fetch, found, known, remains]

lemma fetch_of_spent (found : a.image.words[a.next]? = some w) (known : w.opcode? = some op)
    (spent : a.budget = some 0) : a.fetch = .error .noBudget := by
  simp only [fetch, found, known, spent]

end Activation

/-! ## Nesting -/

/-- How many loops and launches there are below a run. -/
def Callers.nesting : Callers → Nat
  | nested _ launcher below => below.nesting + launcher.loops.length + 1
  | _ => 0

/-- How deep loops and launches are nested in a session. -/
def Session.nesting (s : Session) : Nat := s.callers.nesting + s.current.loops.length

/-- A run keeps to the limits of a configuration, with so many loops and launches below it. -/
structure Activation.Limited (config : Config) (below : Nat) (a : Activation) : Prop where
  base : a.base = below
  depth : a.depth ≤ config.maxDepth
  budget : config.stepBudget.isSome → a.budget.isSome

/-- All runs that wait keep to the limits. -/
def Callers.Limited (config : Config) : Callers → Prop
  | nested _ launcher below => launcher.Limited config below.nesting ∧ below.Limited config
  | _ => True

/-- All runs of a session keep to the limits. -/
structure Session.Limited (config : Config) (s : Session) : Prop where
  current : s.current.Limited config s.callers.nesting
  callers : s.callers.Limited config

/-- The session that a request has come to. -/
def Progress.sessions : Progress → List Session
  | running (.run s) => [s]
  | awaiting _ s => [s]
  | _ => []

/-- The configuration is the same as ever, and all runs keep to its limits. -/
structure Progress.Limited (config : Config) (p : Progress) : Prop where
  same : p.engine.config = config
  sessions : ∀ s ∈ p.sessions, s.Limited config

/-- The nesting is the depth that the run on top knows of. -/
lemma Session.Limited.nesting (ok : s.Limited config) : s.nesting = s.current.depth := by
  rw [Session.nesting, Activation.depth, ok.current.base]

lemma Session.Limited.progress (ok : s.Limited config) (same : s.engine.config = config) :
    (Progress.running (.run s)).Limited config :=
  ⟨same, List.forall_mem_singleton.2 ok⟩

/-- A run keeps to the limits once it has fetched. -/
lemma Session.Limited.executing (ok : s.Limited config)
    (fetched : s.current.fetch = .ok (op, inline, budget)) :
    (s.executing budget).Limited config s.callers.nesting where
  base := ok.current.base
  depth := ok.current.depth
  budget bounded := by
    have remains := ok.current.budget bounded
    rcases Activation.fetch_budget fetched with ⟨unlimited, -⟩ | ⟨left, -, rfl⟩
    · rw [unlimited] at remains
      cases remains
    · rfl

/-- Runs that have waited keep to the limits when they go on. -/
lemma Unwinds.limited (unwinds : Unwinds P e callers p) (ok : callers.Limited e.config) :
    p.Limited e.config := by
  induction unwinds with
  | answer bottom changes => exact ⟨changes.config, List.forall_mem_nil _⟩
  | fire settles => exact ⟨settles.config, List.forall_mem_nil _⟩
  | resume changes =>
    refine Session.Limited.progress ⟨?_, ok.2⟩ changes.config
    exact ⟨ok.1.base, ok.1.depth, ok.1.budget⟩
  | fail _ ih => exact ih ok.2

/-- A step keeps to the limits. -/
lemma Session.Goes.limited (goes : Session.Goes P a op callers e p)
    (current : a.Limited e.config callers.nesting) (below : callers.Limited e.config) :
    p.Limited e.config := by
  cases goes with
  | on goesOn changes =>
    refine Session.Limited.progress ⟨⟨goesOn.base.trans current.base, ?_, ?_⟩, below⟩ changes.config
    · rw [changes.config] at goesOn
      exact goesOn.depth.elim (Nat.le_trans · current.depth) id
    · rw [goesOn.budget]
      exact current.budget
  | @launch b cell start e' fresh endowed room width changes own =>
    rw [changes.config] at endowed room
    refine Session.Limited.progress ⟨⟨?_, ?_, ?_⟩, current, below⟩ changes.config
    · rw [endowed.base, Activation.depth, current.base]
      rfl
    · rw [Activation.depth, fresh.loops, endowed.base]
      exact room
    · rw [endowed.budget]
      exact fun bounded => bounded
  | await width changes => exact ⟨changes.config, List.forall_mem_singleton.2 ⟨current, below⟩⟩
  | back width unwinds => exact unwinds.limited ⟨current, below⟩
  | unwind unwinds => exact unwinds.limited below

lemma Session.Limited.step (ok : s.Limited s.engine.config) : s.step.Limited s.engine.config := by
  cases fetched : s.current.fetch with
  | error fault => exact (unwinds_step (P := .nothing) fetched).limited ok.callers
  | ok instruction =>
    obtain ⟨op, inline, budget⟩ := instruction
    have goes := goes_step fetched (Activation.permitted_anything _ op _)
    exact goes.limited (ok.executing fetched) ok.callers

lemma Session.Limited.answer (ok : s.Limited s.engine.config) (call : HostCall)
    (results : Except Fault (List Value)) : (s.answer call results).Limited s.engine.config :=
  (unwinds_answer (P := .nothing) s s.engine call results).limited ⟨ok.current, ok.callers⟩

/-! ## Runs at the bottom -/

/-- No run waits below. -/
def Callers.Bottom : Callers → Prop
  | nested .. => False
  | _ => True

/-- A run begins at the bottom, or none. -/
inductive Session.Opens (config : Config) : Progress → Prop
  | run {e : Engine} {a : Activation} {callers : Callers} (bottom : callers.Bottom)
      (loops : a.loops = []) (endowed : a.Endowed 0 config) (same : e.config = config)
      (own : a.Portrays e) :
    Opens config (.running (.run ⟨e, a, callers⟩))
  | none {p : Progress} (empty : p.sessions = []) (same : p.engine.config = config) : Opens config p

lemma Unwinds.opens (unwinds : Unwinds P e callers p) (bottom : callers.Bottom) :
    Session.Opens e.config p := by
  cases unwinds with
  | answer _ changes => exact .none rfl changes.config
  | fire settles => exact .none rfl settles.config
  | resume | fail => exact bottom.elim

namespace Session

lemma opens_start (fiber : FiberId) (pc : Nat) (bottom : callers.Bottom) (e : Engine) :
    Opens e.config (start fiber 0 pc callers e) := by
  rcases start_cases (P := .nothing) fiber 0 pc callers e with
    ⟨a, e', started, ⟨fresh, endowed, own⟩, changes⟩ | unwinds
  · rw [started]
    exact .run bottom fresh.loops (changes.config ▸ endowed) changes.config own
  · exact unwinds.opens bottom

/-- The first continuation that is due is passed over, or a run begins for it. -/
lemma fire_shapes (id : ContinuationId) (rest : List ContinuationId) (e : Engine) :
    (∃ e', fire (id :: rest) e = .running (.fire rest e') ∧ e'.config = e.config) ∨
      ∃ a e', fire (id :: rest) e = .running (.run ⟨e', a, .update id rest⟩) ∧ a.loops = [] ∧
        a.Endowed 0 e.config ∧ e'.config = e.config ∧ a.Portrays e' := by
  cases registered : e.agenda.get? id with
  | none =>
    rw [fire_of_gone registered]
    exact .inl ⟨e, rfl, rfl⟩
  | some k =>
    cases present : e.fiber? k.fiber with
    | none =>
      simp only [fire, registered, present]
      exact .inl ⟨_, rfl, rfl⟩
    | some x =>
      have begun := Activation.does_begin (P := .nothing) k.fiber (some id) 0 k.pc e trivial
      rw [fire_of_registered registered present]
      cases run : Activation.begin k.fiber (some id) 0 k.pc e with
      | ok a e' =>
        rw [run] at begun
        obtain ⟨changes, fresh, endowed⟩ := begun
        exact .inr ⟨a, e', rfl, fresh.loops, changes.config ▸ endowed, changes.config,
          Activation.portrays_of_begin run⟩
      | error fault e' =>
        rw [run] at begun
        refine .inl ⟨_, rfl, ?_⟩
        rw [(changes_reap (P := .nothing) _).config,
          (changes_recordFault (P := .nothing) _ _ _ fault).config]
        exact begun.1.config

/-- A continuation that fires opens a run. -/
lemma opens_fire (due : List ContinuationId) (e : Engine) : Opens e.config (fire due e) := by
  cases due with
  | nil => exact .none rfl (changes_reap (P := .nothing) e).config
  | cons id rest =>
    rcases fire_shapes id rest e with ⟨e', fired, same⟩ | ⟨a, e', fired, loops, endowed, same, own⟩
    · rw [fired]
      exact .none rfl same
    · rw [fired]
      exact .run trivial loops endowed same own

/-- A run that begins at the bottom keeps to the limits. -/
lemma Opens.limited (opens : Opens config p) : p.Limited config := by
  cases opens with
  | @run e a callers bottom loops endowed same =>
    have free : callers.nesting = 0 ∧ callers.Limited config := by
      cases callers with
      | nested => exact bottom.elim
      | _ => exact ⟨rfl, trivial⟩
    refine Session.Limited.progress ⟨⟨endowed.base.trans free.1.symm, ?_, ?_⟩, free.2⟩ same
    · rw [Activation.depth, loops, endowed.base]
      exact Nat.zero_le _
    · rw [endowed.budget]
      exact fun bounded => bounded
  | none empty same =>
    refine ⟨same, ?_⟩
    rw [empty]
    exact List.forall_mem_nil _

end Session

lemma Progress.Limited.next {t} (ok : (Progress.running t).Limited config) :
    t.next.Limited config := by
  obtain ⟨rfl, sessions⟩ := ok
  cases t with
  | run s => exact (sessions s List.mem_cons_self).step
  | fire due e => exact (Session.opens_fire due e).limited

/-! ## Going deeper -/

/-- The first element of a loop, with the others, if there is one. -/
def Generator.first : Generator → EngineM (Option (Ref × Generator))
  | elements [] => return none
  | elements (r :: refs) => return some (r, elements refs)
  | count n limit =>
    if n < limit then do
      let r ← EngineM.onHeap (Heap.allocTemporary (.int (Int64.ofNat n)))
      return some (r, count (n + 1) limit)
    else return none

/-- The next instruction launches a fiber or enters a loop, so that a session is nested one deeper.
Where that cannot be, it leaves this engine behind. -/
inductive Session.Deepens (s : Session) : Engine → Prop
  | launch {inline budget name arguments e₁ e₂}
      (fetched : s.current.fetch = .ok (.launch, inline, budget))
      (named : Operand.popString s.current.fiber s.engine = .ok name e₁)
      (given : Operand.popArguments s.current.fiber e₁ = .ok arguments e₂) :
    Deepens s (e₂.releaseAll arguments)
  | loop {op inline exit budget elements rest r e₁ e₂}
      (fetched : s.current.fetch = .ok (op, inline, budget))
      (executed : (s.executing budget).execute op inline s.engine = .ok (.loop elements exit) e₁)
      (first : elements.first e₁ = .ok (some (r, rest)) e₂) :
    Deepens s ((e₂.release r).releaseAll rest.refs)

namespace Activation

/-- At the limit no fiber is launched. -/
lemma spawn_of_deep {name arguments e₁ e₂} (deep : e.config.maxDepth ≤ a.depth)
    (named : Operand.popString a.fiber e = .ok name e₁)
    (given : Operand.popArguments a.fiber e₁ = .ok arguments e₂) :
    a.spawn e = .error .stackOverflow (e₂.releaseAll arguments) := by
  have pops : Makes .nothing (Operand.popString a.fiber) := Operand.makes_popAs a.fiber _ rfl
  have first := pops e trivial
  have second := Operand.makes_popArguments (P := .nothing) a.fiber e₁ trivial
  rw [named] at first
  rw [given] at second
  have same : e₂.config = e.config := second.1.config.trans first.1.config
  rw [← same] at deep
  have seen : (get : EngineM Engine) e₂ = .ok e₂ e₂ := rfl
  rw [spawn, bind_of_ok named, bind_of_ok given, bind_of_ok seen]
  exact congrFun (if_pos deep) e₂

/-- At the limit no loop is entered. -/
lemma iterate_of_deep {l : Loop} {r rest} (deep : e.config.maxDepth ≤ a.depth)
    (first : l.rest.first e = .ok (some (r, rest)) e') :
    a.iterate l e = .error .stackOverflow ((e'.release r).releaseAll rest.refs) := by
  -- however the element was obtained, the depth is checked before the body is entered
  have enter : ∀ (r : Ref) (rest : Generator) (e : Engine), e.config.maxDepth ≤ a.depth →
      (do
        if (← get).config.maxDepth ≤ a.depth then
          modify fun e => (e.release r).releaseAll rest.refs
          throw .stackOverflow
        return { a with frame := [r], loops := { l with rest } :: a.loops, next := l.body } :
          EngineM Activation) e = .error .stackOverflow ((e.release r).releaseAll rest.refs) := by
    intro r rest e deep
    have seen : (get : EngineM Engine) e = .ok e e := rfl
    rw [bind_of_ok seen]
    exact congrFun (if_pos deep) e
  unfold iterate
  cases elements : l.rest with
  | elements refs =>
    rw [elements] at first
    cases refs with
    | nil => cases first
    | cons r' refs =>
      cases first
      exact enter r (.elements refs) e deep
  | count n limit =>
    rw [elements, Generator.first] at first
    dsimp only
    by_cases more : n < limit
    · rw [if_pos more] at first ⊢
      have counts := makes_onHeap (P := .nothing) (Heap.tame_allocTemporary (.int (Int64.ofNat n)))
        e trivial
      cases counted : EngineM.onHeap (Heap.allocTemporary (.int (Int64.ofNat n))) e with
      | ok r' e₁ =>
        rw [counted] at counts
        rw [bind_of_ok counted] at first ⊢
        cases first
        exact enter r _ e' (counts.1.config ▸ deep)
      | error fault e₁ =>
        rw [bind_of_error counted] at first
        cases first
    · rw [if_neg more] at first
      cases first

end Activation

/-! ## How many steps are left -/

/-- The number of steps within which a run ends that has just begun, together with those above it,
where so many levels are left. -/
def Config.steps (config : Config) : Nat → Nat
  | 0 => 0
  | levels + 1 => config.stepBudget.getD 0 * (config.steps levels + 1) + 1

/-- The number of steps within which all continuations that are due have run. -/
def Config.dueSteps (config : Config) (due : List ContinuationId) : Nat :=
  due.length * (config.steps (config.maxDepth + 1) + 1) + 1

/-- The number of steps within which a run ends, together with those that it can still launch. -/
def Activation.steps (config : Config) (a : Activation) : Nat :=
  a.budget.getD 0 * (config.steps (config.maxDepth - a.base) + 1) + 1

def Callers.steps (config : Config) : Callers → Nat
  | nested _ launcher below => launcher.steps config + below.steps config
  | update _ rest => config.dueSteps rest
  | _ => 0

/-- The number of steps within which a request is answered or the host is called. -/
def Progress.steps (config : Config) : Progress → Nat
  | running (.run s) => s.current.steps config + s.callers.steps config
  | running (.fire due _) => config.dueSteps due
  | _ => 0

namespace Config

lemma dueSteps_cons (config : Config) (id : ContinuationId) (rest : List ContinuationId) :
    config.dueSteps (id :: rest) = config.dueSteps rest + config.steps
      (config.maxDepth + 1) + 1 := by
  rw [dueSteps, dueSteps, List.length_cons, Nat.succ_mul]
  omega

/-- More levels take more steps. -/
lemma steps_mono (config : Config) : Monotone config.steps := by
  refine monotone_nat_of_le_succ fun levels => ?_
  induction levels with
  | zero => exact Nat.zero_le _
  | succ levels ih => exact Nat.succ_le_succ (Nat.mul_le_mul_left _ (Nat.succ_le_succ ih))

end Config

namespace Activation

/-- A run that has just begun takes as many steps as there are for its level. -/
lemma Endowed.steps_eq {depth} (endowed : a.Endowed depth config) :
    a.steps config = config.steps (config.maxDepth - depth + 1) := by
  rw [Activation.steps, endowed.budget, endowed.base, Config.steps]

/-- What an instruction takes from the budget is enough for a step, and for a run one level further
up. -/
lemma steps_of_fetch (config : Config) (fetched : s.current.fetch = .ok (op, inline, budget))
    (bounded : s.current.budget.isSome) :
    s.current.steps config =
      (s.executing budget).steps config + config.steps (config.maxDepth - s.current.base) + 1 := by
  rcases fetch_budget fetched with ⟨unlimited, -⟩ | ⟨left, remains, rfl⟩
  · rw [unlimited] at bounded
    cases bounded
  · have own : (s.executing (some left)).base = s.current.base := rfl
    have less : (s.executing (some left)).budget = some left := rfl
    rw [Activation.steps, Activation.steps, own, less, remains, Option.getD_some, Option.getD_some,
      Nat.succ_mul]
    omega

end Activation

lemma Unwinds.steps (config : Config) (unwinds : Unwinds P e callers p) :
    p.steps config ≤ callers.steps config := by
  induction unwinds with
  | answer => exact Nat.zero_le _
  | fire => exact Nat.le_refl _
  | resume => exact Nat.le_refl _
  | fail _ ih => exact Nat.le_trans ih (Nat.le_add_left _ _)

/-- Apart from the step itself, an instruction leads to no more steps than those of a run one level
further up. -/
lemma Session.Goes.steps (goes : Session.Goes P a op callers e p) (same : e.config = config) :
    p.steps config ≤ a.steps config + config.steps
      (config.maxDepth - a.base) + callers.steps config := by
  cases goes with
  | @on a' e' goesOn changes =>
    have kept : a'.steps config = a.steps config := by
      rw [Activation.steps, goesOn.budget, goesOn.base, Activation.steps]
    change a'.steps config + callers.steps config ≤ _
    omega
  | @launch b cell start e' fresh endowed room width changes own =>
    rw [changes.config, same] at endowed room
    -- the run above is at most one level below the limit of the one that launches it
    have above : b.steps config ≤ config.steps (config.maxDepth - a.base) := by
      rw [endowed.steps_eq]
      apply config.steps_mono
      unfold Activation.depth at room ⊢
      omega
    change b.steps config + (a.steps config + callers.steps config) ≤ _
    omega
  | await => exact Nat.zero_le _
  | @back cell p width unwinds =>
    have fewer : p.steps config ≤ a.steps config + callers.steps config := unwinds.steps config
    omega
  | unwind unwinds =>
    have fewer := unwinds.steps config
    omega

/-- Every step makes the number of steps smaller that are left. -/
lemma Progress.Limited.steps_next {t} (ok : (Progress.running t).Limited config)
    (bounded : config.stepBudget.isSome) :
    t.next.steps config < (Progress.running t).steps config := by
  obtain ⟨same, sessions⟩ := ok
  cases t with
  | run s =>
    have limited := sessions s List.mem_cons_self
    change s.step.steps config < s.current.steps config + s.callers.steps config
    cases fetched : s.current.fetch with
    | error fault =>
      have fewer := (Session.unwinds_step (P := .nothing) fetched).steps config
      rw [Activation.steps]
      omega
    | ok instruction =>
      obtain ⟨op, inline, budget⟩ := instruction
      have goes := (Session.goes_step fetched (Activation.permitted_anything _ op _)).steps same
      have paid := Activation.steps_of_fetch config fetched (limited.current.budget bounded)
      have base : (s.executing budget).base = s.current.base := rfl
      rw [base] at goes
      omega
  | fire due e =>
    change (Session.fire due e).steps config < config.dueSteps due
    cases due with
    | nil => exact Nat.succ_pos _
    | cons id rest =>
      rw [config.dueSteps_cons]
      rcases Session.fire_shapes id rest e with ⟨e', fired, -⟩ | ⟨a, e', fired, -, endowed, -⟩
      · rw [fired, Progress.steps]
        omega
      · have whole : a.steps config = config.steps (config.maxDepth + 1) := by
          rw [show e.config = config from same] at endowed
          exact endowed.steps_eq
        rw [fired]
        change a.steps config + config.dueSteps rest < _
        omega

/-- Where there is a budget, a request is answered or the host is called within that number of
steps. -/
lemma Progress.Limited.stops {k} (ok : p.Limited config) (bounded : config.stepBudget.isSome)
    (enough : p.steps config ≤ k) (t : Turn) : p.run k ≠ .running t := by
  -- each step that is taken leaves fewer of those that are left
  induction k generalizing p with
  | zero =>
    cases p with
    | running t' =>
      exact absurd (Nat.lt_of_lt_of_le (ok.steps_next bounded) enough) (Nat.not_lt_zero _)
    | awaiting | done => exact Progress.noConfusion
  | succ k ih =>
    cases p with
    | running t' =>
      exact ih ok.next (Nat.le_of_lt_succ (Nat.lt_of_lt_of_le (ok.steps_next bounded) enough))
    | awaiting | done => exact Progress.noConfusion

end FiberVM
