import FiberVM.Proofs.Engine.Reading
import FiberVM.Proofs.World

/-!
# Hosts that own their references

If the host hands over no references but those that it holds, then every count is the number of
references that are held (`counts_eq_references`), and nothing that is used has been dropped
(`nothing_dangles`).
-/

namespace FiberVM

variable {source : String → Option Image} {config : Config} {w : World} {e : Engine} {f : FiberId}
  {H : Multiset Ref}

namespace World

/-! ## Counts -/

/-- Whatever a host that owns its references and an engine with built-in functions do, the strong
count of a cell is the number of variables, values, fibers, continuations and roots that refer to
it, together with the references that running activations and the host hold, and its weak count is
the number of remembered targets and shared variables that refer to it. -/
theorem counts_eq_references (reached : Reachable .owning source config w) (r : Ref) :
    w.engine.heap.strong r =
        w.engine.heap.named.count r + w.engine.heap.nested.count r +
          (w.engine.fibers.total Fiber.refs).count r + w.engine.agenda.cells.count r +
          (w.engine.roots.total fun cell => ({cell} : Multiset Ref)).count r + w.inHand.count r ∧
      w.engine.heap.weak r =
        (w.engine.fibers.total Fiber.weakRefs).count r +
          (w.engine.machines.total fun m => (m.shared : Multiset Ref)).count r := by
  have accounts := (Reachable.sound reached).engine.accounts rfl
  refine ⟨?_, ?_⟩
  · rw [accounts.strong r, Engine.held]
    simp only [Multiset.count_add]
    omega
  · rw [accounts.weak r, Engine.weakly]
    simp only [Multiset.count_add, Multiset.count_zero, Nat.zero_add]

/-- The cell of an idle fiber is held by a continuation and as a root. -/
theorem counts_eq_references_suspendedWithContinuation :
    Reachable .owning (fun _ => some gotoAfterSuspend) {} (host suspendedWithContinuation [] 0) ∧
      suspendedWithContinuation.heap.strong ⟨0⟩ = 2 ∧
      2 = suspendedWithContinuation.heap.named.count ⟨0⟩ +
        suspendedWithContinuation.heap.nested.count ⟨0⟩ +
          (suspendedWithContinuation.fibers.total Fiber.refs).count ⟨0⟩ +
            suspendedWithContinuation.agenda.cells.count ⟨0⟩ +
          (suspendedWithContinuation.roots.total fun cell =>
            ({cell} : Multiset Ref)).count ⟨0⟩ := by
  have two : suspendedWithContinuation.heap.strong ⟨0⟩ = 2 := by decide +kernel
  refine ⟨reachable_suspendedWithContinuation, two, two.symm.trans ?_⟩
  exact (counts_eq_references (w := host suspendedWithContinuation [] 0)
    reachable_suspendedWithContinuation ⟨0⟩).1

end World

/-! ## Runs that begin -/

/-- A run of a fiber begins. -/
def Activation.Begins (f : FiberId) (continuation : Option ContinuationId) (depth start : Nat)
    (e : Engine) : Prop :=
  ∃ a e', begin f continuation depth start e = .ok a e'

/-- What an engine at work is about to do touches nothing that was dropped. An instruction, which
goes on where it only peeks at a cell that has lost its value, comes to the same if every such read
is a fault, so each cell that is read has a value; it raises no such fault, and a fiber that it
launches begins to run. A continuation that is due begins to run. -/
def Turn.Safe : Turn → Prop
  | .run s => ∀ op inline budget, s.current.fetch = .ok (op, inline, budget) →
    (s.executing budget).executeBy Heap.peek op inline = (s.executing budget).execute op inline ∧
      (s.executing budget).executeBy Heap.insist op inline s.engine =
        (s.executing budget).execute op inline s.engine ∧
      match (s.executing budget).execute op inline s.engine with
      | .error fault _ => fault.isDangling = false
      | .ok (.launch child) e =>
        Activation.Begins child.fiber none (s.current.depth + 1) child.entry e
      | .ok _ _ => True
  | .fire due e => ∀ id k, due.head? = some id → e.agenda.get? id = some k →
    Activation.Begins k.fiber (some id) 0 k.pc e

namespace Turn

/-- Under a host that owns its references an engine at work is safe. -/
lemma Sound.safe {t : Turn} (ok : t.Sound .owning H) : t.Safe := by
  cases t with
  | run s =>
    intro op inline budget _
    have executed := Session.Sound.executed ok op inline budget
    have running : (s.executing budget).fiber ∈ s.crew.map (·.1) :=
      List.mem_map.2 ⟨_, List.mem_cons_self, rfl⟩
    refine ⟨Activation.executeBy_peek _ op inline,
      Activation.coincide_execute running op inline s.engine ok.engine, ?_⟩
    split
    case h_1 fault e' run =>
      rw [run] at executed
      exact executed.2.1 rfl
    case h_2 child e' run =>
      rw [run] at executed
      have ready : child.Ready .owning _ _ _ e' := executed.2
      exact Activation.begin_of_startable ready.sound (Session.startable_of_ready ready) none _ _
    case h_3 => trivial
  | fire due e =>
    intro id k _ registered
    have startable := Session.startable_of_bond ok (Agenda.bond?_of_get? registered)
    exact Activation.begin_of_startable ok startable (some id) 0 k.pc

end Turn

namespace Engine

/-- A fiber that the host launches begins to run. -/
lemma Sound.begins_spawned {name child e'} (ok : e.Sound .owning ⟨[], []⟩ H 0)
    (spawned : spawn name [] e = .ok child e') :
    Activation.Begins child.fiber none 0 child.entry e' := by
  have made := requests_spawn name [] e (ok.cast (zero_add H).symm rfl)
  rw [spawned] at made
  exact Activation.begin_of_startable made.2.sound (Session.startable_of_ready made.2) none _ _

/-- A fiber that the host resumes begins to run unless its cell was dropped. -/
lemma Sound.begins_resumed {x pc} (ok : e.Sound .owning ⟨[], []⟩ H 0) (hx : e.fiber? f = some x) :
    Activation.Begins f none 0 pc (e.awaken f x) ∨ ∃ r, x.cell = some r ∧ e.heap.get? r = none := by
  have before := ok.consistent Heap.owning_ne_free
  cases hcell : x.cell with
  | none =>
    have incomplete := before.complete f (by rw [cellOf?_of_fiber? hx, hcell])
    cases incomplete
  | some r =>
    have celled : e.cellOf? f = some (some r) := by rw [cellOf?_of_fiber? hx, hcell]
    rcases (before.celled f r celled).2 with value | ⟨dropped, -⟩
    · refine .inl (Activation.begin_of_startable (sound_awaken ok hx)
        (fun _ => ⟨r, ?_, ?_⟩) none 0 pc)
      · rw [cellOf?, awaken, fiber?_setFiber hx, if_pos rfl]
        exact congrArg some hcell
      · exact before.tidy.strong_pos_of_get? value
    · exact .inr ⟨r, rfl, dropped⟩

end Engine

namespace World

/-! ## Nothing is used after it was dropped -/

/-- Fibers that run are kept by their activations. -/
lemma mem_inHand_of_crew {r} (running : (f, r) ∈ w.crew) : r ∈ w.inHand := by
  have below : ∀ callers : Callers, (f, r) ∈ callers.crew → r ∈ callers.refs := by
    intro callers
    induction callers with
    | launch g cell => exact nofun
    | update id rest => exact nofun
    | resume => exact nofun
    | nested cell launcher below ih =>
      intro waiting
      refine Multiset.mem_add.2 (.inr (Multiset.mem_add.2 ?_))
      rcases List.mem_cons.1 waiting with same | waiting
      · cases same
        exact .inl launcher.cell_mem_refs
      · exact .inr (ih waiting)
  cases w with
  | host e calls H => cases running
  | work t calls H =>
    cases t with
    | fire due e => cases running
    | run s =>
      refine Multiset.mem_add.2 (.inl (Multiset.mem_add.2 ?_))
      rcases List.mem_cons.1 running with same | waiting
      · cases same
        exact .inl s.current.cell_mem_refs
      · exact .inr (below s.callers waiting)

/-- Whatever a host that owns its references and an engine with built-in functions do, every
reference of a variable, a value, a fiber, a continuation, a root, a running activation or the host
leads to a value, and the fibers that run exist with their cells. So neither an instruction nor any
other step ends in a fault about something that was dropped, and every run begins, unless the host
resumes a fiber whose cell was dropped. An instruction, with the lookups and the built-in functions
that belong to it, reads no cell that has lost its value, also where it would go on without it. -/
theorem nothing_dangles (reached : Reachable .owning source config w) :
    (∀ r ∈ w.engine.heap.named + w.engine.heap.nested + w.engine.held + w.inHand,
        ∃ v, w.engine.heap.get? r = some v) ∧
      (∀ f r, (f, r) ∈ w.crew →
        (∃ x, w.engine.fiber? f = some x ∧ x.cell = some r) ∧
          w.engine.heap.get? r = some (.instance f)) ∧
      (match w with
      | work t _ _ => t.Safe ∧ ∃ new, t.next.engine.faults.toList = t.engine.faults.toList ++ new ∧
          ∀ x ∈ new, x.fault.isDangling = false
      | host e _ _ =>
        (∀ name child e', Engine.spawn name [] e = .ok child e' →
            Activation.Begins child.fiber none 0 child.entry e') ∧
          ∀ f x pc, e.fiber? f = some x → x.suspended = some pc →
            Activation.Begins f none 0 pc (e.awaken f x) ∨
              ∃ r, x.cell = some r ∧ e.heap.get? r = none) := by
  have ok := Reachable.sound reached
  have sound := ok.engine
  have consistent := sound.consistent Heap.owning_ne_free
  have values : ∀ r ∈ w.engine.heap.named + w.engine.heap.nested + w.engine.held + w.inHand,
      ∃ v, w.engine.heap.get? r = some v := by
    intro r hr
    refine consistent.tidy.get?_of_strong_pos ?_
    rw [(sound.accounts rfl).strong r, Multiset.count_pos]
    simp only [Multiset.mem_add] at hr ⊢
    tauto
  refine ⟨values, fun f r running => ?_, ?_⟩
  · have celled := consistent.crew (f, r) running
    refine ⟨Engine.fiber?_of_cellOf? celled, ?_⟩
    rcases (consistent.celled f r celled).2 with value | ⟨dropped, -⟩
    · exact value
    · obtain ⟨v, value⟩ := values r (Multiset.mem_add.2 (.inr (mem_inHand_of_crew running)))
      rw [dropped] at value
      cases value
  · cases w with
    | work t calls H =>
      obtain ⟨new, faults, allowed⟩ := (Turn.Sound.next ok.1).2.faults
      exact ⟨ok.1.safe, new, faults, fun x hx => allowed x hx rfl⟩
    | host e calls H =>
      exact ⟨fun name child e' spawned => ok.1.begins_spawned spawned,
        fun f x pc hx _ => ok.1.begins_resumed hx⟩

/-- A fiber that was resumed runs with its cell, and is about to execute a safe instruction. -/
theorem nothing_dangles_resuming :
    Reachable .owning (fun _ => some gotoAfterSuspend) {} (work (.run resuming) [] 0) ∧
      resuming.engine.heap.get? ⟨0⟩ = some (.instance ⟨0⟩) ∧ (Turn.run resuming).Safe := by
  obtain ⟨-, crew, safe, -⟩ := nothing_dangles (w := work (.run resuming) [] 0) reachable_resuming
  exact ⟨reachable_resuming, (crew ⟨0⟩ ⟨0⟩ List.mem_cons_self).2, safe⟩

end World

end FiberVM
