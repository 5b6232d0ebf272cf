import FiberVM.Proofs.Engine.Refusal
import FiberVM.Proofs.Heap.History
import FiberVM.Proofs.World.Tables

/-!
# Launches that are refused, in the course of time

A machine is launched by the host or by a run. Wherever this happens, a launch that is refused
leaves nothing half-built (`World.refused_launch_leaves_nothing`), provided that no value refers to
a cell that was never issued. Under a host that owns its references none does
(`World.Reachable.genuine`).
-/

namespace FiberVM

open Engine

variable {source : String → Option Image} {config : Config} {w : World} {h h' : Heap} {r : Ref}
  {v : Value} {e e' : Engine} {f : FiberId} {name : String} {arguments : List Ref}

/-! ## References that were issued -/

namespace Heap

/-- Where references are merely recounted, no value comes to refer to anything else. -/
lemma Genuine.recounts (ok : h.Genuine) (recounted : Recounts h h') : h'.Genuine := by
  intro r v found s inside
  have issued := ok r v (recounted.fades.get?_eq found) s inside
  exact issued.trans_le recounted.changes.forgets.1

/-- A copy refers to what was issued. -/
lemma Genuine.copy (ok : h.Genuine) (copied : Heap.copy r h = .ok v h') :
    h'.Genuine ∧ ∀ s ∈ v.refs, s.id < h'.cells.next := by
  have made := makes_copy r h trivial
  rw [copied] at made
  refine ⟨ok.recounts made.1, fun s inside => Nat.lt_of_lt_of_le ?_ made.1.changes.forgets.1⟩
  have same : ∀ {u}, copyValue u h = .ok v h' → v = u := by
    intro u copies
    cases u with
    | «instance» => cases copies
    | _ =>
      obtain ⟨_, _, -, returned⟩ := ok_of_bind copies
      cases returned
      rfl
  unfold Heap.copy at copied
  split at copied
  case h_1 => cases copied
  case h_2 found =>
    cases same copied
    cases List.mem_singleton.1 inside
    exact lt_next_of_get? found
  case h_3 u _ found =>
    cases same copied
    exact ok r v found s inside

/-- Whoever accounts for all references holds none that was not issued. -/
lemma Accounts.genuine {K L} (ok : h.Accounts K L) : h.Genuine := by
  intro r v found s inside
  obtain ⟨c, cell, value⟩ := cell?_of_get? found
  have nested : s ∈ h.nested := by
    refine refs_nested cell ?_
    rw [Cell.refs, value]
    exact inside
  have counted := ok.strong_pos_of_nested nested
  cases target : h.cell? s with
  | none =>
    rw [Heap.strong, target] at counted
    cases counted
  | some d => exact lt_next_of_cell? target

end Heap

lemma World.Reachable.genuine (reached : Reachable .owning source config w) :
    w.engine.heap.Genuine :=
  ((World.Reachable.sound reached).engine.accounts rfl).genuine

/-! ## Launches -/

namespace Operand

lemma genuine_popString (ok : e.heap.Genuine) (popped : popString f e = .ok name e') :
    e'.heap.Genuine := by
  obtain ⟨x, r, stack, v, -, -, -, -, rfl⟩ := popAs_ok popped
  exact ok.recounts (Heap.recounts_release _ r)

/-- The arguments of a launch were issued. -/
lemma genuine_popArguments (ok : e.heap.Genuine) (popped : popArguments f e = .ok arguments e') :
    e'.heap.Genuine ∧ ∀ r ∈ arguments, r.id < e'.heap.cells.next := by
  obtain ⟨v, e₁, taken, listed⟩ := ok_of_bind popped
  have copied : e₁.heap.Genuine ∧ ∀ s ∈ v.refs, s.id < e₁.heap.cells.next := by
    obtain ⟨r, e₂, top, ensured⟩ := ok_of_bind taken
    obtain ⟨x, stack, -, -, rfl⟩ := pop_ok top
    obtain ⟨e₃, copying, rfl⟩ := ensure_ok ensured
    obtain ⟨heap, made, rfl⟩ := onHeap_ok copying
    obtain ⟨genuine, issued⟩ := Heap.Genuine.copy ok made
    have released := Heap.recounts_release heap r
    exact ⟨genuine.recounts released, fun s inside =>
      (issued s inside).trans_le released.changes.forgets.1⟩
  cases v with
  | array elements =>
    cases listed
    exact copied
  | nil =>
    cases listed
    exact ⟨copied.1, nofun⟩
  | _ => cases listed

end Operand

/-- Only a run that fails is answered with more than the reason why a fiber could not be made. -/
lemma Engine.spawn_of_refused {err} (refused : e.launch name = .done e' (.launched (.error err)))
    (unbegun : ∀ failure, err ≠ .execution failure) : spawn name [] e = .error err e' := by
  unfold Engine.launch at refused
  cases made : spawn name [] e with
  | error err₁ e₁ =>
    simp only [made] at refused
    cases refused
    rfl
  | ok s e₁ =>
    simp only [made, Session.start] at refused
    cases begun : Activation.begin s.fiber none 0 s.entry e₁ with
    | ok a e₂ =>
      simp only [begun] at refused
      cases refused
    | error fault e₂ =>
      simp only [begun, Session.conclude] at refused
      cases refused
      exact absurd rfl (unbegun _)

/-- An instruction that has its operands makes a fiber. -/
private lemma Activation.spawn_eq {a : Activation} {e₁ e₂}
    (named : Operand.popString a.fiber e = .ok name e₁)
    (given : Operand.popArguments a.fiber e₁ = .ok arguments e₂)
    (room : a.depth < e₂.config.maxDepth) :
    a.spawn e = match Engine.spawn name arguments e₂ with
      | .ok s e => .ok s e
      | .error (.fault fault) e => .error fault e
      | .error _ e => .error (.invalidMachine name) e := by
  unfold Activation.spawn
  rw [bind_of_ok named, bind_of_ok given, bind_of_ok (rfl : (get : EngineM Engine) e₂ = .ok e₂ e₂)]
  exact congrFun (if_neg (Nat.not_le_of_lt room)) e₂

/-- Such an instruction fails because no fiber can be made. -/
lemma Activation.spawn_of_refused {a : Activation} {inline fault e₁ e₂}
    (named : Operand.popString a.fiber e = .ok name e₁)
    (given : Operand.popArguments a.fiber e₁ = .ok arguments e₂)
    (room : a.depth < e₂.config.maxDepth) (failed : a.execute .launch inline e = .error fault e') :
    ∃ err, Engine.spawn name arguments e₂ = .error err e' := by
  have spawned := spawn_eq named given room
  change (do return .launch (← a.spawn) : EngineM Control) e = .error fault e' at failed
  cases made : Engine.spawn name arguments e₂ with
  | ok s e₃ =>
    simp only [made] at spawned
    rw [bind_of_ok spawned] at failed
    cases failed
  | error err e₃ =>
    have ends : ∃ fault, a.spawn e = .error fault e₃ := by
      cases err <;> exact ⟨_, by simpa only [made] using spawned⟩
    obtain ⟨_, spawned⟩ := ends
    rw [bind_of_error spawned] at failed
    cases failed
    exact ⟨err, rfl⟩

namespace World

/-- A launch is refused, by the host or by the next instruction once it has its operands. The engine
is given as it is when the launch begins and as it is left. -/
inductive Refuses : World → String → List Ref → Engine → Engine → Prop
  | host {e : Engine} {e' calls H name err}
      (answered : e.launch name = .done e' (.launched (.error err)))
      (reason : (∃ fault, err = .fault fault) ∨ ∃ d, err = .image d) :
      Refuses (host e calls H) name [] e e'
  | instruction {s : Session} {calls H} {inline budget name arguments e₁ e₂ e' fault}
      (fetched : s.current.fetch = .ok (.launch, inline, budget))
      (named : Operand.popString s.current.fiber s.engine = .ok name e₁)
      (given : Operand.popArguments s.current.fiber e₁ = .ok arguments e₂)
      (room : s.current.depth < e₂.config.maxDepth)
      (failed : (s.executing budget).execute .launch inline s.engine = .error fault e') :
    Refuses (work (.run s) calls H) name arguments e₂ e'

/-- What is refused is that a fiber is made. -/
lemma Refuses.spawn (refused : w.Refuses name arguments e e') :
    Changes .nothing w.engine e ∧
      (w.engine.heap.Genuine → e.heap.Genuine ∧ ∀ r ∈ arguments, r.id < e.heap.cells.next) ∧
      ∃ err, spawn name arguments e = .error err e' := by
  cases refused with
  | host answered reason =>
    refine ⟨.refl, fun genuine => ⟨genuine, nofun⟩, _, spawn_of_refused answered ?_⟩
    rintro failure rfl
    rcases reason with ⟨_, impossible⟩ | ⟨_, impossible⟩ <;> cases impossible
  | @instruction s calls H inline budget _ _ e₁ _ _ fault fetched named given room failed =>
    have pops : Makes .nothing (Operand.popString s.current.fiber) :=
      Operand.makes_popAs s.current.fiber _ rfl
    have popped := pops s.engine trivial
    have taken := Operand.makes_popArguments (P := .nothing) s.current.fiber e₁ trivial
    rw [named] at popped
    rw [given] at taken
    refine ⟨popped.1.trans taken.1, fun genuine => ?_, ?_⟩
    · exact Operand.genuine_popArguments (Operand.genuine_popString genuine named) given
    · exact Activation.spawn_of_refused (a := s.executing budget) named given room failed

/-- A launch that is refused leaves nothing half-built: but for the arguments, which are given up,
everything is as it was, and the machine either has all its shared variables or there is nothing of
it. For the cells this holds where no value refers to a cell that was never issued, as under a host
that owns its references. -/
theorem refused_launch_leaves_nothing
    (reached : Relation.ReflTransGen Respects (host (.create source config) [] 0) w)
    (refused : w.Refuses name arguments e e') :
    e.Restores name e' ∧ (w.engine.heap.Genuine → e.RestoresCells name arguments e') ∧
      (Reachable .owning source config w → w.engine.heap.Genuine) := by
  have free := reachable_of_respects reached
  obtain ⟨ok, -⟩ := orderly_of_respects reached (orderly_create source config)
  obtain ⟨flown, staffed, -⟩ := Reachable.staffed free
  obtain ⟨changes, issued, err, failed⟩ := refused.spawn
  obtain ⟨restores, cells⟩ :=
    restores_spawn (changes.orderly ok).1 (changes.passes staffed).1
      (changes.rooted free.rooted_engine) failed
  exact ⟨restores, fun genuine => cells (issued genuine).1 (issued genuine).2, Reachable.genuine⟩

/-- A heap with room for eight cells. -/
def eightCells : Config := { heapCapacity := some 8 }

/-- An engine with a fiber, and with room for no more than two cells. -/
def nearlyFull :
    Engine :=
    (((Engine.create (fun _ => some duplicateVariables) eightCells).launch "duplicateVariables").run
    1).engine

/-- What is left after another launch. -/
def nearlyFullAfterRefusal : Engine := (nearlyFull.launch "duplicateVariables").engine

/-- Whether a launch is refused because the heap is full. -/
def isExhausted : Progress → Bool
  | .done _ (.launched (.error (.fault .heapExhausted))) => true
  | _ => false

private lemma reachable_nearlyFull :
    Reachable .owning (fun _ => some duplicateVariables) eightCells (host nearlyFull [] 0) :=
  reaches_launch (by decide +kernel)

/-- A launch is refused because the heap is nearly full. -/
private lemma refuses_nearlyFull :
    (host nearlyFull [] 0).Refuses "duplicateVariables" [] nearlyFull nearlyFullAfterRefusal := by
  have full : isExhausted (nearlyFull.launch "duplicateVariables") := by decide +kernel
  unfold nearlyFullAfterRefusal
  cases launched : nearlyFull.launch "duplicateVariables" with
  | done e' reply =>
    rw [launched] at full
    unfold isExhausted at full
    split at full
    case h_1 answered =>
      cases answered
      exact .host launched (.inl ⟨_, rfl⟩)
    case h_2 => cases full
  | running =>
    rw [launched] at full
    cases full
  | awaiting =>
    rw [launched] at full
    cases full

/-- Another fiber gets its cell and the first of its variables, and nothing is left of them. -/
theorem refused_launch_leaves_nothing_nearlyFull :
    Relation.ReflTransGen Respects
      (host (.create (fun _ => some duplicateVariables) eightCells) [] 0) (host nearlyFull [] 0) ∧
    (host nearlyFull [] 0).Refuses "duplicateVariables" [] nearlyFull nearlyFullAfterRefusal ∧
    (∀ f, nearlyFullAfterRefusal.fiber? f = nearlyFull.fiber? f) ∧
      ∀ r, nearlyFullAfterRefusal.heap.cell? r = nearlyFull.heap.cell? r := by
  have respects := respects_of_reaches (c := .owning) nofun reachable_nearlyFull
  obtain ⟨restores, cells, genuine⟩ := refused_launch_leaves_nothing respects refuses_nearlyFull
  have sprouts := cells (genuine reachable_nearlyFull)
  have loaded : (nearlyFull.machines.find? "duplicateVariables").isSome := by decide +kernel
  have nothing : nearlyFull.sharedSince "duplicateVariables" nearlyFullAfterRefusal = [] := by
    obtain ⟨m, found⟩ := Option.isSome_iff_exists.1 loaded
    rw [sharedSince, found]
  refine ⟨respects, refuses_nearlyFull, restores.fibers, fun r => ?_⟩
  rw [RestoresCells, nothing] at sprouts
  rcases Nat.lt_or_ge r.id nearlyFull.heap.cells.next with early | late
  · exact sprouts.agrees.cell r early
  · rw [sprouts.nothing r late List.not_mem_nil]
    exact (nearlyFull.heap.cells.get?_of_next_le late).symm

end World

end FiberVM
