import Mathlib.Logic.Relation
import FiberVM.Proofs.Engine.Host

/-!
# Hosts and engines

A world consists of an engine, of the calls that functions of the host have yet to answer, and of
the references that the host holds. Either it is the host's turn, or the engine is at work on a
request. The host may do whatever its conduct allows (`Act`), start a request or answer the latest
call; the engine takes one step (`Move`).

Every world that can be reached from a new engine is sound (`World.Reachable.sound`), and on the way
from one world to another the agenda evolves (`World.Reaches.sound`).
-/

namespace FiberVM

/-! ## What a host can do -/

/-- What a host can ask of an engine. -/
inductive Request where
  | launch (name : String)
  | update (dt : Binary64)
  | resume (fiber : FiberId)

/-- A request at its beginning. -/
def Request.start : Request → Engine → Progress
  | launch name, e => e.launch name
  | update dt, e => e.update dt
  | resume fiber, e => e.resume fiber

/-- The engine with the heap that an operation leaves behind, whether it succeeds or fails. -/
def Engine.afterHeap {α : Type} (e : Engine) : EStateM.Result Fault Heap α → Engine
  | .ok _ heap => { e with heap }
  | .error _ heap => { e with heap }

/-- What a host does at once, with the references that it holds before and after. Any host may hand
over values that are no instances, and one that owns its references hands over none but those that
it holds. Only a host that does as it likes adds functions or changes the heap behind the engine's
back. -/
inductive Act (c : Conduct) : Engine → Multiset Ref → Engine → Multiset Ref → Prop where
  | post {e H} (list event : String) : Act c e H (e.post list event).2 H
  | register {e H} (parent : Option ContinuationId) (fiber : FiberId) (condition : Condition)
      (pc : Nat) :
    Act c e H (e.register parent fiber condition pc).2 H
  | registerAt {e H} (parent : Option ContinuationId) (fiber : FiberId) (expiry : Binary64)
      (pc : Nat) (recurrence : Int64) (delta : Binary64) :
    Act c e H (e.registerAt parent fiber expiry pc recurrence delta).2 H
  | cancel {e H} (id : ContinuationId) : Act c e H (e.cancel id).2 H
  | declareGlobal {e} {H H' : Multiset Ref} (name : String) (v : Value)
      (other : c ≠ .free → v.instance? = none)
      (owned : c = .owning → H = v.refs + H') :
    Act c e H (e.afterHeap (Engine.declareGlobal name v e.heap)) H'
  | alloc {e} {H H' : Multiset Ref} (v : Value) (r : Ref) (heap : Heap)
      (other : c ≠ .free → v.instance? = none)
      (owned : c = .owning → H = v.refs + H')
      (made : Heap.allocTemporary v e.heap = .ok r heap) :
    Act c e H { e with heap } ({r} + H')
  | allocFull {e} {H H' : Multiset Ref} (v : Value) (fault : Fault) (heap : Heap)
      (other : c ≠ .free → v.instance? = none)
      (owned : c = .owning → H = v.refs + H')
      (failed : Heap.allocTemporary v e.heap = .error fault heap) :
    Act c e H { e with heap } H'
  | copy {e H} (r : Ref) (v : Value) (heap : Heap)
      (made : Heap.copy r e.heap = .ok v heap) :
    Act c e H { e with heap } (v.refs + H)
  | release {e H H'} (r : Ref) (owned : c = .owning → H = {r} + H') :
    Act c e H (e.release r) H'
  | takeFaults {e H} : Act c e H e.takeFaults.2 H
  | print {e H} (line : String) : Act c e H (e.print line) H
  | addFunction {e H} (f : Native) (free : c = .free) : Act c e H (e.addFunction f) H
  | addLibrary {e H} (l : Library) (free : c = .free) : Act c e H (e.addLibrary l) H
  | meddle {e H} (heap : Heap) (free : c = .free) : Act c e H { e with heap } H

/-! ## Worlds -/

/-- A host and an engine. -/
inductive World where
  /-- It is the host's turn. -/
  | host (engine : Engine) (calls : List (HostCall × Session)) (held : Multiset Ref)
  /-- The engine is at work. -/
  | work (turn : Turn) (calls : List (HostCall × Session)) (held : Multiset Ref)

namespace World

/-- The engine of a world. -/
def engine : World → Engine
  | host e _ _ => e
  | work t _ _ => t.engine

/-- The fibers that run, with their cells. -/
def crew : World → List (FiberId × Ref)
  | work (.run s) _ _ => s.crew
  | _ => []

/-- The references that the host and the running activations hold. -/
def inHand : World → Multiset Ref
  | host _ _ held => held
  | work (.run s) _ held => s.refs + held
  | work (.fire ..) _ held => held

/-- The world in which a request has come so far. -/
def after (calls : List (HostCall × Session)) (held : Multiset Ref) : Progress → World
  | .running t => work t calls held
  | .awaiting call s => host s.engine ((call, s) :: calls) held
  | .done e _ => host e calls held

/-- What can happen next. -/
inductive Move (c : Conduct) : World → World → Prop where
  /-- The host does something at once. -/
  | act {e H e' H' calls} (done : Act c e H e' H') : Move c (host e calls H) (host e' calls H')
  /-- The host starts a request. -/
  | request {e H calls} (q : Request) : Move c (host e calls H) (after calls H (q.start e))
  /-- The host answers the latest call. -/
  | answer {e H calls} (call : HostCall) (s : Session) (results : Except Fault (List Value)) :
    Move c (host e ((call, s) :: calls) H)
      (after calls H ({ s with engine := e }.answer call results))
  /-- The engine takes a step. -/
  | step {H calls} (t : Turn) : Move c (work t calls H) (after calls H t.next)

/-- What can happen in time. -/
abbrev Reaches (c : Conduct) : World → World → Prop := Relation.ReflTransGen (Move c)

/-- What can happen with a new engine. -/
abbrev Reachable (c : Conduct) (source : String → Option Image) (config : Config) (w : World) :
    Prop :=
  Reaches c (host (.create source config) [] 0) w

end World

variable {c : Conduct} {H H' : Multiset Ref} {e e' : Engine} {source : String → Option Image}
  {config : Config} {w w' : World} {calls : List (HostCall × Session)}

lemma Progress.run_zero (p : Progress) : p.run 0 = p := by cases p <;> rfl

namespace World

@[simp] lemma engine_after (calls : List (HostCall × Session)) (held : Multiset Ref)
    (p : Progress) :
    (after calls held p).engine = p.engine := by
  cases p <;> rfl

/-- An engine at work takes any number of steps. -/
lemma reaches_run (p : Progress) (n : Nat) :
    Reaches c (after calls H p) (after calls H (p.run n)) := by
  induction n generalizing p with
  | zero => rw [Progress.run_zero]
  | succ n ih =>
    cases p with
    | running t =>
      have move : Move c (work t calls H) (after calls H t.next) := .step t
      exact Relation.ReflTransGen.head move (ih t.next)
    | awaiting call s => exact .refl
    | done e reply => exact .refl

/-- A request is carried on for any number of steps. -/
lemma Reaches.request (reached : Reaches c w (host e calls H)) (q : Request) (n : Nat) :
    Reaches c w (after calls H ((q.start e).run n)) :=
  (reached.tail (.request q)).trans (reaches_run _ n)

/-! ## Soundness -/

/-- What is known of a world. The host has calls to answer only if it has added functions. -/
def Sound (c : Conduct) : World → Prop
  | host e calls H => e.Sound c ⟨[], []⟩ H 0 ∧ (c ≠ .free → calls = [])
  | work t calls H => t.Sound c H ∧ (c ≠ .free → calls = [])

lemma sound_after {p : Progress} (ok : p.Sound c H) (answered : c ≠ .free → calls = []) :
    (after calls H p).Sound c := by
  cases p with
  | running t => exact ⟨ok, answered⟩
  | done e reply => exact ⟨ok, answered⟩
  | awaiting call s =>
    obtain ⟨rfl, ok⟩ := ok
    exact ⟨.of_indexed ok.engine.indexed, absurd rfl⟩

end World

namespace Engine

/-- A new engine has no fibers. -/
lemma cellOf?_create (source : String → Option Image) (config : Config) (f : FiberId) :
    (create source config).cellOf? f = none := by
  rw [cellOf?, fiber?]
  exact congrArg _ (Arena.get?_empty _)

/-- A new engine has no cells. -/
lemma cell?_create (source : String → Option Image) (config : Config) (r : Ref) :
    (create source config).heap.cell? r = none :=
  Heap.cell?_empty config.heapCapacity r

/-- Where there are no fibers and no cells, they fit together. -/
lemma consistent_create (source : String → Option Image) (config : Config) :
    (create source config).Consistent ⟨[], []⟩ where
  tidy :=
    { lives := fun r _ hc => nomatch (cell?_create source config r).symm.trans hc
      issued := fun _ _ => nofun
      plain := fun _ _ => nofun }
  natives := Catalog.isBuiltin_of_mem_builtins
  builtin f _ hx := nomatch (cellOf?_create source config f).symm.trans (cellOf?_of_fiber? hx)
  instances r _ hf := nomatch (congrArg (Option.bind · Cell.value)
    (cell?_create source config r)).symm.trans hf
  celled f _ hf := nomatch (cellOf?_create source config f).symm.trans hf
  complete f hf := nomatch (cellOf?_create source config f).symm.trans hf
  orphans := nofun
  waiting id _ _ hb := nomatch (Agenda.bond?_ofLists config.eventLists id).symm.trans hb
  rooted := nofun
  main := nofun
  owners := nofun
  crew := nofun

/-- A new engine is sound, and holds nothing. -/
lemma sound_create (source : String → Option Image) (config : Config) :
    (create source config).Sound c ⟨[], []⟩ 0 0 := by
  refine ⟨Agenda.indexed_ofLists _, fun _ => consistent_create source config, fun _ => ?_⟩
  have held : (create source config).held = 0 := by
    change (Arena.empty : Arena Fiber).total Fiber.refs +
      (Agenda.ofLists config.eventLists).cells + 0 = 0
    rw [Arena.total_empty, Agenda.cells_ofLists]
    rfl
  have weakly : (create source config).weakly = 0 := by
    change (Arena.empty : Arena Fiber).total Fiber.weakRefs + 0 = 0
    rw [Arena.total_empty]
    rfl
  rw [held, weakly]
  exact Heap.accounts_empty config.heapCapacity

end Engine

/-- What a host does at once keeps an engine sound. -/
lemma Act.sound (done : Act c e H e' H') (ok : e.Sound c ⟨[], []⟩ H 0) :
    e'.Sound c ⟨[], []⟩ H' 0 ∧ e.agenda.Evolves e'.agenda := by
  -- What a host hands over counts only if it owns its references.
  have owning : ∀ {given rest : Multiset Ref}, (c = .owning → H = given + rest) →
      e.Sound c ⟨[], []⟩ (given + rest) 0 := by
    intro given rest owned
    by_cases hc : c = .owning
    · exact ok.cast (owned hc) rfl
    · exact ok.of_ne_owning hc
  cases done with
  | post list event => exact Engine.sound_post ok list event
  | register parent fiber condition pc => exact Engine.sound_register ok parent fiber condition pc
  | registerAt parent fiber expiry pc recurrence delta =>
    exact Engine.sound_registerAt ok parent fiber expiry pc recurrence delta
  | cancel id => exact Engine.sound_cancel ok id
  | declareGlobal name v other owned =>
    have ok' := owning owned
    have declared := Engine.runs_declareGlobal name other e.heap
      (ok'.heap.cast (add_assoc _ _ _) rfl)
    cases run : Engine.declareGlobal name v e.heap with
    | ok x heap =>
      rw [run] at declared
      exact ⟨ok'.of_heap declared.1 declared.2, .refl _⟩
    | error fault heap =>
      rw [run] at declared
      exact ⟨ok'.of_heap declared.1 declared.2.2, .refl _⟩
  | alloc v r heap other owned made =>
    have ok' := owning owned
    have allocated := Heap.runs_alloc .temporary other e.heap (ok'.heap.cast (add_assoc _ _ _) rfl)
    rw [show Heap.alloc .temporary v e.heap = .ok r heap from made] at allocated
    exact ⟨ok'.of_heap allocated.1 (allocated.2.1.cast (add_assoc _ _ _).symm rfl), .refl _⟩
  | allocFull v fault heap other owned failed =>
    have ok' := owning owned
    have allocated := Heap.runs_alloc .temporary other e.heap (ok'.heap.cast (add_assoc _ _ _) rfl)
    rw [show Heap.alloc .temporary v e.heap = .error fault heap from failed] at allocated
    exact ⟨ok'.of_heap allocated.1 allocated.2.2, .refl _⟩
  | copy r v heap made =>
    have live : e.heap.Live c r := by
      rintro rfl
      cases value : e.heap.get? r with
      | none => simp [Heap.copy, value] at made
      | some u => exact (ok.consistent Heap.owning_ne_free).tidy.strong_pos_of_get? value
    have copied := Heap.runs_copy e.heap ⟨⟨ok.heap, rfl⟩, live⟩
    rw [made] at copied
    exact ⟨ok.of_heap copied.1 (copied.2.1.1.cast (add_assoc _ _ _).symm rfl), .refl _⟩
  | release r owned =>
    obtain ⟨released, ok'⟩ := Engine.turns_release r e (owning owned)
    exact ⟨ok', released.agenda⟩
  | takeFaults => exact ⟨ok.of_same rfl rfl rfl rfl rfl rfl rfl, .refl _⟩
  | print line => exact ⟨ok.of_same rfl rfl rfl rfl rfl rfl rfl, .refl _⟩
  | addFunction f free =>
    subst free
    exact ⟨.of_indexed ok.indexed, .refl _⟩
  | addLibrary l free =>
    subst free
    exact ⟨.of_indexed ok.indexed, .refl _⟩
  | meddle heap free =>
    subst free
    exact ⟨.of_indexed ok.indexed, .refl _⟩

/-- A request keeps an engine sound, and runs no fiber for a continuation at its beginning. -/
lemma Request.sound (q : Request) (ok : e.Sound c ⟨[], []⟩ H 0) :
    (q.start e).Sound c H ∧ e.agenda.Evolves (q.start e).engine.agenda ∧
      (q.start e).Serves none := by
  cases q with
  | launch name =>
    have follows := Engine.follows_launch ok name
    exact ⟨follows.sound, follows.evolves.agenda, follows.serves⟩
  | update dt =>
    have follows := Engine.follows_update ok dt
    exact ⟨follows.sound, follows.evolves.agenda, follows.serves⟩
  | resume fiber => exact Engine.sound_resume ok fiber

namespace World

/-- Every move keeps a world sound, and lets the agenda evolve. -/
lemma Move.sound (move : Move c w w') (ok : w.Sound c) :
    w'.Sound c ∧ w.engine.agenda.Evolves w'.engine.agenda := by
  cases move with
  | act done =>
    obtain ⟨ok', evolved⟩ := done.sound ok.1
    exact ⟨⟨ok', ok.2⟩, evolved⟩
  | request q =>
    obtain ⟨ok', evolved, -⟩ := q.sound ok.1
    rw [engine_after]
    exact ⟨sound_after ok' ok.2, evolved⟩
  | @answer e H calls call s results =>
    have free : c = .free := by
      by_contra hc
      cases ok.2 hc
    subst free
    have follows : ({ s with engine := e }.answer call results).Follows .free H s.callers.firing?
        e :=
      Session.follows_answer (s := { s with engine := e }) ok.1.indexed call results
    rw [engine_after]
    exact ⟨sound_after follows.sound (absurd rfl), follows.evolves.agenda⟩
  | step t =>
    obtain ⟨ok', evolved⟩ := Turn.Sound.next ok.1
    rw [engine_after]
    exact ⟨sound_after ok' ok.2, evolved.agenda⟩

/-- Whatever happens, a world stays sound and the agenda evolves. -/
lemma Reaches.sound (reached : Reaches c w w') (ok : w.Sound c) :
    w'.Sound c ∧ w.engine.agenda.Evolves w'.engine.agenda := by
  induction reached with
  | refl => exact ⟨ok, .refl _⟩
  | tail _ move ih =>
    obtain ⟨ok', evolved⟩ := move.sound ih.1
    exact ⟨ok', ih.2.trans evolved⟩

lemma Reachable.sound (reached : Reachable c source config w) : w.Sound c :=
  (Reaches.sound reached ⟨Engine.sound_create source config, fun _ => rfl⟩).1

/-- The engine of a sound world accounts for what the host and the running activations hold. -/
lemma Sound.engine (ok : w.Sound c) : w.engine.Sound c ⟨w.crew, []⟩ w.inHand 0 := by
  cases w with
  | host e calls H => exact ok.1
  | work t calls H =>
    cases t with
    | run s => exact ok.1.engine
    | fire due e => exact ok.1

/-! ## A small world -/

/-- A machine that suspends, and changes its state when it is resumed. -/
def gotoAfterSuspend : Image where
  name := "gotoAfterSuspend"
  words := #[.plain .suspend, .plain .pushInt, ⟨1⟩, .plain .gotoState, .plain .endState]
  states := [⟨0, 0⟩, ⟨1, 4⟩]
  locals := []
  shared := []
  strings := ⟨#[97, 0, 98, 0], #[0, 2]⟩

/-- An engine with a fiber of that machine that is suspended, and for which the host has registered
a continuation. -/
def suspendedWithContinuation : Engine :=
  let launched :=
    ((Engine.create (fun _ => some gotoAfterSuspend) {}).launch "gotoAfterSuspend").run 1
  (launched.engine.registerAt none ⟨0⟩ .zero 4 0 .zero).2

lemma reachable_suspendedWithContinuation :
    Reachable c (fun _ => some gotoAfterSuspend) {} (host suspendedWithContinuation [] 0) :=
  .tail (Reaches.request .refl (.launch "gotoAfterSuspend") 1)
    (.act (.registerAt none ⟨0⟩ .zero 4 0 .zero))

/-- The fiber was resumed, and is about to change its state. -/
def resuming : Session where
  engine := ((suspendedWithContinuation.resume ⟨0⟩).run 1).engine
  current :=
    { fiber := ⟨0⟩
      machine := "gotoAfterSuspend"
      image := gotoAfterSuspend
      cell := ⟨0⟩
      continuation := none
      frame := []
      loops := []
      base := 0
      budget := none
      pc := 1
      next := 3 }
  callers := .resume

lemma reachable_resuming :
    Reachable c (fun _ => some gotoAfterSuspend) {} (work (.run resuming) [] 0) :=
  Reaches.request reachable_suspendedWithContinuation (.resume ⟨0⟩) 1

end World

end FiberVM
