import FiberVM.Proofs.Engine.Tables
import FiberVM.Proofs.World.Flight

/-!
# Variables in the course of time

A host may do whatever it likes, as long as it leaves the variables to the engine and declares only
global ones (`World.Respects`). Whatever happens then, machines and fibers have the variables that
their images declare, and keep them (`World.variables_follow_images`).
-/

namespace FiberVM

open Engine

variable {c : Conduct} {source : String → Option Image} {config : Config} {w w' : World}
  {H H' : Multiset Ref} {e e' : Engine} {calls : List (HostCall × Session)}

/-! ## What a host does -/

namespace Engine

lemma stays_retainFiber {f cell} (retained : e.retainFiber f = some (cell, e')) :
    Stays e e' := by
  obtain ⟨x, -, retained⟩ := Option.bind_eq_some_iff.1 retained
  obtain ⟨cell, -, retained⟩ := Option.bind_eq_some_iff.1 retained
  obtain ⟨heap, taken, retained⟩ := Option.bind_eq_some_iff.1 retained
  cases retained
  exact .of_fibers rfl rfl (Heap.same_retain? taken)

lemma stays_post (list event : String) (e : Engine) : Stays e (e.post list event).2 := by
  unfold Engine.post
  split <;> exact .of_fibers rfl rfl rfl

/-- A registration touches no variables. -/
lemma stays_register (parent : Option ContinuationId) (f : FiberId) (condition : Condition)
    (pc : Nat) (e : Engine) :
    Stays e (e.register parent f condition pc).2 := by
  unfold Engine.register
  cases retained : e.retainFiber f with
  | none => exact .of_fibers rfl rfl rfl
  | some taken =>
    obtain ⟨cell, e'⟩ := taken
    have stays := stays_retainFiber retained
    dsimp only
    split
    · exact ⟨stays.fibers, stays.next, stays.machines, stays.same⟩
    · refine ⟨stays.fibers, stays.next, stays.machines, ?_⟩
      exact IsTrans.trans _ _ _ stays.same (e'.heap.same_release cell)

lemma stays_registerAt (parent : Option ContinuationId) (f : FiberId) (expiry : Binary64) (pc : Nat)
    (recurrence : Int64) (delta : Binary64) (e : Engine) :
    Stays e (e.registerAt parent f expiry pc recurrence delta).2 := by
  unfold Engine.registerAt
  cases retained : e.retainFiber f with
  | none => exact .of_fibers rfl rfl rfl
  | some taken =>
    have stays := stays_retainFiber retained
    exact ⟨stays.fibers, stays.next, stays.machines, stays.same⟩

/-- Fibers that are reaped leave no variables behind. -/
lemma Orderly.cancel (ok : e.Orderly) (id : ContinuationId) :
    (e.cancel id).2.Orderly ∧ e.Develops (e.cancel id).2 := by
  unfold Engine.cancel
  split
  · exact ⟨ok, .refl e⟩
  · have stays : Stays e ({ e with agenda := (e.agenda.cancel id).2 }.releaseAll
        (e.agenda.cancel id).1) :=
      .of_fibers rfl rfl (Heap.same_releaseAll _ _)
    obtain ⟨ok', develops⟩ := (changes_reap (P := .nothing) _).orderly (stays.orderly ok)
    exact ⟨ok', stays.develops.trans develops⟩

/-- A global variable is set, and declared only if it did not exist. -/
lemma Orderly.declareGlobal (ok : e.Orderly) (name : String) (v : Value) :
    (e.afterHeap (Engine.declareGlobal name v e.heap)).Orderly ∧
      e.Develops (e.afterHeap (Engine.declareGlobal name v e.heap)) := by
  have named : ∀ heap, e.heap.Names heap → ({ e with heap } : Engine).Orderly ∧
      e.Develops { e with heap } := by
    rintro heap (same | ⟨name, r, new, declared⟩)
    · exact ok.stays (.of_fibers rfl rfl same)
    · exact ok.declare new declared
  unfold Engine.declareGlobal
  rw [bind_of_ok (rfl : (get : HeapM Heap) e.heap = .ok e.heap e.heap)]
  cases found : e.heap.lookup? .global (.name name) with
  | some r =>
    have stored := Heap.tame_store r v e.heap trivial
    simp only
    cases run : Heap.store r v e.heap with
    | ok x heap =>
      rw [run] at stored
      exact named heap (.inl stored.1)
    | error fault heap =>
      rw [run] at stored
      exact named heap (.inl stored.1)
  | none =>
    have declared := Operand.names_declare found (Std.Refl.refl e.heap) v
    simp only
    cases run : (do let _ ← Heap.declare .global name v : HeapM Unit) e.heap with
    | ok x heap =>
      rw [run] at declared
      exact named heap declared.1
    | error fault heap =>
      rw [run] at declared
      exact named heap declared.1

end Engine

/-- What a host does at once keeps variables and images together, if it does not change variables
itself. -/
lemma Act.orderly (done : Act c e H e' H') (kept : c = .free → e.heap.SameVariables e'.heap)
    (ok : e.Orderly) :
    e'.Orderly ∧ e.Develops e' := by
  cases done with
  | post list event => exact ok.stays (stays_post list event e)
  | register parent fiber condition pc =>
    exact ok.stays (stays_register parent fiber condition pc e)
  | registerAt parent fiber expiry pc recurrence delta =>
    exact ok.stays (stays_registerAt parent fiber expiry pc recurrence delta e)
  | cancel id => exact ok.cancel id
  | declareGlobal name v => exact ok.declareGlobal name v
  | alloc v r heap _ _ made =>
    have allocated := Heap.tame_allocTemporary v e.heap trivial
    rw [made] at allocated
    exact ok.stays (.of_fibers rfl rfl allocated.1)
  | allocFull v fault heap _ _ failed =>
    have allocated := Heap.tame_allocTemporary v e.heap trivial
    rw [failed] at allocated
    exact ok.stays (.of_fibers rfl rfl allocated.1)
  | copy r v heap made =>
    have copied := Heap.tame_copy r e.heap trivial
    rw [made] at copied
    exact ok.stays (.of_fibers rfl rfl copied.1)
  | release r => exact ok.stays (.of_fibers rfl rfl (e.heap.same_release r))
  | takeFaults | print | addFunction | addLibrary => exact ok.stays (.of_fibers rfl rfl rfl)
  | meddle heap free => exact ok.stays (.of_fibers rfl rfl (kept free))

/-- A host that does as it likes may do anything. -/
lemma Act.free {c H H'} (done : Act c e H e' H') :
    Act .free e H e' H' := by
  cases done with
  | post list event => exact .post list event
  | register parent fiber condition pc => exact .register parent fiber condition pc
  | registerAt parent fiber expiry pc recurrence delta =>
    exact .registerAt parent fiber expiry pc recurrence delta
  | cancel id => exact .cancel id
  | declareGlobal name v => exact .declareGlobal name v (absurd rfl) nofun
  | alloc v r heap _ _ made => exact .alloc v r heap (absurd rfl) nofun made
  | allocFull v fault heap _ _ failed => exact .allocFull v fault heap (absurd rfl) nofun failed
  | copy r v heap made => exact .copy r v heap made
  | release r => exact .release r nofun
  | takeFaults => exact .takeFaults
  | print line => exact .print line
  | addFunction f => exact .addFunction f rfl
  | addLibrary l => exact .addLibrary l rfl
  | meddle heap => exact .meddle heap rfl

/-! ## What an engine does -/

lemma Request.orderly (q : Request) (ok : e.Orderly) :
    (q.start e).engine.Orderly ∧ e.Develops (q.start e).engine := by
  rcases q.flies e with ⟨dt, rfl⟩ | flies
  · exact ok.stays (.of_fibers rfl rfl rfl)
  · exact flies.orderly ok

lemma Session.orderly_fire (due : List ContinuationId) (ok : e.Orderly) :
    (fire due e).engine.Orderly ∧ e.Develops (fire due e).engine := by
  obtain ⟨agenda, cells, changes⟩ := changes_fire due e
  have stays : Stays e ({ e with agenda }.releaseAll cells) :=
    .of_fibers rfl rfl (Heap.same_releaseAll _ _)
  obtain ⟨ok', develops⟩ := changes.orderly (stays.orderly ok)
  exact ⟨ok', stays.develops.trans develops⟩

lemma Turn.orderly (t : Turn) (ok : t.engine.Orderly) :
    t.next.engine.Orderly ∧ t.engine.Develops t.next.engine := by
  cases t with
  | run s => exact (Session.flies_step s).orderly ok
  | fire due e => exact Session.orderly_fire due ok

namespace World

/-- What can happen next where variables are left to the engine. The host may declare global ones,
with any value. -/
inductive Respects : World → World → Prop
  /-- The host adds no functions and does not touch the heap behind the engine's back. -/
  | move {c : Conduct} {w w' : World} (restrained : c ≠ .free) (move : Move c w w') : Respects w w'
  /-- The host does anything that leaves all variables where they are. -/
  | act {e e' : Engine} {calls : List (HostCall × Session)} {H H' : Multiset Ref}
      (done : Act .free e H e' H') (kept : e.heap.SameVariables e'.heap) :
      Respects (host e calls H) (host e' calls H')
  | declare {e : Engine} {calls : List (HostCall × Session)} {H : Multiset Ref} (name : String)
      (v : Value) :
    Respects (host e calls H) (host (e.afterHeap (Engine.declareGlobal name v e.heap)) calls H)

/-- Such a host keeps the tables orderly. -/
lemma Respects.orderly (respects : Respects w w') (ok : w.engine.Orderly) :
    w'.engine.Orderly ∧ w.engine.Develops w'.engine := by
  cases respects with
  | move restrained move =>
    cases move with
    | act done => exact done.orderly (fun free => absurd free restrained) ok
    | request q =>
      rw [engine_after]
      exact q.orderly ok
    | @answer e H calls call s results =>
      have unwinds := s.unwinds_answer (P := .nothing) e call results
      rw [engine_after]
      exact unwinds.flies.orderly ok
    | step t =>
      rw [engine_after]
      exact t.orderly ok
  | act done kept => exact done.orderly (fun _ => kept) ok
  | declare name v => exact Orderly.declareGlobal ok name v

/-- It is a host like any other. -/
lemma Respects.free (respects : Respects w w') : Move .free w w' := by
  cases respects with
  | move _ move =>
    cases move with
    | act done => exact .act done.free
    | request q => exact .request q
    | answer call s results => exact .answer call s results
    | step t => exact .step t
  | act done => exact .act done
  | declare name v => exact .act (.declareGlobal name v (absurd rfl) nofun)

lemma orderly_of_respects (later : Relation.ReflTransGen Respects w w') (ok : w.engine.Orderly) :
    w'.engine.Orderly ∧ w.engine.Develops w'.engine := by
  induction later with
  | refl => exact ⟨ok, .refl _⟩
  | tail _ respects ih =>
    obtain ⟨ok', develops⟩ := respects.orderly ih.1
    exact ⟨ok', ih.2.trans develops⟩

lemma reachable_of_respects
    (reached : Relation.ReflTransGen Respects (host (.create source config) [] 0) w) :
    Reachable .free source config w :=
  Relation.ReflTransGen.mono (fun _ _ => Respects.free) _ _ reached

/-- A host that is restrained leaves variables to the engine. -/
lemma respects_of_reaches (restrained : c ≠ .free) (reached : Reaches c w w') :
    Relation.ReflTransGen Respects w w' :=
  Relation.ReflTransGen.mono (fun _ _ => .move restrained) w w' reached

/-- Machines and fibers have the variables that their images declare, in the order of declaration
and with nothing left where there is no machine or fiber. They keep them, as the engine keeps its
global variables, and a name leads to the variable that is the first one to be declared with it. -/
theorem variables_follow_images
    (reached : Relation.ReflTransGen Respects (host (.create source config) [] 0) w)
    (later : Relation.ReflTransGen Respects w w') :
    (∀ owner, w.engine.Conforms owner) ∧
    (∀ name m, w.engine.machines.find? name = some m →
      w'.engine.machines.find? name = some m ∧
        w'.engine.heap.entries (.machine name) = w.engine.heap.entries (.machine name)) ∧
    (∀ f x y, w.engine.fiber? f = some x → w'.engine.fiber? f = some y →
      y.machine = x.machine ∧ y.image = x.image ∧
        w'.engine.heap.entries (.fiber f) = w.engine.heap.entries (.fiber f)) ∧
    (∀ key r, w.engine.heap.lookup? .global key = some r →
      w'.engine.heap.lookup? .global key = some r) ∧
    (∀ f x name, w.engine.fiber? f = some x →
      w.engine.heap.lookup? (.fiber f) (.name name) =
        (x.image.localIndex? name).bind fun i => w.engine.heap.lookup? (.fiber f) (.index i)) ∧
    ∀ machine m name, w.engine.machines.find? machine = some m →
      w.engine.heap.lookup? (.machine machine) (.name name) =
        (m.image.sharedIndex? name).bind fun i =>
          w.engine.heap.lookup? (.machine machine) (.index i) := by
  obtain ⟨ok, -⟩ := orderly_of_respects reached (orderly_create source config)
  obtain ⟨-, develops⟩ := orderly_of_respects later ok
  refine ⟨ok, fun _ _ => develops.machine, fun _ _ _ => develops.entries_fiber, fun _ _ =>
    develops.lookup?_global, ?_⟩
  exact ⟨fun _ _ name found => (ok.locals found).lookup? name, fun _ _ name loaded =>
    (ok.shared loaded).2.lookup? name⟩

/-- A machine that declares two variables of one name, and two shared ones. -/
def duplicateVariables : Image where
  name := "duplicateVariables"
  words := #[.plain .endState]
  states := [⟨0, 0⟩]
  locals := [⟨0, 1⟩, ⟨2, 1⟩, ⟨0, 1⟩]
  shared := [⟨2, 1⟩, ⟨2, 1⟩]
  strings := ⟨#[110, 0, 105, 110, 116, 0, 115, 117, 109, 0], #[0, 2, 6]⟩

/-- An engine with a fiber of that machine. -/
def oneFiber :
    Engine :=
    (((Engine.create (fun _ => some duplicateVariables) {}).launch "duplicateVariables").run
    1).engine

/-- Another fiber is launched. -/
def twoFibers : Engine := ((oneFiber.launch "duplicateVariables").run 1).engine

/-- Besides, a global variable is declared. -/
def twoFibersAndGlobal : Engine :=
  twoFibers.afterHeap (Engine.declareGlobal "n" (.int 1) twoFibers.heap)

/-- Whether the host is answered. -/
def isAnswered : Progress → Bool
  | .done _ _ => true
  | _ => false

/-- A machine is launched by a host that does nothing meanwhile. -/
lemma reaches_launch {e : Engine} {name n} (answered : isAnswered ((e.launch name).run n)) :
    Reaches c (host e [] 0) (host ((e.launch name).run n).engine [] 0) := by
  have reached : Reaches c (host e [] 0) (after [] 0 ((e.launch name).run n)) :=
    .request .refl (.launch name) n
  generalize (e.launch name).run n = p at answered reached ⊢
  cases p with
  | done e' reply => exact reached
  | running => cases answered
  | awaiting => cases answered

private lemma respects_oneFiber :
    Relation.ReflTransGen Respects (host (.create (fun _ => some duplicateVariables) {}) [] 0)
      (host oneFiber [] 0) :=
  respects_of_reaches (c := .owning) nofun (reaches_launch (by decide +kernel))

private lemma respects_twoFibersAndGlobal :
    Relation.ReflTransGen Respects (host oneFiber [] 0) (host twoFibersAndGlobal [] 0) := by
  have launched : Relation.ReflTransGen Respects (host oneFiber [] 0) (host twoFibers [] 0) :=
    respects_of_reaches (c := .owning) nofun (reaches_launch (by decide +kernel))
  exact launched.tail (.declare "n" (.int 1))

/-- The first fiber finds the first of its variables by name, and keeps all of them while another
one is launched. -/
theorem variables_follow_images_twoFibers :
    Relation.ReflTransGen Respects (host (.create (fun _ => some duplicateVariables) {}) [] 0)
      (host oneFiber [] 0) ∧
    Relation.ReflTransGen Respects (host oneFiber [] 0) (host twoFibersAndGlobal [] 0) ∧
    (oneFiber.heap.lookup? (.fiber ⟨0⟩) (.index 0)).isSome ∧
    oneFiber.heap.lookup? (.fiber ⟨0⟩) (.name "n") = oneFiber.heap.lookup? (.fiber ⟨0⟩) (.index 0) ∧
    oneFiber.heap.lookup? (.machine "duplicateVariables") (.name "sum") = oneFiber.heap.lookup?
      (.machine "duplicateVariables") (.index 0) ∧
    twoFibersAndGlobal.heap.entries (.machine "duplicateVariables") = oneFiber.heap.entries
      (.machine "duplicateVariables") ∧
    twoFibersAndGlobal.heap.entries (.fiber ⟨0⟩) = oneFiber.heap.entries (.fiber ⟨0⟩) := by
  obtain ⟨-, machines, fibers, -, locals, shared⟩ :=
    variables_follow_images respects_oneFiber respects_twoFibersAndGlobal
  simp only [engine] at machines fibers locals shared
  have image : (oneFiber.fiber? ⟨0⟩).map (·.image) = some duplicateVariables := by decide +kernel
  have loaded : (oneFiber.machines.find? "duplicateVariables").map (·.image) =
      some duplicateVariables := by decide +kernel
  have there : (twoFibersAndGlobal.fiber? ⟨0⟩).isSome := by decide +kernel
  obtain ⟨x, found, image⟩ := Option.map_eq_some_iff.1 image
  obtain ⟨m, loaded, image'⟩ := Option.map_eq_some_iff.1 loaded
  obtain ⟨y, found'⟩ := Option.isSome_iff_exists.1 there
  refine ⟨respects_oneFiber, respects_twoFibersAndGlobal, by decide +kernel, ?_, ?_,
    (machines _ m loaded).2, (fibers _ x y found found').2.2⟩
  · have first : duplicateVariables.localIndex? "n" = some 0 := by decide +kernel
    rw [locals _ x "n" found, image, first, Option.bind_some]
  · have first : duplicateVariables.sharedIndex? "sum" = some 0 := by decide +kernel
    rw [shared _ m "sum" loaded, image', first, Option.bind_some]

end World

end FiberVM
