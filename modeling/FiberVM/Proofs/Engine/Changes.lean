import FiberVM.Proofs.Engine.Spawn
import FiberVM.Proofs.Native.Faults

/-!
# Single changes of an engine

Whatever a run does to machines, to fibers, to variables and to the agenda comes down to a few
single changes (`Engine.Change`): a global variable is declared, a machine is loaded, a fiber is
made, altered or ended, it changes its state, a name is looked up for it, or a continuation is
registered. Everything else leaves all of them alone (`Engine.Alike`). What every single change
keeps is kept by every operation, however it ends.

Which addresses are kept for a fiber, which fibers change their state and which ones look names up
depends on the instruction; a permit says what is expected of it.
-/

namespace FiberVM

/-- Some of the variables of an image are listed with their names, in the order of declaration. -/
def Image.Lists (image : Image) (vs : List Variable) (entries : List (String × Ref)) : Prop :=
  List.Forall₂ (fun v x => image.string? v.name = some x.1) vs entries

/-- The latest marker on the stack of a fiber and everything beneath it. -/
def Fiber.guarded (x : Fiber) : List (Option Ref) := x.stack.dropWhile Option.isSome

lemma Fiber.guarded_suffix (x : Fiber) : x.guarded <:+ x.stack := List.dropWhile_suffix _

namespace Engine

/-- What a run is expected to do. -/
structure Permit where
  /-- The addresses that may be kept for a fiber, for it to go on from later. -/
  keeps : FiberId → Nat → Prop
  /-- The fibers that may change their state. -/
  leaves : FiberId → Prop
  /-- The fibers that may close an argument list. -/
  closes : FiberId → Prop
  /-- The fibers that may look names up. -/
  looks : FiberId → Prop
  /-- The names, given by their indexes, of which a fiber may note what they denote. -/
  notes : FiberId → Nat → Prop

/-- A permit that keeps no address and lets no fiber change its state, close a list or look a name
up. -/
def Permit.nothing : Permit :=
  ⟨fun _ _ => False, fun _ => False, fun _ => False, fun _ => False, fun _ _ => False⟩

/-- A permit that allows everything. -/
def Permit.anything : Permit :=
  ⟨fun _ _ => True, fun _ => True, fun _ => True, fun _ => True, fun _ _ => True⟩

/-- Roots and the main fiber have an identity that was issued. -/
def Rooted (e : Engine) : Prop :=
  ∀ f, (e.roots.find? f).isSome ∨ e.main = some f → f.id < e.fibers.next

/-- Fibers, agenda, configuration, machines and variables are left alone. -/
structure Alike (e e' : Engine) : Prop where
  fibers : e'.fibers = e.fibers
  agenda : e'.agenda = e.agenda
  config : e'.config = e.config
  machines : e'.machines = e.machines
  same : e.heap.SameVariables e'.heap
  searches : e'.searches = e.searches
  catalog : e'.catalog = e.catalog
  /-- Only a fiber that exists becomes a root or the main fiber. -/
  rooted : e.Rooted → e'.Rooted

/-- How a fiber may be altered. It may be suspended at an address that is kept, nothing is taken
from beneath the latest marker on its stack unless it closes a list, and only of some names it notes
what they denote. -/
structure Alters (P : Permit) (f : FiberId) (x y : Fiber) : Prop where
  machine : y.machine = x.machine
  image : y.image = x.image
  arguments : y.arguments = x.arguments
  suspended : y.suspended = x.suspended ∨ ∀ pc, y.suspended = some pc → P.keeps f pc
  stack : x.guarded <:+ y.stack ∨ P.closes f
  cache : ∀ i, y.cache.find? i = x.cache.find? i ∨ P.notes f i

/-- A single change of an engine. -/
inductive Change (P : Permit) : Engine → Engine → Prop
  | aside {e e'} (alike : Alike e e') : Change P e e'
  /-- A global variable is declared that did not exist. -/
  | declare {e : Engine} {heap name r} (new : e.heap.lookup? .global (.name name) = none)
      (declared : e.heap.Extends .global [(name, r)] heap) : Change P e { e with heap }
  | load {e : Engine} {heap} {m : Machine} {entries} (new : e.machines.find? m.name = none)
      (lists : m.image.Lists m.image.shared entries) (shared : m.shared = entries.map (·.2))
      (declared : e.heap.Extends (.machine m.name) entries heap) :
    Change P e { e with heap, machines := e.machines.insert m.name m }
  /-- A machine is not loaded, and nothing is left of the variables that were declared for it. -/
  | refuse {e : Engine} {heap : Heap} {name} (new : e.machines.find? name = none)
      (forgotten : heap.directory = e.heap.directory.erase (.machine name)) :
      Change P e { e with heap }
  | alter {e : Engine} {f x y} (found : e.fiber? f = some x) (alters : Alters P f x y) :
    Change P e (e.setFiber f y)
  /-- A fiber of a machine is made, with its variables. -/
  | make {e e' : Engine} {name m} {x : Fiber} {entries} (loaded : e.machines.find? name = some m)
      (machine : x.machine = m.name) (image : x.image = m.image) (awake : x.suspended = none)
      (fibers : ∀ f, e'.fiber? f = if f = ⟨e.fibers.next⟩ then some x else e.fiber? f)
      (next : e'.fibers.next = e.fibers.next + 1) (agenda : e'.agenda = e.agenda)
      (config : e'.config = e.config) (machines : e'.machines = e.machines)
      (lists : x.image.Lists x.image.locals entries)
      (declared : e.heap.Extends (.fiber ⟨e.fibers.next⟩) entries e'.heap)
      (blank : x.cache = .empty) (searches : e'.searches = e.searches)
      (catalog : e'.catalog = e.catalog) (rooted : e.Rooted → e'.Rooted) :
    Change P e e'
  /-- A fiber is not made, and nothing is left of it but its identity, which is not used again. -/
  | miss {e e' : Engine} (fibers : ∀ f, e'.fiber? f = e.fiber? f)
      (next : e'.fibers.next = e.fibers.next + 1)
      (agenda : e'.agenda = (e.agenda.cancelFiber ⟨e.fibers.next⟩).2)
      (config : e'.config = e.config) (machines : e'.machines = e.machines)
      (forgotten : e'.heap.directory = e.heap.directory.erase (.fiber ⟨e.fibers.next⟩))
      (searches : e'.searches = e.searches) (catalog : e'.catalog = e.catalog)
      (rooted : e.Rooted → e'.Rooted) :
    Change P e e'
  /-- A fiber is ended with its variables, and what it waits for is cancelled. -/
  | finish {e : Engine} {heap : Heap} {f} (there : (e.fiber? f).isSome)
      (forgotten : heap.directory = e.heap.directory.erase (.fiber f)) :
    Change P e { e with fibers := e.fibers.erase f.id, agenda := (e.agenda.cancelFiber f).2, heap }
  /-- A fiber changes its state, and what it waits for is cancelled. -/
  | leave {e} {f} (allowed : P.leaves f) :
    Change P e { e with agenda := (e.agenda.cancelFiber f).2 }
  /-- A name is looked up for a fiber. -/
  | look {e f} (allowed : P.looks f) :
      Change P e { e with searches := e.searches + 1 }
  /-- A continuation is registered for a fiber. -/
  | register {e : Engine} {parent f cell condition pc now id agenda} (there : (e.fiber? f).isSome)
      (allowed : P.keeps f pc)
      (registered : e.agenda.register parent f cell condition pc now = .ok (id, agenda)) :
    Change P e { e with agenda }

/-- A later engine comes from an earlier one by single changes. -/
abbrev Changes (P : Permit) : Engine → Engine → Prop := Relation.ReflTransGen (Change P)

variable {P : Permit} {e e' e'' : Engine} {id f : FiberId} {x y : Fiber} {α β : Type} {r : Ref}

namespace Alike

lemma refl (e : Engine) : Alike e e := ⟨rfl, rfl, rfl, rfl, rfl, rfl, rfl, id⟩

lemma trans (first : Alike e e') (later : Alike e' e'') : Alike e e'' :=
  ⟨later.fibers.trans first.fibers, later.agenda.trans first.agenda,
    later.config.trans first.config,
    later.machines.trans first.machines, IsTrans.trans _ _ _ first.same later.same,
    later.searches.trans first.searches, later.catalog.trans first.catalog,
    fun rooted => later.rooted (first.rooted rooted)⟩

lemma of_heap {heap} (same : e.heap.SameVariables heap) : Alike e { e with heap } :=
  ⟨rfl, rfl, rfl, rfl, same, rfl, rfl, id⟩

lemma changes (alike : Alike e e') : Changes P e e' := .single (.aside alike)

end Alike

/-- No change is one of the configuration. -/
lemma Changes.config (changes : Changes P e e') : e'.config = e.config := by
  induction changes with
  | refl => rfl
  | tail _ change ih =>
    rw [← ih]
    cases change with
    | aside alike => exact alike.config
    | make _ _ _ _ _ _ _ config => exact config
    | miss _ _ _ config => exact config
    | _ => rfl

/-- Nor does one register functions. -/
lemma Changes.catalog (changes : Changes P e e') : e'.catalog = e.catalog := by
  induction changes with
  | refl => rfl
  | tail _ change ih =>
    rw [← ih]
    cases change with
    | aside alike => exact alike.catalog
    | make _ _ _ _ _ _ _ _ _ _ _ _ _ catalog => exact catalog
    | miss _ _ _ _ _ _ _ catalog => exact catalog
    | _ => rfl

/-- Roots and the main fiber stay among the fibers that were made. -/
lemma Changes.rooted (changes : Changes P e e') (rooted : e.Rooted) : e'.Rooted := by
  induction changes with
  | refl => exact rooted
  | tail _ change ih =>
    cases change with
    | aside alike => exact alike.rooted ih
    | make _ _ _ _ _ _ _ _ _ _ _ _ _ _ rooted => exact rooted ih
    | miss _ _ _ _ _ _ _ _ rooted => exact rooted ih
    | alter =>
      intro f named
      rw [setFiber, Arena.next_set]
      exact ih f named
    | _ => exact ih

lemma lt_next_of_isSome (there : (e.fiber? f).isSome) : f.id < e.fibers.next := by
  by_contra late
  rw [fiber?, e.fibers.get?_of_next_le (Nat.le_of_not_lt late)] at there
  cases there

/-! ## Operations that make changes -/

/-- An operation makes such changes, however it ends, and does not fail because execution has gone
astray. -/
abbrev Does (P : Permit) (I : Engine → Prop) (m : EngineM α) (Q : α → Engine → Prop) : Prop :=
  Triple (Changes P) (fun fault => fault.isAstray = false) I m Q (fun _ => True)

/-- An operation of which nothing else matters. -/
abbrev Makes (P : Permit) (m : EngineM α) : Prop := Does P (fun _ => True) m fun _ _ => True

variable {I : Engine → Prop} {T : α → Engine → Prop} {m : EngineM α} {change : Engine → Engine}
  {fault : Fault}

lemma Makes.bind {k : α → EngineM β} {Q : β → Engine → Prop} (first : Makes P m)
    (next : ∀ a, Does P (fun _ => True) (k a) Q) : Does P (fun _ => True) (m >>= k) Q :=
  Triple.bind first next

/-- Nothing need be known of what an operation leaves behind. -/
lemma Makes.of_does (does : Does P (fun _ => True) m T) :
    Makes P m := does.post fun _ _ _ => trivial

lemma makes_pure (a : α) : Makes P (pure a) := .pure fun _ _ => trivial

lemma makes_throw (tame : fault.isAstray = false) : Does P I (throw fault : EngineM α) T :=
  .throw tame fun _ _ => trivial

lemma makes_get : Makes P get := Triple.get.post fun _ _ _ => trivial

/-- What is not about the heap stays true. -/
lemma does_onHeap {m : HeapM α} (tame : Tame m) (keeps : ∀ e heap, I e → I { e with heap }) :
    Does P I (EngineM.onHeap m) fun _ => I := by
  intro e holds
  have run := tame e.heap trivial
  unfold EngineM.onHeap
  cases result : m e.heap with
  | ok a heap =>
    rw [result] at run
    exact ⟨(Alike.of_heap run.1).changes, keeps e heap holds⟩
  | error fault heap =>
    rw [result] at run
    exact ⟨(Alike.of_heap run.1).changes, run.2.1, trivial⟩

lemma makes_onHeap {m : HeapM α} (tame : Tame m) : Makes P (EngineM.onHeap m) :=
  does_onHeap tame fun _ _ _ => trivial

lemma does_orFault {option : Option α} (tame : fault.isAstray = false) :
    Does P I (EngineM.orFault option fault) fun a e => I e ∧ option = some a := by
  unfold EngineM.orFault
  split
  · exact .pure fun _ holds => ⟨holds, rfl⟩
  · exact .throw tame fun _ _ => trivial

/-- A change that leaves fibers, agenda, machines and variables alone. -/
def Aside (change : Engine → Engine) : Prop := ∀ e, Alike e (change e)

lemma Aside.changes (aside : Aside change) (e : Engine) :
    Changes P e (change e) := (aside e).changes

lemma Aside.comp {later : Engine → Engine} (first : Aside change) (next : Aside later) :
    Aside fun e => later (change e) :=
  fun e => (first e).trans (next _)

lemma aside_mapHeap {change : Heap → Heap} (same : ∀ h : Heap, h.SameVariables (change h)) :
    Aside (·.mapHeap change) :=
  fun e => .of_heap (same e.heap)

lemma aside_release (r : Ref) : Aside (·.release r) := aside_mapHeap fun h => h.same_release r

lemma aside_releaseAll (rs : List Ref) :
    Aside (·.releaseAll rs) := aside_mapHeap (Heap.same_releaseAll rs)

lemma aside_releaseValue (v : Value) : Aside (·.mapHeap (·.releaseValue v)) :=
  aside_mapHeap fun h => h.same_releaseValue v

lemma aside_releaseWeak (r : Ref) :
    Aside (·.mapHeap (·.releaseWeak r)) := aside_mapHeap fun h => h.same_releaseWeak r

lemma makes_aside (aside : Aside change) :
    Makes P (modify change) := .modify fun e _ => ⟨aside.changes e, trivial⟩

/-- Changes that leave all of this alone may be made in any case. -/
lemma ensures_aside {E : Fault → Prop} (does : Triple (Changes P) E I m T fun _ => True)
    (aside : Aside change) (keeps : ∀ a e, T a e → T a (change e)) :
    Triple (Changes P) E I (m.ensure change) T fun _ => True :=
  does.ensure (fun a e holds => ⟨aside.changes e, keeps a e holds⟩) fun e _ =>
    ⟨aside.changes e, trivial⟩

lemma Makes.ensure (makes : Makes P m) (aside : Aside change) : Makes P (m.ensure change) :=
  ensures_aside makes aside fun _ _ _ => trivial

/-- Undoing something aside makes no other changes. -/
lemma Makes.onFault (makes : Makes P m) (aside : Aside change) : Makes P (m.onFault change) := by
  intro e _
  have begun := makes e trivial
  unfold EngineM.onFault
  cases run : m e with
  | ok a e' =>
    rw [run] at begun
    exact begun
  | error fault e' =>
    rw [run] at begun
    exact ⟨begun.1.trans (aside.changes e'), begun.2⟩

/-! ## Fibers -/

lemma does_fiber (id : FiberId) :
    Does P (fun _ => True) (EngineM.fiber id) fun x e => e.fiber? id = some x := by
  intro e _
  unfold EngineM.fiber
  cases found : e.fiber? id with
  | some x => exact ⟨.refl, found⟩
  | none => exact ⟨.refl, rfl, trivial⟩

/-- A fiber that was looked up is altered. -/
lemma does_alter (alters : Alters P id x y) :
    Does P (fun e => e.fiber? id = some x) (modify (·.setFiber id y)) fun _ e =>
      (e.fiber? id).isSome := by
  refine Triple.modify fun e found => ?_
  refine ⟨.single (.alter found alters), ?_⟩
  rw [fiber?_setFiber found, if_pos rfl]
  rfl

lemma makes_alter (alters : Alters P id x y) :
    Does P (fun e => e.fiber? id = some x) (modify (·.setFiber id y)) fun _ _ => True :=
  (does_alter alters).post fun _ _ _ => trivial

/-- What a fiber has besides its stack may be altered, but for its arguments. -/
lemma Alters.of_stack (machine : y.machine = x.machine) (image : y.image = x.image)
    (arguments : y.arguments = x.arguments)
    (suspended : y.suspended = x.suspended ∨ ∀ pc, y.suspended = some pc → P.keeps id pc)
    (stack : y.stack = x.stack) (cache : ∀ i, y.cache.find? i = x.cache.find? i ∨ P.notes id i) :
    Alters P id x y :=
  ⟨machine, image, arguments, suspended, .inl (stack ▸ x.guarded_suffix), cache⟩

/-- An entry may be put on the stack. -/
lemma Alters.push (x : Fiber) (entry : Option Ref) :
    Alters P id x { x with stack := entry :: x.stack } :=
  ⟨rfl, rfl, rfl, .inl rfl, .inl (x.guarded_suffix.trans (List.suffix_cons _ _)), fun _ => .inl rfl⟩

/-- A reference may be taken from the stack. -/
lemma Alters.pop {rest} (top : x.stack = some r :: rest) :
    Alters P id x { x with stack := rest } := by
  refine ⟨rfl, rfl, rfl, .inl rfl, .inl ?_, fun _ => .inl rfl⟩
  rw [Fiber.guarded, top, List.dropWhile_cons_of_pos rfl]
  exact List.dropWhile_suffix _

/-- Ending a fiber is one change. -/
lemma changes_teardown (e : Engine) (f : FiberId) : Changes P e (e.teardown f) := by
  cases found : e.fiber? f with
  | none =>
    rw [teardown_of_none found]
  | some x =>
    rw [teardown_eq found]
    have forgotten := directory_vacate x f (e.agenda.cancelFiber f).1 (e.roots.find? f) e.heap
    refine .tail (.single (.finish (found ▸ rfl) forgotten))
      (.aside ⟨rfl, rfl, rfl, rfl, rfl, rfl, rfl, ?_⟩)
    intro rooted g named
    refine rooted g (named.imp (fun root => ?_) fun main => ?_)
    · change ((e.roots.erase f).find? g).isSome at root
      rw [Table.find?_erase] at root
      split at root
      · cases root
      · exact root
    · change (if e.main = some f then none else e.main) = some g at main
      split at main
      · cases main
      · exact main

lemma changes_recordFault (e : Engine) (f : FiberId) (pc : Nat) (fault : Fault) :
    Changes P e (e.recordFault f pc fault).2 := by
  refine Relation.ReflTransGen.head ?_ (changes_teardown _ f)
  exact .aside ⟨rfl, rfl, rfl, rfl, rfl, rfl, rfl, id⟩

lemma changes_teardowns (lost : List FiberId) (e : Engine) :
    Changes P e (lost.foldl teardown e) := by
  induction lost generalizing e with
  | nil => exact .refl
  | cons f rest ih => exact (changes_teardown e f).trans (ih _)

/-- Reaping is a sequence of changes. -/
lemma changes_reap (e : Engine) : Changes P e e.reap := by
  have rounds : ∀ n e, Changes P e (reapRounds n e) := by
    intro n
    induction n with
    | zero => exact fun e => .refl
    | succ n ih =>
      intro e
      rw [reapRounds]
      split
      · exact .refl
      · have emptied : Changes P e { e with heap := e.heap.takeOrphans.2 } :=
          .single (.aside (.of_heap rfl))
        exact (emptied.trans (changes_teardowns _ _)).trans (ih _)
  exact rounds _ e

end Engine

end FiberVM

/-! ## Operands -/

namespace FiberVM.Operand

open Engine

variable {P : Permit} {id : FiberId} {r : Ref} {v : Value} {α : Type} {fault : Fault}

lemma makes_push (id : FiberId) (r : Ref) : Makes P (push id r) :=
  Triple.bind (does_fiber id) fun x => makes_alter (.push x _)

lemma makes_pushValue (id : FiberId) (v : Value) : Makes P (pushValue id v) :=
  (makes_onHeap (Heap.tame_allocTemporary v)).bind fun r =>
    (makes_push id r).onFault (aside_release r)

lemma makes_pushValues (id : FiberId) (vs : List Value) : Makes P (pushValues id vs) := by
  induction vs with
  | nil => exact makes_pure ()
  | cons v rest ih => exact (makes_pushValue id v).bind fun _ => ih

lemma makes_pushRetained (id : FiberId) (r : Ref) : Makes P (pushRetained id r) :=
  (makes_onHeap (Heap.tame_retain r)).bind fun _ => makes_push id r

/-- What is popped belongs to a fiber that exists. -/
lemma does_pop (id : FiberId) :
    Does P (fun _ => True) (pop id) fun _ e => (e.fiber? id).isSome := by
  refine Triple.bind (does_fiber id) fun x => ?_
  split
  case h_1 top => exact Triple.bind (does_alter (.pop top)) fun _ => .pure fun _ there => there
  case h_2 => exact makes_throw rfl

lemma makes_pop (id : FiberId) : Makes P (pop id) := .of_does (does_pop id)

lemma does_popAs (id : FiberId) (view : Value → Option α) (tame : fault.isAstray = false) :
    Does P (fun _ => True) (popAs id view fault) fun _ e => (e.fiber? id).isSome := by
  refine (does_pop id).bind fun r => ?_
  refine ensures_aside (T := fun _ e => (e.fiber? id).isSome) ?_ (aside_release r) fun _ _ there =>
    there
  refine (does_onHeap (Heap.tame_read r) fun _ _ there => there).bind fun v => ?_
  exact (does_orFault tame).post fun _ _ looked => looked.1

lemma makes_popAs (id : FiberId) (view : Value → Option α) (tame : fault.isAstray = false) :
    Makes P (popAs id view fault) :=
  .of_does (does_popAs id view tame)

lemma makes_popValue (id : FiberId) : Makes P (popValue id) :=
  (makes_pop id).bind fun r => (makes_onHeap (Heap.tame_copy r)).ensure (aside_release r)

lemma makes_popArguments (id : FiberId) : Makes P (popArguments id) := by
  refine (makes_popValue id).bind fun v => ?_
  split
  case h_1 => exact makes_pure _
  case h_2 => exact makes_pure _
  case h_3 => exact (makes_aside (aside_releaseValue _)).bind fun _ => makes_throw rfl

lemma makes_openList (id : FiberId) : Makes P (openList id) :=
  Triple.bind (does_fiber id) fun x => makes_alter (.push x _)

lemma makes_closeList (closes : P.closes id) : Makes P (closeList id) := by
  refine Triple.bind (does_fiber id) fun x => ?_
  split
  case h_1 => exact makes_throw rfl
  case h_2 below _ =>
    have alters : Alters P id x { x with stack := below } :=
      ⟨rfl, rfl, rfl, .inl rfl, .inr closes, fun _ => .inl rfl⟩
    exact Triple.bind (makes_alter alters) fun _ => makes_pushValue id _

lemma makes_getVariable (id : FiberId) (owner : Owner) : Makes P (getVariable id owner) := by
  refine (makes_popAs id _ rfl).bind fun key => makes_get.bind fun e => ?_
  exact Makes.bind (.of_does (does_orFault rfl)) fun r => makes_pushRetained id r

/-- A global variable that did not exist is declared, if there is room for it. -/
lemma names_declare {h : Heap} {h' name} (new : h.lookup? .global (.name name) = none)
    (same : h.SameVariables h') (v : Value) :
    Outcome Heap.Names (fun fault => fault.isAstray = false) (fun _ _ => True) (fun _ => True) h
      ((do let _ ← Heap.declare .global name v : HeapM Unit) h') := by
  rcases h'.declare_cases .global name v with ⟨r, h'', declared, more⟩ | ⟨h'', full, same'⟩
  · rw [bind_of_ok declared]
    exact ⟨.inr ⟨name, r, new, more.after_same same⟩, trivial⟩
  · rw [bind_of_error full]
    exact ⟨.inl (IsTrans.trans _ _ _ same same'), rfl, trivial⟩

/-- A variable is assigned, which may declare a global one that did not exist. -/
lemma names_assign (owner : Owner) (key value : Ref) (h : Heap) :
    Outcome Heap.Names (fun fault => fault.isAstray = false) (fun _ _ => True) (fun _ => True) h
      (assign owner key value h) := by
  have read := Heap.tame_read key h trivial
  unfold assign
  cases seen : Heap.read key h with
  | error fault h₁ =>
    rw [seen] at read
    rw [bind_of_error seen]
    exact ⟨.inl read.1, read.2⟩
  | ok k h₁ =>
    rw [seen] at read
    rw [bind_of_ok seen]
    cases keyed : k.toKey? with
    | none => exact ⟨.inl read.1, rfl, trivial⟩
    | some varKey =>
      have copied := Heap.tame_copy value h₁ trivial
      simp only
      rw [bind_of_ok (rfl : (get : HeapM Heap) h₁ = .ok h₁ h₁)]
      cases taken : Heap.copy value h₁ with
      | error fault h₂ =>
        rw [taken] at copied
        rw [bind_of_error taken]
        exact ⟨.inl (IsTrans.trans _ _ _ read.1 copied.1), copied.2⟩
      | ok copy h₂ =>
        rw [taken] at copied
        rw [bind_of_ok taken]
        have same := IsTrans.trans _ _ _ read.1 copied.1
        have refused : Outcome Heap.Names (fun fault => fault.isAstray = false) (fun _ _ => True)
          (fun _ => True) h
            ((do modify (·.releaseValue copy); throw .unknownVariable : HeapM Unit) h₂) :=
          ⟨.inl (IsTrans.trans _ _ _ same (h₂.same_releaseValue copy)), rfl, trivial⟩
        cases target : h₁.lookup? owner varKey with
        | some r => exact ((Heap.tame_store r copy h₂ trivial).trans same).relax fun _ => .inl
        | none =>
          cases owner with
          | global =>
            cases k with
            | string name =>
              cases keyed
              rw [read.1.lookup?] at target
              exact names_declare target same copy
            | _ => exact refused
          | _ => exact refused

/-- An assignment makes changes. -/
lemma makes_assign (owner : Owner) (key value : Ref) :
    Makes P (EngineM.onHeap (assign owner key value)) := by
  intro e _
  have assigned := names_assign owner key value e.heap
  have names : ∀ heap, e.heap.Names heap → Changes P e { e with heap } := by
    rintro heap (same | ⟨name, r, new, declared⟩)
    · exact (Alike.of_heap same).changes
    · exact .single (.declare new declared)
  unfold EngineM.onHeap
  cases run : assign owner key value e.heap with
  | ok x heap =>
    rw [run] at assigned
    exact ⟨names heap assigned.1, trivial⟩
  | error fault heap =>
    rw [run] at assigned
    exact ⟨names heap assigned.1, assigned.2⟩

lemma makes_setVariable (id : FiberId) (owner : Owner) : Makes P (setVariable id owner) := by
  refine (makes_pop id).bind fun key => ((makes_pop id).onFault (aside_release key)).bind
    fun value => ?_
  exact (makes_assign owner key value).ensure ((aside_release key).comp (aside_release value))

/-- An operation on two values. -/
def IsBinary (op : Opcode) : Prop := op = .add ∨ op = .sub ∨ op = .mul ∨ op = .div ∨ op = .mod

/-- Arithmetic on integers does not go astray. -/
lemma tame_intResult {op} (binary : IsBinary op) (a b : Int64) :
    TameResult (intResult op a b) := by
  rcases binary with rfl | rfl | rfl | rfl | rfl
  · exact .ok _
  · exact .ok _
  · exact .ok _
  all_goals
    unfold intResult
    dsimp only
    split
    · exact .error rfl
    · exact .ok _

lemma tame_realResult {op} (binary : IsBinary op) (a b : Binary64) :
    TameResult (realResult op a b) := by
  rcases binary with rfl | rfl | rfl | rfl | rfl <;> exact .ok _

/-- Neither do operators. -/
lemma tame_binary {op} (binary : IsBinary op) (a b : Value) :
    TameResult (Operand.binary op a b) := by
  unfold Operand.binary
  split
  case h_1 => exact (tame_intResult binary _ _).bind fun _ => .ok _
  case h_2 => exact .ok _
  case h_3 =>
    split
    · exact (tame_realResult binary _ _).bind fun _ => .ok _
    · exact .error rfl

lemma tame_negated (v : Value) : TameResult (negated v) := by
  unfold negated
  split
  · exact .ok _
  · exact .ok _
  · exact .error rfl

private lemma makes_pushResult (id : FiberId) {result} (tame : TameResult result) :
    Makes P (match result with
      | .ok v => pushValue id v
      | .error fault => throw fault) := by
  cases result with
  | ok v => exact makes_pushValue id v
  | error fault => exact makes_throw (tame fault rfl)

lemma makes_applyBinary (id : FiberId) {op} (binary : IsBinary op) :
    Makes P (applyBinary id op) := by
  refine (makes_popValue id).bind fun b => ((makes_popValue id).onFault (aside_releaseValue b)).bind
    fun a => ?_
  have given := (aside_releaseValue a).comp (aside_releaseValue b)
  exact (makes_aside given).bind fun _ => makes_pushResult id (tame_binary binary a b)

lemma makes_applyNegation (id : FiberId) : Makes P (applyNegation id) := by
  refine (makes_popValue id).bind fun v => ?_
  exact (makes_aside (aside_releaseValue v)).bind fun _ => makes_pushResult id (tame_negated v)

lemma makes_test (id : FiberId) {op : Opcode} (conditional : op.isConditional) :
    Makes P (test id op) := by
  refine (makes_popAs id _ rfl).bind fun x => ?_
  cases op with
  | ifEqual => exact (makes_popAs id _ rfl).bind fun y => makes_pure _
  | ifZero | ifNonzero | ifNegative | ifPositive | ifAtMostZero | ifAtLeastZero =>
    exact makes_pure _
  | _ => cases conditional

end FiberVM.Operand

/-! ## Names -/

namespace FiberVM.Lookup

open Engine

variable {P : Permit}

lemma aside_discard (t : Target) : Aside (discard t) := by
  intro e
  unfold discard
  split
  · exact aside_release _ e
  · exact .refl e

lemma aside_leave (receiver : Receiver) : Aside (leave receiver) := by
  intro e
  unfold leave
  split
  · exact aside_release _ e
  · exact .refl e

lemma makes_retained (r : Ref) : Makes P (retained r) :=
  (makes_onHeap (Heap.tame_retain r)).bind fun _ => makes_pure _

lemma makes_receiverOf (t : Target) : Makes P (receiverOf t) := by
  intro e _
  cases t with
  | library name => exact ⟨.refl, trivial⟩
  | function f receiver => exact ⟨(aside_discard _).changes e, trivial⟩
  | value r =>
    have released : Changes P e (e.release r) := (aside_release r).changes e
    unfold receiverOf
    dsimp only
    split
    case h_3 cell _ => split <;> exact ⟨released, trivial⟩
    case h_5 => exact ⟨.refl, trivial⟩
    all_goals exact ⟨released, trivial⟩

lemma makes_searchFirst (caller : FiberId) (segment : String) :
    Makes P (searchFirst caller segment) := by
  refine makes_get.bind fun e => ?_
  split
  case h_1 cell _ => exact makes_retained cell
  case h_2 =>
    refine Makes.bind (.of_does (does_fiber caller)) fun f => makes_get.bind fun e => ?_
    split
    · exact makes_retained _
    · exact makes_pure _

lemma makes_searchReceiver (receiver : Receiver) (segment : String) :
    Makes P (searchReceiver receiver segment) := by
  cases receiver with
  | fiber id =>
    refine makes_get.bind fun e => ?_
    split
    · exact makes_retained _
    · exact makes_pure _
  | library name => exact makes_get.bind fun e => makes_pure _
  | cell r =>
    refine (makes_onHeap (Heap.tame_read r)).bind fun v => makes_get.bind fun e => ?_
    split
    · exact (makes_onHeap (Heap.tame_retain r)).bind fun _ => makes_pure _
    · exact makes_pure _

lemma makes_searchEverywhere (segment : String) : Makes P (searchEverywhere segment) := by
  refine makes_get.bind fun e => ?_
  split
  · exact makes_retained _
  · refine makes_get.bind fun e => ?_
    split
    · exact makes_pure _
    · exact makes_get.bind fun e => makes_pure _

/-- What is looked up first is tried first. -/
private lemma makes_orElse {first second : EngineM (Option Target)} (makes : Makes P first)
    (makes' : Makes P second) :
    Makes P (do
      match ← first with
      | some t => return some t
      | none => second) := by
  refine makes.bind fun t => ?_
  split
  · exact makes_pure _
  · exact makes'

lemma makes_search (caller : FiberId) (receiver : Receiver) (segment : String) (first : Bool) :
    Makes P (search caller receiver segment first) := by
  have rest := makes_orElse (P := P) (makes_searchReceiver receiver segment)
    (makes_searchEverywhere segment)
  unfold search
  cases first with
  | true => exact makes_orElse (makes_searchFirst caller segment) rest
  | false => exact makes_orElse (makes_pure none) rest

lemma makes_find (caller : FiberId) (name : String) (receiver : Receiver) (segment : String)
    (first : Bool) :
    Makes P (find caller name receiver segment first) :=
  ((makes_search caller receiver segment first).ensure (aside_leave receiver)).bind fun _ =>
    Makes.of_does (does_orFault rfl)

lemma makes_follow (caller : FiberId) (name : String) (t : Target) (segments : List String) :
    Makes P (follow caller name t segments) := by
  induction segments generalizing t with
  | nil => exact makes_pure _
  | cons segment rest ih =>
    refine (makes_receiverOf t).bind fun receiver => Makes.bind (.of_does (does_orFault rfl))
      fun receiver => ?_
    exact (makes_find caller name receiver segment false).bind fun t => ih t

lemma makes_resolve {caller} (looks : P.looks caller) (name : String) (receiver : Option Ref) :
    Makes P (resolve caller name receiver) := by
  have counted : Makes P (modify fun e => { e with searches := e.searches + 1 }) :=
    .modify fun _ _ => ⟨.single (.look looks), trivial⟩
  refine counted.bind fun _ => ?_
  split
  case h_1 => exact makes_follow caller name _ _
  case h_2 => exact makes_throw rfl
  case h_3 => exact (makes_find caller name _ _ true).bind fun t => makes_follow caller name t _

/-- What is forgotten or noted of one name leaves the others alone. -/
private lemma alters_cache {caller index} (notes : P.notes caller index) (f : Fiber)
    {cache : Table Nat Target} (others : ∀ i, i ≠ index → cache.find? i = f.cache.find? i) :
    Alters P caller f { f with cache } := by
  refine .of_stack rfl rfl rfl (.inl rfl) rfl fun i => ?_
  by_cases same : i = index
  · exact .inr (same ▸ notes)
  · exact .inl (others i same)

lemma alters_erase {caller index} (notes : P.notes caller index) (f : Fiber) :
    Alters P caller f { f with cache := f.cache.erase index } :=
  alters_cache notes f fun i other => by rw [Table.find?_erase, if_neg other]

lemma alters_insert {caller index} (notes : P.notes caller index) (f : Fiber) (t : Target) :
    Alters P caller f { f with cache := f.cache.insert index t } :=
  alters_cache notes f fun i other => by rw [Table.find?_insert, if_neg other]

/-- What is remembered is looked at, or forgotten. -/
lemma makes_known {caller index} (notes : P.notes caller index) :
    Makes P (known caller index) := by
  intro e _
  unfold known
  cases found : e.fiber? caller with
  | none => exact ⟨.refl, trivial⟩
  | some f =>
    have forgotten : Changes P e (e.setFiber caller { f with cache := f.cache.erase index }) :=
      .single (.alter found (alters_erase notes f))
    dsimp only
    split
    · exact ⟨.refl, trivial⟩
    · split
      · exact ⟨.refl, trivial⟩
      case h_2 r _ =>
        split
        case h_1 taken => exact ⟨(Alike.of_heap (Heap.same_retain? taken)).changes, trivial⟩
        case h_2 => exact ⟨forgotten.trans ((aside_releaseWeak r).changes _), trivial⟩

/-- A target takes the place of another one in the cache. -/
private lemma makes_renew {caller index} (notes : P.notes caller index) (t : Target) :
    Makes P (do
      let f ← EngineM.fiber caller
      modify (·.setFiber caller { f with cache := f.cache.insert index t })
      match (f.cache.find? index).bind Target.ref? with
      | some r => modify (·.mapHeap (·.releaseWeak r))
      | none => pure ()) := by
  refine Triple.bind (does_fiber caller) fun f => ?_
  refine Triple.bind (makes_alter (alters_insert notes f t)) fun _ => ?_
  split
  · exact makes_aside (aside_releaseWeak _)
  · exact makes_pure _

lemma makes_remember {caller : FiberId} {index : Nat} (notes : P.notes caller index) (t : Target) :
    Makes P (remember caller index t) := by
  unfold remember
  cases t.ref? with
  | some r => exact (makes_onHeap (Heap.tame_downgrade r)).bind fun _ => makes_renew notes t
  | none => exact makes_renew notes t

lemma makes_resolveCached {caller index} (looks : P.looks caller) (notes : P.notes caller index)
    (image : Image) :
    Makes P (resolveCached caller image index) := by
  refine (makes_known notes).bind fun t => ?_
  split
  · exact makes_pure _
  · refine Makes.bind (.of_does (does_orFault rfl)) fun name => ?_
    refine (makes_resolve looks name none).bind fun t => ?_
    exact (makes_remember notes t).bind fun _ => makes_pure _

end FiberVM.Lookup
