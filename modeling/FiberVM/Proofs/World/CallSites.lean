import FiberVM.Proofs.Engine.Recollection
import FiberVM.Proofs.World.Limits

/-!
# Call sites

In the course of time a fiber remembers what a name denotes until a call by that name finds it
dropped. So a call site resolves once (`World.call_sites_resolve_once`), and the number of searches
is the number of the instructions that look a name up (`World.Counts`).

What is remembered can be read: runs have the images of their fibers (`World.Portrayed`), and a
fiber remembers nothing but what its runs have called (`World.Versed`).
-/

namespace FiberVM

open Engine

variable {c : Conduct} {source : String → Option Image} {config : Config} {P : Permit}
  {w w' : World} {s : Session} {e e' : Engine} {a b : Activation} {op : Opcode} {callers : Callers}
  {p : Progress} {calls : List (HostCall × Session)} {H : Multiset Ref} {f : FiberId}
  {i n : Nat} {t : Target} {image : Image}

/-! ## Runs and their images -/

/-- The fiber of a run was made, and has the image of the run as long as it exists. -/
def Activation.Depicts (a : Activation) (e : Engine) : Prop :=
  a.fiber.id < e.fibers.next ∧ ∀ y, e.fiber? a.fiber = some y → y.image = a.image

lemma Activation.Depicts.recalls {N : FiberId → Nat → Prop} (depicts : a.Depicts e)
    (recalls : Recalls N n e e') : a.Depicts e' := by
  refine ⟨depicts.1.trans_le recalls.next, fun y found => ?_⟩
  rcases recalls.fiber a.fiber y found with ⟨z, before, image, -⟩ | ⟨new, -⟩
  · exact image.trans (depicts.2 z before)
  · exact absurd depicts.1 (Nat.not_lt_of_le new)

lemma Activation.Portrays.depicts (own : a.Portrays e) : a.Depicts e := by
  obtain ⟨y, found, image⟩ := own
  refine ⟨lt_next_of_isSome (found ▸ rfl), fun z there => ?_⟩
  cases found.symm.trans there
  exact image

/-- The run on top of a session at work, and what is below it. -/
def Progress.top? : Progress → Option (Activation × Callers)
  | running (.run s) => some (s.current, s.callers)
  | _ => none

/-- Where there is a run on top, the engine is at work on it. -/
lemma Progress.eq_of_top? (top : p.top? = some (a, callers)) :
    p = .running (.run ⟨p.engine, a, callers⟩) := by
  cases p with
  | running t =>
    cases t with
    | run s =>
      cases top
      rfl
    | fire => cases top
  | _ => cases top

namespace Session

/-- A run after a step is the one on top, one that has waited, or one that begins. -/
lemma Goes.mem_activations (goes : Goes P a op callers e p) (inside : b ∈ p.activations) :
    (b.fiber = a.fiber ∧ b.image = a.image) ∨ b ∈ callers.activations ∨ b.Depicts p.engine := by
  have launcher : ∀ cell, b ∈ (Callers.nested cell a callers).activations →
      (b.fiber = a.fiber ∧ b.image = a.image) ∨ b ∈ callers.activations ∨ b.Depicts p.engine := by
    intro cell inside
    rcases List.mem_cons.1 inside with rfl | inside
    · exact .inl ⟨rfl, rfl⟩
    · exact .inr (.inl inside)
  cases goes with
  | on goesOn changes =>
    rcases List.mem_cons.1 inside with rfl | inside
    · exact .inl ⟨goesOn.fiber, goesOn.image⟩
    · exact .inr (.inl inside)
  | @launch b cell start e' fresh endowed room width changes own =>
    rcases List.mem_cons.1 inside with rfl | inside
    · exact .inr (.inr own.depicts)
    · exact launcher cell inside
  | back width unwinds => exact launcher _ (unwinds.activations.subset inside)
  | await width changes => exact launcher a.cell inside
  | unwind unwinds => exact .inr (.inl (unwinds.activations.subset inside))

end Session

namespace World

/-! ## Moves -/

/-- The next instruction looks a name up. -/
def Searches : World → Prop
  | work (.run s) _ _ => s.Searches
  | _ => False

/-- The next instruction renews what a fiber remembers of the name with an index. -/
def Renews (f : FiberId) (i : Nat) : World → Prop
  | work (.run s) _ _ => s.Renews f i
  | _ => False

/-- What looks a name up counts as one search, and touches nothing that is remembered of other
names. -/
lemma Move.recalls_of_searches (move : Move c w w') (searches : w.Searches) :
    Recalls (w.Renews · ·) 1 w.engine w'.engine := by
  cases move with
  | step t =>
    cases t with
    | run s =>
      rw [engine_after]
      exact Session.Searches.recalls searches
    | fire => exact searches.elim
  | _ => exact searches.elim

/-- Whatever else happens touches nothing that is remembered, unless it is renewed. -/
lemma Move.recalls (move : Move c w w') (idle : ¬ w.Searches) :
    Recalls (w.Renews · ·) 0 w.engine w'.engine := by
  have other : (∀ f, ¬ w.permit.looks f) → (∀ f i, ¬ w.permit.notes f i) →
      Recalls (w.Renews · ·) 0 w.engine w'.engine := by
    intro blind mute
    rcases move.advances with advances | registers
    · exact (advances.recalls blind).mono fun f i noted => absurd noted (mute f i)
    · obtain ⟨catalog, same⟩ := registers.eq
      rw [same]
      exact .of_fibers rfl rfl
  cases move with
  | step t =>
    cases t with
    | run s =>
      rw [engine_after]
      exact Session.recalls_step idle
    | fire => exact other (fun _ => id) fun _ _ => id
  | _ => exact other (fun _ => id) fun _ _ => id

/-- Either way. -/
lemma Move.recalls_some (move : Move c w w') :
    ∃ n, Recalls (w.Renews · ·) n w.engine w'.engine := by
  by_cases searches : w.Searches
  · exact ⟨1, move.recalls_of_searches searches⟩
  · exact ⟨0, move.recalls searches⟩

/-- Runs have the images of their fibers. -/
def Portrayed (w : World) : Prop := ∀ a ∈ w.activations, a.Depicts w.engine

/-- Runs keep the images of their fibers. -/
lemma Move.portrayed (move : Move c w w') (portrayed : w.Portrayed) : w'.Portrayed := by
  obtain ⟨n, recalls⟩ := move.recalls_some
  have kept : ∀ a ∈ w.activations, a.Depicts w'.engine := fun a inside =>
    (portrayed a inside).recalls recalls
  intro a inside
  rcases move.mem_activations inside with there | begun | ⟨s, calls, H, rfl, own, stepped⟩
  · exact kept a there
  · obtain ⟨_, _, _, _, _, begun⟩ := begun
    exact (Activation.portrays_of_begin begun).depicts
  · cases fetched : s.current.fetch with
    | error fault =>
      have unwinds := Session.unwinds_step (P := .nothing) fetched
      have below := unwinds.activations.subset own
      exact kept a (List.mem_append_left _ (List.mem_cons_of_mem _ below))
    | ok instruction =>
      obtain ⟨op, inline, budget⟩ := instruction
      have goes := Session.goes_step fetched (Activation.permitted_anything _ op _)
      rcases goes.mem_activations own with ⟨fiber, image⟩ | waiting | begun
      · have own := kept _ (List.mem_append_left _ List.mem_cons_self)
        rw [Activation.Depicts, fiber, image]
        exact own
      · exact kept a (List.mem_append_left _ (List.mem_cons_of_mem _ waiting))
      · exact stepped ▸ begun

lemma Reachable.portrayed (reached : Reachable c source config w) : w.Portrayed := by
  induction reached with
  | refl => exact List.forall_mem_nil _
  | tail _ move ih => exact move.portrayed ih

/-! ## Calls -/

/-- The next instruction is a run's call by the name with an index, and has taken its arguments. The
engine is given as it is then. -/
inductive Calls : World → FiberId → Image → Nat → Engine → Prop
  | intro {s : Session} {calls H i e} (called : s.Calls i e) :
      Calls (work (.run s) calls H) s.current.fiber s.current.image i e

lemma Calls.fetched (called : (work (.run s) calls H).Calls f image i e) :
    ∃ budget, s.current.fetch = .ok (.call, i, budget) := by
  cases called with
  | intro called =>
    cases called with
    | intro fetched => exact ⟨_, fetched⟩

/-- What is renewed is called. -/
lemma Renews.called (renews : w.Renews f i) :
    ∃ image e, w.Calls f image i e ∧ ∀ t, ¬ e.Knows f i t := by
  cases w with
  | host => exact renews.elim
  | work turn calls H =>
    cases turn with
    | fire => exact renews.elim
    | run s =>
      obtain ⟨rfl, e, called, unknown⟩ := renews
      exact ⟨_, e, .intro called, unknown⟩

/-- The fiber of a call exists, and has the image of the run. -/
lemma Calls.portrayed (called : w.Calls f image i e) (portrayed : w.Portrayed) :
    ∃ x, w.engine.fiber? f = some x ∧ x.image = image := by
  cases called with
  | @intro s calls H _ _ called =>
    have own := portrayed s.current List.mem_cons_self
    obtain ⟨recalls, -, there⟩ := called.popped
    obtain ⟨y, found⟩ := Option.isSome_iff_exists.1 there
    rcases recalls.fiber _ y found with ⟨x, before, -, -⟩ | ⟨new, -⟩
    · exact ⟨x, before, own.2 x before⟩
    · exact absurd own.1 (Nat.not_lt_of_le new)

/-- A fiber that calls remembers what it remembered before it has taken its arguments. -/
lemma Calls.memo? (called : w.Calls f image i e) (portrayed : w.Portrayed) :
    e.memo? f i = w.engine.memo? f i := by
  obtain ⟨x, found, -⟩ := called.portrayed portrayed
  cases called with
  | intro called =>
    obtain ⟨recalls, -, there⟩ := called.popped
    exact recalls.memo? there (lt_next_of_isSome (found ▸ rfl)) id

/-- The next instruction is a fiber's call that does not know its target, looks its name up and
remembers what that denotes. The engine is given as it is before the name is looked up. -/
inductive Stores (w : World) (f : FiberId) (i : Nat) (name : String) (e₁ : Engine) (t : Target) :
    Prop
  | intro {image : Image} {e e₂ e₃ : Engine} (called : w.Calls f image i e)
      (unknown : ∀ t, ¬ e.Knows f i t)
      (readable : image.string? i = some name) (forgotten : Lookup.known f i e = .ok none e₁)
      (resolved : Lookup.resolve f name none e₁ = .ok t e₂) (remembered : Lookup.remember f i t e₂ =
        .ok () e₃)

/-- After a call that does not know its target only that is remembered which it has found. -/
lemma Calls.stores (called : w.Calls f image i e) (unknown : ∀ t, ¬ e.Knows f i t)
    (move : Move c w w') (remembered : w'.engine.memo? f i = some t) :
    ∃ name e₁, image.string? i = some name ∧ w.Stores f i name e₁ t := by
  have call := called
  cases called with
  | @intro s calls H _ _ called =>
    cases move with
    | step =>
      rw [engine_after] at remembered
      have before := called.retains.memo?_eq_some remembered id
      cases readable : s.current.image.string? i with
      | none =>
        obtain ⟨e', failed, nothing, -⟩ := Lookup.resolveCached_of_unreadable unknown readable
        rw [failed] at before
        cases nothing.symm.trans before
      | some name =>
        obtain ⟨-, found⟩ := Lookup.recalls_resolveCached unknown readable
        obtain ⟨e₁, e₂, e₃, forgotten, resolved, remembered, -⟩ := found t before
        exact ⟨name, e₁, rfl, .intro call unknown readable forgotten resolved remembered⟩

/-- A name that is looked up can be read in the image of the fiber. -/
lemma Stores.readable {name} (stores : w.Stores f i name e t) (portrayed : w.Portrayed) :
    ∃ x, w.engine.fiber? f = some x ∧ x.image.string? i = some name := by
  cases stores with
  | intro called _ readable =>
    obtain ⟨x, found, rfl⟩ := called.portrayed portrayed
    exact ⟨x, found, readable⟩

/-- A fiber that is made remembers nothing. -/
lemma Renews.issued (renews : w.Renews f i) (portrayed : w.Portrayed) :
    f.id < w.engine.fibers.next := by
  obtain ⟨image, e, called, -⟩ := renews.called
  obtain ⟨x, found, -⟩ := called.portrayed portrayed
  exact lt_next_of_isSome (found ▸ rfl)

/-- What a fiber remembers has a name that can be read in the image of the fiber. -/
def Versed (w : World) : Prop :=
  ∀ f x i t, w.engine.fiber? f = some x → x.cache.find? i = some t → (x.image.string? i).isSome

/-- Fibers keep to what they have called. -/
lemma Move.versed (move : Move c w w') (portrayed : w.Portrayed) (versed : w.Versed) :
    w'.Versed := by
  obtain ⟨n, recalls⟩ := move.recalls_some
  intro f y i t found remembered
  rcases recalls.fiber f y found with ⟨x, before, image, kept⟩ | ⟨new, blank⟩
  · rw [image]
    rcases kept i with same | renews
    · exact versed f x i t before (same ▸ remembered)
    · have entry : w'.engine.memo? f i = some t := by
        rw [Engine.memo?, found]
        exact remembered
      obtain ⟨own, e, called, unknown⟩ := Renews.called renews
      obtain ⟨name, e₁, readable, -⟩ := called.stores unknown move entry
      obtain ⟨z, there, rfl⟩ := called.portrayed portrayed
      cases there.symm.trans before
      rw [readable]
      rfl
  · rcases blank i with nothing | renews
    · cases nothing.symm.trans remembered
    · exact absurd (Renews.issued renews portrayed) (Nat.not_lt_of_le new)

lemma Reachable.versed (reached : Reachable c source config w) : w.Versed := by
  induction reached with
  | refl =>
    intro f x i t found
    cases (Arena.get?_empty f.id).symm.trans found
  | tail before move ih => exact move.versed (Reachable.portrayed before) ih

/-! ## What is remembered in the course of time -/

/-- A fiber remembers a target as long as it exists. -/
def Remembers (w : World) (f : FiberId) (i : Nat) (t : Target) : Prop :=
  f.id < w.engine.fibers.next ∧ ((w.engine.fiber? f).isSome → w.engine.memo? f i = some t)

/-- The next instruction is a fiber's call, and finds a target dropped. -/
def Stale (w : World) (f : FiberId) (i : Nat) (t : Target) : Prop :=
  ∃ image e, w.Calls f image i e ∧ ¬ t.Lives e.heap

/-- A fiber that exists later on existed before. -/
lemma isSome_of_recalls {N : FiberId → Nat → Prop} (recalls : Recalls N n e e')
    (issued : f.id < e.fibers.next) (there : (e'.fiber? f).isSome) : (e.fiber? f).isSome := by
  obtain ⟨y, found⟩ := Option.isSome_iff_exists.1 there
  rcases recalls.fiber f y found with ⟨x, before, -⟩ | ⟨new, -⟩
  · rw [before]
    rfl
  · exact absurd issued (Nat.not_lt_of_le new)

/-- What a call has come by is remembered. -/
lemma Calls.remembers (called : w.Calls f image i e) (portrayed : w.Portrayed)
    (resolved : Lookup.resolveCached f image i e = .ok t e') (move : Move c w w') :
    w'.Remembers f i t := by
  obtain ⟨x, found, -⟩ := called.portrayed portrayed
  obtain ⟨n, recalls⟩ := move.recalls_some
  refine ⟨(lt_next_of_isSome (found ▸ rfl)).trans_le recalls.next, fun there => ?_⟩
  cases called with
  | intro called =>
    cases move with
    | step =>
      have entry := Lookup.memo?_of_resolveCached resolved
      have rest := called.retains
      rw [resolved] at rest
      obtain ⟨y, found', -⟩ := Option.bind_eq_some_iff.1 entry
      rw [engine_after] at there ⊢
      rw [← entry]
      exact rest.memo? there (lt_next_of_isSome (found' ▸ rfl)) id

/-- What is remembered stays so until a call finds it dropped. -/
lemma Move.remembers (move : Move c w w') (portrayed : w.Portrayed) (fresh : ¬ w.Stale f i t)
    (remembers : w.Remembers f i t) : w'.Remembers f i t := by
  obtain ⟨issued, remembered⟩ := remembers
  obtain ⟨n, recalls⟩ := move.recalls_some
  refine ⟨issued.trans_le recalls.next, fun there => ?_⟩
  have before := remembered (isSome_of_recalls recalls issued there)
  rw [← before]
  -- Only a call that does not know its target renews it, and this one would have found it dropped.
  refine recalls.memo? there issued fun renews => ?_
  obtain ⟨image, e, called, unknown⟩ := Renews.called renews
  refine fresh ⟨image, e, called, fun lives => unknown t ⟨?_, lives⟩⟩
  rw [called.memo? portrayed, before]

/-- What happens until a call of a fiber finds a target dropped. -/
abbrev Until (c : Conduct) (f : FiberId) (i : Nat) (t : Target) : World → World → Prop :=
  Relation.ReflTransGen fun v v' => Move c v v' ∧ ¬ v.Stale f i t

lemma Until.reaches (lasts : Until c f i t w w') : Reaches c w w' :=
  Relation.ReflTransGen.mono (fun _ _ move => move.1) _ _ lasts

lemma Until.remembers (lasts : Until c f i t w w') (reached : Reachable c source config w)
    (remembers : w.Remembers f i t) : w'.Remembers f i t := by
  induction lasts with
  | refl => exact remembers
  | tail before move ih =>
    have portrayed := Reachable.portrayed
      (Relation.ReflTransGen.trans reached (Until.reaches before))
    exact move.1.remembers portrayed move.2 ih

/-! ## Counts -/

/-- What happens while so many instructions look a name up. -/
inductive Counts (c : Conduct) (w : World) : Nat → World → Prop
  | start : Counts c w 0 w
  | idle {n v v'} (counts : Counts c w n v) (move : Move c v v') (idle : ¬ v.Searches) :
    Counts c w n v'
  | search {n v v'} (counts : Counts c w n v) (move : Move c v v') (searches : v.Searches) :
    Counts c w (n + 1) v'

lemma Counts.searches (counts : Counts c w n w') : w'.engine.searches = w.engine.searches + n := by
  induction counts with
  | start => rfl
  | idle _ move idle ih => rw [(move.recalls idle).searches, ih, Nat.add_zero]
  | search _ move searches ih =>
    rw [(move.recalls_of_searches searches).searches, ih, Nat.add_assoc]

lemma Reaches.counts (reached : Reaches c w w') : ∃ n, Counts c w n w' := by
  induction reached with
  | refl => exact ⟨0, .start⟩
  | @tail v v' _ move ih =>
    obtain ⟨n, counts⟩ := ih
    by_cases searches : v.Searches
    · exact ⟨n + 1, .search counts move searches⟩
    · exact ⟨n, .idle counts move searches⟩

/-! ## Calls that come again -/

/-- A call whose target is remembered and exists takes it as it is. -/
lemma Calls.again (called : w.Calls f image i e) (portrayed : w.Portrayed)
    (remembers : w.Remembers f i t) (lives : t.Lives e.heap) (move : Move c w w') :
    (∃ heap, Lookup.resolveCached f image i e = .ok t { e with heap }) ∧
      w'.engine.searches = w.engine.searches := by
  obtain ⟨x, found, -⟩ := called.portrayed portrayed
  have knows : e.Knows f i t := by
    refine ⟨?_, lives⟩
    rw [called.memo? portrayed]
    exact remembers.2 (found ▸ rfl)
  refine ⟨Lookup.resolveCached_of_knows image knows, ?_⟩
  cases called with
  | intro called =>
    cases move with
    | step =>
      rw [engine_after]
      exact (called.retains_of_knows knows).searches

/-- A call whose target was dropped forgets it and looks its name up. -/
lemma Calls.renewed (called : w.Calls f image i e) (portrayed : w.Portrayed) (versed : w.Versed)
    (remembers : w.Remembers f i t) (dropped : ¬ t.Lives e.heap) (move : Move c w w') :
    (∃ x r, e.fiber? f = some x ∧ t.ref? = some r ∧
      Lookup.known f i e =
        .ok none ((e.setFiber f { x with cache := x.cache.erase i }).mapHeap (·.releaseWeak r))) ∧
      w'.engine.searches = w.engine.searches + 1 := by
  obtain ⟨x, found, own⟩ := called.portrayed portrayed
  have memo : w.engine.memo? f i = some t := remembers.2 (found ▸ rfl)
  have memo' : e.memo? f i = some t := (called.memo? portrayed).trans memo
  refine ⟨?_, ?_⟩
  · obtain ⟨y, there, remembered⟩ := Option.bind_eq_some_iff.1 memo'
    obtain ⟨r, target, lost⟩ := Target.dropped dropped
    exact ⟨y, r, there, target, Lookup.known_of_dropped there remembered target lost⟩
  · rw [Engine.memo?, found] at memo
    have readable := versed f x i t found memo
    rw [own] at readable
    have searches : w.Searches := by
      cases called with
      | intro called => exact .call called (not_knows memo' dropped) readable
    exact (move.recalls_of_searches searches).searches

/-- Once a call has come by a target, every later call by the same name in the same fiber takes the
same target without a search, as long as it exists; a call that finds it dropped gives up the weak
reference to it and makes one search. In all, the searches are those of the instructions that look a
name up. -/
theorem call_sites_resolve_once {w₀ : World} (reached : Reachable c source config w₀) :
    (∀ f image i e t e' w₁ w, w₀.Calls f image i e → Lookup.resolveCached f image i e = .ok t e' →
      Move c w₀ w₁ → Until c f i t w₁ w → ∀ image' e₁ w', w.Calls f image' i e₁ → Move c w w' →
        (t.Lives e₁.heap → (∃ heap, Lookup.resolveCached f image' i e₁ = .ok t { e₁ with heap }) ∧
          w'.engine.searches = w.engine.searches) ∧
        (¬ t.Lives e₁.heap → (∃ x r, e₁.fiber? f = some x ∧ t.ref? = some r ∧
          Lookup.known f i e₁ =
            .ok none ((e₁.setFiber f { x with cache := x.cache.erase i }).mapHeap
              (·.releaseWeak r))) ∧
          w'.engine.searches = w.engine.searches + 1)) ∧
    (∀ w, Reaches c w₀ w → ∃ n, Counts c w₀ n w) ∧
    ∀ n w, Counts c w₀ n w → w.engine.searches = w₀.engine.searches + n := by
  refine ⟨?_, fun _ => Reaches.counts, fun _ _ => Counts.searches⟩
  intro f image i e t e' w₁ w called resolved first lasts image' e₁ w' again move
  have begun := called.remembers (Reachable.portrayed reached) resolved first
  have remembers := lasts.remembers (reached.tail first) begun
  have reached' : Reachable c source config w := (reached.tail first).trans lasts.reaches
  have portrayed := Reachable.portrayed reached'
  refine ⟨fun lives => again.again portrayed remembers lives move, fun dropped => ?_⟩
  exact again.renewed portrayed (Reachable.versed reached') remembers dropped move

/-- A machine that asks for a variable of its own, twice by the same name. -/
def readVariableTwice : Image where
  name := "readVariableTwice"
  words := #[.plain .paramsStart, .plain .paramsEnd, .plain .paramsStart, .plain .paramsEnd,
    .plain .call, .plain .pop, .plain .call, .plain .endState]
  states := [⟨0, 0⟩]
  locals := [⟨0, 1⟩]
  shared := []
  strings := ⟨#[110, 0, 105, 110, 116, 0], #[0, 2]⟩

/-- A fiber of that machine that is about to ask. -/
def beforeFirstRead : Session where
  engine :=
    (((Engine.create (fun _ => some readVariableTwice) {}).launch "readVariableTwice").run 4).engine
  current :=
    { fiber := ⟨0⟩
      machine := "readVariableTwice"
      image := readVariableTwice
      cell := ⟨0⟩
      continuation := none
      frame := []
      loops := []
      base := 0
      budget := none
      pc := 3
      next := 4 }
  callers := .launch ⟨0⟩ ⟨0⟩

/-- The fiber is about to drop the answer. -/
def afterFirstRead : Session where
  engine := beforeFirstRead.step.engine
  current := { beforeFirstRead.current with pc := 4, next := 5 }
  callers := .launch ⟨0⟩ ⟨0⟩

/-- The fiber is about to ask again. -/
def beforeSecondRead : Session where
  engine := afterFirstRead.step.engine
  current := { beforeFirstRead.current with pc := 5, next := 6 }
  callers := .launch ⟨0⟩ ⟨0⟩

private lemma top?_beforeFirstRead :
    (((Engine.create (fun _ => some readVariableTwice) {}).launch "readVariableTwice").run 4).top? =
    some (beforeFirstRead.current, beforeFirstRead.callers) := by
  decide +kernel

lemma reachable_beforeFirstRead :
    Reachable c (fun _ => some readVariableTwice) {} (work (.run beforeFirstRead) [] 0) := by
  have reached : Reachable c (fun _ => some readVariableTwice) {}
      (after [] 0 (((Engine.create (fun _ => some readVariableTwice) {}).launch
        "readVariableTwice").run 4)) :=
    Reaches.request .refl (.launch "readVariableTwice") 4
  rw [Progress.eq_of_top? top?_beforeFirstRead] at reached
  exact reached

lemma calls_beforeFirstRead :
    (work (.run beforeFirstRead) [] 0).Calls ⟨0⟩ readVariableTwice 0
      (leftBy (Operand.pop ⟨0⟩ beforeFirstRead.engine)) := by
  have fetched : beforeFirstRead.current.fetch = .ok (.call, 0, none) := by decide +kernel
  have popped : resultOf? (Operand.pop ⟨0⟩ beforeFirstRead.engine) = some ⟨3⟩ := by decide +kernel
  exact .intro (.intro fetched (by decide) (eq_ok_of_resultOf? popped))

private lemma calls_beforeSecondRead :
    (work (.run beforeSecondRead) [] 0).Calls ⟨0⟩ readVariableTwice 0
      (leftBy (Operand.pop ⟨0⟩ beforeSecondRead.engine)) := by
  have fetched : beforeSecondRead.current.fetch = .ok (.call, 0, none) := by decide +kernel
  have popped : resultOf? (Operand.pop ⟨0⟩ beforeSecondRead.engine) = some ⟨2⟩ := by decide +kernel
  exact .intro (.intro fetched (by decide) (eq_ok_of_resultOf? popped))

lemma move_afterFirstRead :
    Move c (work (.run beforeFirstRead) [] 0) (work (.run afterFirstRead) [] 0) := by
  have top : beforeFirstRead.step.top? = some (afterFirstRead.current, afterFirstRead.callers) := by
    decide +kernel
  have move : Move c (work (.run beforeFirstRead) [] 0) (after [] 0 beforeFirstRead.step) :=
    .step (.run beforeFirstRead)
  rw [Progress.eq_of_top? top] at move
  exact move

lemma move_beforeSecondRead :
    Move c (work (.run afterFirstRead) [] 0) (work (.run beforeSecondRead) [] 0) := by
  have top : afterFirstRead.step.top? =
      some (beforeSecondRead.current, beforeSecondRead.callers) := by decide +kernel
  have move : Move c (work (.run afterFirstRead) [] 0) (after [] 0 afterFirstRead.step) :=
    .step (.run afterFirstRead)
  rw [Progress.eq_of_top? top] at move
  exact move

lemma fresh_afterFirstRead (t : Target) : ¬ (work (.run afterFirstRead) [] 0).Stale ⟨0⟩ 0 t := by
  have fetched : afterFirstRead.current.fetch = .ok (.pop, 0, none) := by decide +kernel
  rintro ⟨image, e, called, -⟩
  obtain ⟨budget, fetched'⟩ := called.fetched
  cases fetched.symm.trans fetched'

private lemma until_beforeSecondRead (t : Target) :
    Until c ⟨0⟩ 0 t (work (.run afterFirstRead) [] 0) (work (.run beforeSecondRead) [] 0) := by
  exact .single ⟨move_beforeSecondRead, fresh_afterFirstRead t⟩

/-- The variable is found in the same cell, without another search. -/
theorem call_sites_resolve_once_beforeFirstRead :
    Reachable .owning (fun _ => some readVariableTwice) {} (work (.run beforeFirstRead) [] 0) ∧
      Until .owning ⟨0⟩ 0 (.value ⟨1⟩) (work (.run afterFirstRead) [] 0)
        (work (.run beforeSecondRead) [] 0) ∧
      (work (.run beforeSecondRead) [] 0).engine.searches = 1 ∧
      (∃ heap, Lookup.resolveCached ⟨0⟩ readVariableTwice 0
        (leftBy (Operand.pop ⟨0⟩ beforeSecondRead.engine)) =
        .ok (.value ⟨1⟩) { leftBy (Operand.pop ⟨0⟩ beforeSecondRead.engine) with heap }) ∧
      (after [] 0 (Turn.run beforeSecondRead).next).engine.searches = 1 := by
  have resolved : resultOf? (Lookup.resolveCached ⟨0⟩ readVariableTwice 0
    (leftBy (Operand.pop ⟨0⟩ beforeFirstRead.engine))) =
      some (.value ⟨1⟩) := by
    decide +kernel
  have searched : (work (.run beforeSecondRead) [] 0).engine.searches = 1 := by decide +kernel
  have alive : ((leftBy (Operand.pop ⟨0⟩ beforeSecondRead.engine)).heap.get? ⟨1⟩).isSome := by
    decide +kernel
  obtain ⟨once, -, -⟩ := call_sites_resolve_once (c := .owning) reachable_beforeFirstRead
  have lasts := until_beforeSecondRead (c := .owning) (.value ⟨1⟩)
  have again := once ⟨0⟩ readVariableTwice 0 _ _ _ _ _ calls_beforeFirstRead
    (eq_ok_of_resultOf? resolved) move_afterFirstRead lasts readVariableTwice _ _
    calls_beforeSecondRead (.step (.run beforeSecondRead))
  obtain ⟨same, searches⟩ := again.1 (Target.lives_value alive)
  exact ⟨reachable_beforeFirstRead, lasts, searched, same, searches.trans searched⟩

end World

end FiberVM
