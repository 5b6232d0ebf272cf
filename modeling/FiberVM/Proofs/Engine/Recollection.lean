import FiberVM.Proofs.Engine.Flight

/-!
# What fibers remember

A fiber remembers what a name denoted when it was called, by a weak reference. Nothing but a call by
that name touches what is remembered, and nothing but calls counts as a search (`Engine.Recalls`). A
call whose target is remembered and still exists takes it as it is
(`Lookup.resolveCached_of_knows`); otherwise what is remembered is forgotten and the name is looked
up once (`Lookup.recalls_resolveCached`).
-/

namespace FiberVM

/-- What a target refers to still has its value. -/
def Target.Lives (t : Target) (h : Heap) : Prop := ∀ r, t.ref? = some r → (h.get? r).isSome

lemma Target.lives_value {h : Heap} {r} (holds : (h.get? r).isSome) : (value r).Lives h := by
  rintro s ⟨⟩
  exact holds

lemma Target.dropped {t : Target} {h} (dead : ¬ t.Lives h) :
    ∃ r, t.ref? = some r ∧ h.get? r = none := by
  unfold Lives at dead
  push Not at dead
  obtain ⟨r, target, lost⟩ := dead
  exact ⟨r, target, Option.not_isSome_iff_eq_none.1 lost⟩

/-- The heap in which a target has one more reference, if it still exists. -/
def Target.hold? (t : Target) (h : Heap) : Option Heap :=
  match t.ref? with
  | some r => h.retain? r
  | none => some h

/-- A target that lives can be held. -/
lemma Target.Lives.hold? {t : Target} {h} (lives : t.Lives h) :
    ∃ heap, t.hold? h = some heap := by
  unfold Target.hold?
  cases target : t.ref? with
  | none => exact ⟨h, rfl⟩
  | some r =>
    obtain ⟨v, holds⟩ := Option.isSome_iff_exists.1 (lives r target)
    obtain ⟨c, cell, value⟩ := Heap.cell?_of_get? holds
    have taken : h.retain? r = some (h.setCell r { c with strong := c.strong + 1 }) := by
      simp [Heap.retain?, cell, value]
    exact ⟨_, taken⟩

namespace Engine

/-- The engine that an operation leaves behind. -/
def leftBy {α : Type} : EStateM.Result Fault Engine α → Engine
  | .ok _ e => e
  | .error _ e => e

/-- What an operation results in, if it succeeds. -/
def resultOf? {α : Type} : EStateM.Result Fault Engine α → Option α
  | .ok a _ => some a
  | .error _ _ => none

lemma eq_ok_of_resultOf? {α : Type} {result : EStateM.Result Fault Engine α} {a : α}
    (success : resultOf? result = some a) : result = .ok a (leftBy result) := by
  cases result with
  | ok b e =>
    cases success
    rfl
  | error => cases success

/-- A permit that allows everything but to look names up. -/
def Permit.blind : Permit :=
  ⟨fun _ _ => True, fun _ => True, fun _ => True, fun _ => False, fun _ _ => False⟩

/-- What a fiber remembers of the name with an index. -/
def memo? (e : Engine) (f : FiberId) (i : Nat) : Option Target :=
  (e.fiber? f).bind (·.cache.find? i)

/-- A fiber remembers a target that still exists. -/
def Knows (e : Engine) (f : FiberId) (i : Nat) (t : Target) : Prop :=
  e.memo? f i = some t ∧ t.Lives e.heap

/-- What happens to the memory of fibers. A number of names is looked up; fibers keep their images,
and what they remember but for some names; those that are new remember nothing else. -/
structure Recalls (N : FiberId → Nat → Prop) (n : Nat) (e e' : Engine) : Prop where
  searches : e'.searches = e.searches + n
  next : e.fibers.next ≤ e'.fibers.next
  fiber : ∀ f y, e'.fiber? f = some y →
    (∃ x, e.fiber? f = some x ∧ y.image = x.image ∧ ∀ i, y.cache.find? i = x.cache.find? i ∨
      N f i) ∨ e.fibers.next ≤ f.id ∧ ∀ i, y.cache.find? i = none ∨ N f i

/-- Nothing is looked up, and nothing is forgotten. -/
abbrev Retains : Engine → Engine → Prop := Recalls (fun _ _ => False) 0

variable {P : Permit} {N : FiberId → Nat → Prop} {n m : Nat} {e e' e'' : Engine} {f : FiberId}
  {i : Nat} {t : Target}

namespace Recalls

lemma of_fibers (fibers : e'.fibers = e.fibers) (searches : e'.searches = e.searches + n) :
    Recalls N n e e' := by
  refine ⟨searches, fibers ▸ le_rfl, fun f y found => .inl ⟨y, ?_, rfl, fun _ => .inl rfl⟩⟩
  rw [← fiber?_congr fibers]
  exact found

lemma refl (e : Engine) : Recalls N 0 e e := of_fibers rfl rfl

lemma trans (first : Recalls N n e e') (later : Recalls N m e' e'') : Recalls N (n + m) e e'' := by
  refine ⟨?_, first.next.trans later.next, fun f z found => ?_⟩
  · rw [later.searches, first.searches, Nat.add_assoc]
  · rcases later.fiber f z found with ⟨y, there, image, kept⟩ | ⟨new, blank⟩
    · rcases first.fiber f y there with ⟨x, before, image', kept'⟩ | ⟨new, blank⟩
      · refine .inl ⟨x, before, image.trans image', fun i => ?_⟩
        rcases kept i with same | noted
        · rw [same]
          exact kept' i
        · exact .inr noted
      · refine .inr ⟨new, fun i => ?_⟩
        rcases kept i with same | noted
        · rw [same]
          exact blank i
        · exact .inr noted
    · exact .inr ⟨first.next.trans new, blank⟩

lemma mono {N' : FiberId → Nat → Prop} (recalls : Recalls N n e e') (more : ∀ f i, N f i → N' f i) :
    Recalls N' n e e' := by
  refine ⟨recalls.searches, recalls.next, fun f y found => ?_⟩
  rcases recalls.fiber f y found with ⟨x, there, image, kept⟩ | ⟨new, blank⟩
  · exact .inl ⟨x, there, image, fun i => (kept i).imp_right (more f i)⟩
  · exact .inr ⟨new, fun i => (blank i).imp_right (more f i)⟩

/-- A fiber that exists remembers what it remembered. -/
lemma memo? (recalls : Recalls N n e e') (there : (e'.fiber? f).isSome)
    (issued : f.id < e.fibers.next) (other : ¬ N f i) : e'.memo? f i = e.memo? f i := by
  obtain ⟨y, found⟩ := Option.isSome_iff_exists.1 there
  rcases recalls.fiber f y found with ⟨x, before, -, kept⟩ | ⟨new, -⟩
  · rw [Engine.memo?, found, Engine.memo?, before]
    exact (kept i).resolve_right other
  · exact absurd issued (Nat.not_lt_of_le new)

/-- What is remembered was remembered before. -/
lemma memo?_eq_some (recalls : Recalls N n e e') (remembered : e'.memo? f i = some t)
    (other : ¬ N f i) :
    e.memo? f i = some t := by
  obtain ⟨y, found, remembered⟩ := Option.bind_eq_some_iff.1 remembered
  rcases recalls.fiber f y found with ⟨x, before, -, kept⟩ | ⟨-, blank⟩
  · rw [Engine.memo?, before]
    exact ((kept i).resolve_right other).symm.trans remembered
  · rw [(blank i).resolve_right other] at remembered
    cases remembered

end Recalls

lemma not_knows (remembered : e.memo? f i = some t) (dropped : ¬ t.Lives e.heap) :
    ∀ u, ¬ e.Knows f i u := by
  rintro u ⟨remembered', lives⟩
  cases remembered.symm.trans remembered'
  exact dropped lives

/-- A change notes only what it may. -/
lemma Change.recalls (change : Change P e e') (blind : ∀ f, ¬ P.looks f) :
    Recalls P.notes 0 e e' := by
  cases change with
  | aside alike => exact .of_fibers alike.fibers alike.searches
  | declare | load | refuse | leave | register => exact .of_fibers rfl rfl
  | look allowed => exact absurd allowed (blind _)
  | @alter g x y found alters =>
    refine ⟨rfl, ?_, fun f z there => .inl ?_⟩
    · rw [setFiber, Arena.next_set]
    · rw [fiber?_setFiber found] at there
      split at there
      case isTrue same =>
        cases there
        exact ⟨x, same ▸ found, alters.image, same ▸ alters.cache⟩
      case isFalse => exact ⟨z, there, rfl, fun _ => .inl rfl⟩
  | make _ _ _ _ fibers next _ _ _ _ _ blank searches =>
    refine ⟨searches, next ▸ Nat.le_succ _, fun f z there => ?_⟩
    rw [fibers] at there
    split at there
    case isTrue same =>
      cases there
      refine .inr ⟨same ▸ le_rfl, fun i => .inl ?_⟩
      rw [blank]
      exact Table.find?_empty i
    case isFalse => exact .inl ⟨z, there, rfl, fun _ => .inl rfl⟩
  | miss fibers next _ _ _ _ searches =>
    refine ⟨searches, next ▸ Nat.le_succ _, fun f z there => .inl ⟨z, ?_, rfl, fun _ => .inl rfl⟩⟩
    rw [← fibers]
    exact there
  | @finish _ g there =>
    refine ⟨rfl, le_rfl, fun f z found => .inl ⟨z, ?_, rfl, fun _ => .inl rfl⟩⟩
    have left : (if f = g then none else e.fiber? f) = some z := (fiber?_erase f).symm.trans found
    split at left
    · cases left
    · exact left

/-- Whatever happens without looking names up. -/
lemma Advances.recalls (advances : Advances P e e') (blind : ∀ f, ¬ P.looks f) :
    Recalls P.notes 0 e e' := by
  induction advances with
  | refl => exact .refl e
  | tail _ advance ih =>
    cases advance with
    | change change => exact ih.trans (change.recalls blind)
    | apart apart =>
      have more : Recalls P.notes 0 _ _ := .of_fibers apart.fibers apart.searches
      exact ih.trans more

lemma Changes.recalls (changes : Changes P e e') (blind : ∀ f, ¬ P.looks f) :
    Recalls P.notes 0 e e' :=
  changes.advances.recalls blind

end Engine

lemma Outcome.leftBy {R : Engine → Engine → Prop} {E : Fault → Prop} {α : Type}
    {Q : α → Engine → Prop} {F : Engine → Prop} {e result} (outcome : Outcome R E Q F e result) :
    R e (Engine.leftBy result) := by
  cases result with
  | ok a e' => exact outcome.1
  | error fault e' => exact outcome.1

namespace Lookup

open Engine

variable {e e' : Engine} {f : FiberId} {i : Nat} {t : Target} {image : Image} {name : String}

/-- One name of one fiber. -/
def only (f : FiberId) (i : Nat) (g : FiberId) (j : Nat) : Prop := g = f ∧ j = i

/-- A permit to note what one name denotes. -/
private def noting (f : FiberId) (i : Nat) : Permit := { Permit.nothing with notes := only f i }

/-! ## What is remembered -/

/-- A target that still exists is taken as it is. -/
lemma known_of_hold? {heap} (remembered : e.memo? f i = some t)
    (held : t.hold? e.heap = some heap) :
    known f i e = .ok (some t) { e with heap } := by
  obtain ⟨x, found, remembered⟩ := Option.bind_eq_some_iff.1 remembered
  unfold known
  simp only [found, remembered]
  unfold Target.hold? at held
  cases target : t.ref? with
  | none =>
    rw [target] at held
    cases held
    rfl
  | some r =>
    rw [target] at held
    simp only [held]

lemma known_of_knows (knows : e.Knows f i t) :
    ∃ heap, known f i e = .ok (some t) { e with heap } := by
  obtain ⟨heap, held⟩ := knows.2.hold?
  exact ⟨heap, known_of_hold? knows.1 held⟩

/-- A target that was dropped is forgotten, and the weak reference to it is given up. -/
lemma known_of_dropped {x r} (found : e.fiber? f = some x) (remembered : x.cache.find? i = some t)
    (target : t.ref? = some r) (dropped : e.heap.get? r = none) :
    known f i e =
      .ok none ((e.setFiber f { x with cache := x.cache.erase i }).mapHeap (·.releaseWeak r)) := by
  have lost : e.heap.retain? r = none := by
    cases taken : e.heap.retain? r with
    | none => rfl
    | some heap =>
      obtain ⟨v, holds⟩ := Heap.get?_of_retain? taken
      cases dropped.symm.trans holds
  unfold known
  simp only [found, remembered, target, lost]

lemma known_of_none (nothing : e.memo? f i = none) : known f i e = .ok none e := by
  unfold known
  cases found : e.fiber? f with
  | none => rfl
  | some x =>
    rw [Engine.memo?, found] at nothing
    have nothing : x.cache.find? i = none := nothing
    simp only [nothing]

/-- Otherwise nothing is remembered any more. -/
lemma known_of_unknown (unknown : ∀ t, ¬ e.Knows f i t) :
    ∃ e', known f i e = .ok none e' ∧ e'.memo? f i = none ∧ Recalls (only f i) 0 e e' := by
  cases remembered : e.memo? f i with
  | none => exact ⟨e, known_of_none remembered, remembered, .refl e⟩
  | some t =>
    obtain ⟨r, target, dropped⟩ := Target.dropped fun lives => unknown t ⟨remembered, lives⟩
    obtain ⟨x, found, remembered⟩ := Option.bind_eq_some_iff.1 remembered
    have forgotten := known_of_dropped found remembered target dropped
    have made := makes_known (P := noting f i) ⟨rfl, rfl⟩ e trivial
    rw [forgotten] at made
    refine ⟨_, forgotten, ?_, made.1.recalls fun _ => id⟩
    change (Option.bind ((e.setFiber f { x with cache := x.cache.erase i }).fiber? f) fun x =>
      x.cache.find? i) = none
    rw [fiber?_setFiber found, if_pos rfl]
    exact (Table.find?_erase ..).trans (if_pos rfl)

/-! ## What is looked up -/

/-- Looks a name up, without counting it. -/
def seek (caller : FiberId) (name : String) (receiver : Option Ref) : EngineM Target :=
  match receiver, Name.segments name with
  | some r, segments => follow caller name (.value r) segments
  | none, [] => throw (.unknownIdentifier name)
  | none, segment :: rest =>
    do follow caller name (← find caller name (.fiber caller) segment true) rest

lemma resolve_eq (f : FiberId) (name : String) (receiver : Option Ref) (e : Engine) :
    resolve f name receiver e = seek f name receiver { e with searches := e.searches + 1 } := rfl

lemma makes_seek {P} (f : FiberId) (name : String) (receiver : Option Ref) :
    Makes P (seek f name receiver) := by
  unfold seek
  split
  case h_1 => exact makes_follow f name _ _
  case h_2 => exact makes_throw rfl
  case h_3 => exact (makes_find f name _ _ true).bind fun t => makes_follow f name t _

/-- A name that is looked up counts as one search. -/
lemma recalls_resolve (f : FiberId) (name : String) (receiver : Option Ref) (e : Engine) :
    Recalls (fun _ _ => False) 1 e (leftBy (resolve f name receiver e)) := by
  have counted : Recalls (fun _ _ => False) 1 e { e with searches := e.searches + 1 } :=
    .of_fibers rfl rfl
  have sought := (makes_seek (P := .nothing) f name receiver { e with searches := e.searches + 1 }
    trivial).leftBy
  rw [resolve_eq]
  exact counted.trans (sought.recalls fun _ => id)

lemma recalls_remember (f : FiberId) (i : Nat) (t : Target) (e : Engine) :
    Recalls (only f i) 0 e (leftBy (remember f i t e)) :=
  (makes_remember (P := noting f i) ⟨rfl, rfl⟩ t e trivial).leftBy.recalls fun _ => id

/-- A target takes the place of another one. -/
private lemma renew_cases (f : FiberId) (i : Nat) (t : Target) (e : Engine)
    {result : EStateM.Result Fault Engine Unit} (renewed : (do
      let x ← EngineM.fiber f
      modify (·.setFiber f { x with cache := x.cache.insert i t })
      match (x.cache.find? i).bind Target.ref? with
      | some r => modify (·.mapHeap (·.releaseWeak r))
      | none => pure () : EngineM Unit) e = result) :
    (∃ e', result = .ok () e' ∧ e'.memo? f i = some t) ∨
      ∃ fault e', result = .error fault e' ∧ e'.fibers = e.fibers := by
  cases found : e.fiber? f with
  | none =>
    have missing : EngineM.fiber f e = .error .fiberDestroyed e := by simp [EngineM.fiber, found]
    rw [bind_of_error missing] at renewed
    exact .inr ⟨_, _, renewed.symm, rfl⟩
  | some x =>
    have looked : EngineM.fiber f e = .ok x e := by simp [EngineM.fiber, found]
    rw [bind_of_ok looked] at renewed
    have noted : (e.setFiber f { x with cache := x.cache.insert i t }).memo? f i = some t := by
      rw [memo?, fiber?_setFiber found, if_pos rfl]
      exact (Table.find?_insert ..).trans (if_pos rfl)
    left
    cases former : (x.cache.find? i).bind Target.ref? with
    | none =>
      simp only [former] at renewed
      exact ⟨_, renewed.symm, noted⟩
    | some r =>
      simp only [former] at renewed
      exact ⟨_, renewed.symm, noted⟩

/-- A target is remembered, unless the fiber or the target does not exist. -/
lemma remember_cases (f : FiberId) (i : Nat) (t : Target) (e : Engine) :
    (∃ e', remember f i t e = .ok () e' ∧ e'.memo? f i = some t) ∨
      ∃ fault e', remember f i t e = .error fault e' ∧ e'.fibers = e.fibers := by
  unfold remember
  cases t.ref? with
  | none => exact renew_cases f i t e rfl
  | some r =>
    cases taken : EngineM.onHeap (Heap.downgrade r) e with
    | error fault e₁ =>
      have same : e₁.fibers = e.fibers := by
        unfold EngineM.onHeap at taken
        cases run : Heap.downgrade r e.heap <;> rw [run] at taken <;> cases taken
        rfl
      simp only
      rw [bind_of_error taken]
      exact .inr ⟨fault, e₁, rfl, same⟩
    | ok u e₁ =>
      obtain ⟨heap, -, rfl⟩ := onHeap_ok taken
      simp only
      rw [bind_of_ok taken]
      exact renew_cases f i t { e with heap } rfl

/-- How a call comes by its target. -/
lemma resolveCached_of_knows (image : Image) (knows : e.Knows f i t) :
    ∃ heap, resolveCached f image i e = .ok t { e with heap } := by
  obtain ⟨heap, known⟩ := known_of_knows knows
  refine ⟨heap, ?_⟩
  unfold resolveCached
  rw [bind_of_ok known]
  rfl

/-- An unreadable name is not resolved. -/
lemma resolveCached_of_unreadable (unknown : ∀ t, ¬ e.Knows f i t)
    (unreadable : image.string? i = none) :
    ∃ e', resolveCached f image i e = .error .outOfBounds e' ∧ e'.memo? f i = none ∧ Recalls
      (only f i) 0 e e' := by
  obtain ⟨e', forgotten, nothing, recalls⟩ := known_of_unknown unknown
  refine ⟨e', ?_, nothing, recalls⟩
  unfold resolveCached
  rw [bind_of_ok forgotten, unreadable]
  rfl

/-- A call looks a readable name up, once, if it does not know the target. -/
lemma recalls_resolveCached (unknown : ∀ t, ¬ e.Knows f i t)
    (readable : image.string? i = some name) :
    Recalls (only f i) 1 e (leftBy (resolveCached f image i e)) ∧
      ∀ t, (leftBy (resolveCached f image i e)).memo? f i = some t →
        ∃ e₁ e₂ e₃, known f i e = .ok none e₁ ∧ resolve f name none e₁ = .ok t e₂ ∧
          remember f i t e₂ = .ok () e₃ ∧ resolveCached f image i e = .ok t e₃ := by
  obtain ⟨e₁, forgotten, nothing, recalls⟩ := known_of_unknown unknown
  have start : resolveCached f image i e = (do
      let t ← resolve f name none
      remember f i t
      return t : EngineM Target) e₁ := by
    unfold resolveCached
    rw [bind_of_ok forgotten, readable]
    rfl
  have found := recalls_resolve f name none e₁
  rw [start]
  cases resolved : resolve f name none e₁ with
  | error fault e₂ =>
    rw [resolved] at found
    rw [bind_of_error resolved]
    refine ⟨recalls.trans (found.mono fun _ _ => False.elim), fun t remembered => ?_⟩
    cases nothing.symm.trans (found.memo?_eq_some remembered id)
  | ok u e₂ =>
    rw [resolved] at found
    rw [bind_of_ok resolved]
    have sought := recalls.trans (found.mono fun _ _ => False.elim)
    have noted := recalls_remember f i u e₂
    -- A target that cannot be noted is not remembered, since what was there before is forgotten by
    -- now.
    rcases remember_cases f i u e₂ with ⟨e₃, remembered, entry⟩ | ⟨fault, e₃, failed, same⟩
    · rw [remembered] at noted
      rw [bind_of_ok remembered]
      refine ⟨sought.trans noted, fun t remembered' => ?_⟩
      cases entry.symm.trans remembered'
      exact ⟨e₁, e₂, e₃, forgotten, resolved, remembered, rfl⟩
    · rw [failed] at noted
      rw [bind_of_error failed]
      refine ⟨sought.trans noted, fun t remembered => ?_⟩
      have before : e₂.memo? f i = some t := by
        rw [memo?, ← fiber?_congr same]
        exact remembered
      cases nothing.symm.trans (found.memo?_eq_some before id)

/-- A target that a call has come by is remembered. -/
lemma memo?_of_resolveCached (resolved : resolveCached f image i e = .ok t e') :
    e'.memo? f i = some t := by
  by_cases known : ∃ u, e.Knows f i u
  · obtain ⟨u, knows⟩ := known
    obtain ⟨heap, taken⟩ := resolveCached_of_knows image knows
    cases taken.symm.trans resolved
    exact knows.1
  · obtain ⟨e₁, forgotten, -, -⟩ := known_of_unknown (not_exists.1 known)
    unfold resolveCached at resolved
    rw [bind_of_ok forgotten] at resolved
    obtain ⟨name, e₂, reading, rest⟩ := ok_of_bind resolved
    obtain ⟨u, e₃, sought, rest⟩ := ok_of_bind rest
    obtain ⟨_, e₄, remembered, returned⟩ := ok_of_bind rest
    cases returned
    rcases remember_cases f i t e₃ with ⟨e₅, remembered', entry⟩ | ⟨fault, e₅, failed, -⟩
    · cases remembered'.symm.trans remembered
      exact entry
    · cases failed.symm.trans remembered

end Lookup

/-! ## Instructions -/

namespace Session

open Engine

variable {s : Session} {i : Nat} {e : Engine} {name : String} {receiver : Ref}

/-- The next instruction calls by the name with an index, and has taken its arguments. -/
inductive Calls (s : Session) : Nat → Engine → Prop
  | intro {i budget cell e} (fetched : s.current.fetch = .ok (.call, i, budget))
      (small : i < Word.indexCount) (popped : Operand.pop s.current.fiber s.engine = .ok cell e) :
      Calls s i e

/-- The next instruction calls a method by its name, and has taken its arguments and the
receiver. -/
inductive CallsMethod (s : Session) : String → Ref → Engine → Prop
  | intro {i budget name cell receiver rest x e}
      (fetched : s.current.fetch = .ok (.callDynamic, i, budget))
      (named : (s.executing budget).string i s.engine = .ok name s.engine)
      (popped : Operand.pop s.current.fiber s.engine = .ok cell e)
      (found : e.fiber? s.current.fiber = some x) (receivers : x.receivers = receiver :: rest) :
    CallsMethod s name receiver (e.setFiber s.current.fiber { x with receivers := rest })

/-- From an engine on through which an instruction goes, nothing is looked up or forgotten. -/
private lemma retains_of_executed {op inline budget}
    (fetched : s.current.fetch = .ok (op, inline, budget)) (width : op.width = 1)
    (called : Outcome (Changes .nothing) (fun fault => fault.isAstray = false)
      (fun control _ => Activation.Returns control) (fun _ => True) e
      ((s.executing budget).execute op inline s.engine)) : Retains e s.step.engine := by
  have goes := goes_of_executed fetched (Activation.executed_call width called)
  exact goes.flies.advances.recalls fun _ => id

/-- A target is called, or what was popped is given up. -/
private lemma invokes {budget cell m} (makes : Makes .anything m) :
    Outcome (Changes .nothing) (fun fault => fault.isAstray = false)
      (fun control _ => Activation.Returns control) (fun _ => True) (leftBy (m e))
      ((do let t ← m.onFault (·.release cell); (s.executing budget).invoke t cell : EngineM Control)
        e) := by
  have made := makes e trivial
  cases run : m e with
  | ok t e' =>
    have taken : m.onFault (·.release cell) e = .ok t e' := by simp [EngineM.onFault, run]
    rw [bind_of_ok taken]
    exact Activation.does_invoke (s.executing budget) t cell e' trivial
  | error fault e' =>
    rw [run] at made
    have given : m.onFault (·.release cell) e = .error fault (e'.release cell) := by
      simp [EngineM.onFault, run]
    rw [bind_of_error given]
    exact ⟨(aside_release cell).changes e', made.2.1, trivial⟩

/-- What a call does with its target leaves all memory alone. -/
lemma Calls.retains (calls : s.Calls i e) :
    Retains (leftBy (Lookup.resolveCached s.current.fiber s.current.image i e)) s.step.engine := by
  cases calls with
  | @intro budget cell _ fetched small popped =>
    have start : (s.executing budget).execute .call i s.engine = _ :=
      (congrFun (if_neg (Nat.not_le_of_lt small)) s.engine).trans (bind_of_ok popped)
    refine retains_of_executed fetched rfl ?_
    rw [start]
    exact invokes (Lookup.makes_resolveCached trivial trivial _)

/-- The rest of a call of a method keeps what is remembered. -/
lemma CallsMethod.retains (calls : s.CallsMethod name receiver e) :
    Retains (leftBy (Lookup.resolve s.current.fiber name (some receiver) e)) s.step.engine := by
  cases calls with
  | @intro _ budget _ cell _ rest x e fetched named popped found receivers =>
    have popped : Operand.pop (s.executing budget).fiber s.engine = .ok cell e := popped
    have looked : EngineM.fiber (s.executing budget).fiber e = .ok x e := by
      rw [EngineM.fiber, show e.fiber? (s.executing budget).fiber = some x from found]
    refine retains_of_executed fetched rfl ?_
    change Outcome _ _ _ _ _ ((s.executing budget).callDynamic _ s.engine)
    unfold Activation.callDynamic
    rw [bind_of_ok named, bind_of_ok popped, bind_of_ok looked, receivers]
    exact invokes (Lookup.makes_resolve trivial _ _)

/-- A call that has no arguments to take fails. -/
private lemma refuses_call {budget} (other : ∀ e, ¬ s.Calls i e)
    (fetched : s.current.fetch = .ok (.call, i, budget)) :
    Outcome (Changes .nothing) (fun fault => fault.isAstray = false)
      (fun control _ => Activation.Returns control)
      (fun _ => True) s.engine ((s.executing budget).execute .call i s.engine) := by
  by_cases small : i < Word.indexCount
  · have pops := Operand.makes_pop (P := .nothing) s.current.fiber s.engine trivial
    cases popped : Operand.pop s.current.fiber s.engine with
    | ok cell e => exact absurd (.intro fetched small popped) (other e)
    | error fault e =>
      have failed : (s.executing budget).execute .call i s.engine = .error fault e :=
        (congrFun (if_neg (Nat.not_le_of_lt small)) s.engine).trans (bind_of_error popped)
      rw [popped] at pops
      rw [failed]
      exact pops
  · have failed : (s.executing budget).execute .call i s.engine = .error .outOfBounds s.engine :=
      congrFun (if_pos (Nat.le_of_not_lt small)) s.engine
    rw [failed]
    exact ⟨.refl, rfl, trivial⟩

/-- So does a call of a method that has no name, no arguments or no receiver. -/
private lemma refuses_callDynamic {budget}
    (other : ∀ name receiver e, ¬ s.CallsMethod name receiver e)
    (fetched : s.current.fetch = .ok (.callDynamic, i, budget)) :
    Outcome (Changes .nothing) (fun fault => fault.isAstray = false)
      (fun control _ => Activation.Returns control)
      (fun _ => True) s.engine ((s.executing budget).execute .callDynamic i s.engine) := by
  let a := s.executing budget
  have reads := a.makes_string (P := .nothing) i s.engine trivial
  have pops := Operand.does_pop (P := .nothing) a.fiber s.engine trivial
  change Outcome _ _ _ _ _ (a.callDynamic i s.engine)
  unfold Activation.callDynamic
  cases named : a.string i s.engine with
  | error fault e =>
    rw [named] at reads
    rw [bind_of_error named]
    exact reads
  | ok name e =>
    obtain ⟨-, rfl⟩ := orFault_ok named
    rw [bind_of_ok named]
    cases popped : Operand.pop a.fiber s.engine with
    | error fault e =>
      rw [popped] at pops
      rw [bind_of_error popped]
      exact ⟨pops.1, pops.2⟩
    | ok cell e =>
      rw [popped] at pops
      obtain ⟨x, found⟩ := Option.isSome_iff_exists.1 pops.2
      have looked : EngineM.fiber a.fiber e = .ok x e := by rw [EngineM.fiber, found]
      rw [bind_of_ok popped, bind_of_ok looked]
      cases receivers : x.receivers with
      | nil => exact ⟨pops.1.trans ((aside_release cell).changes e), rfl, trivial⟩
      | cons receiver rest =>
        exact absurd (.intro fetched named popped found receivers) (other _ _ _)

/-- All other instructions leave all memory alone, and so do calls that fail before they know what
to look up. -/
lemma retains_step (other : ∀ i e, ¬ s.Calls i e)
    (other' : ∀ name receiver e, ¬ s.CallsMethod name receiver e) :
    Retains s.engine s.step.engine := by
  cases fetched : s.current.fetch with
  | error fault => exact (unwinds_step (P := .nothing) fetched).flies.advances.recalls fun _ => id
  | ok instruction =>
    obtain ⟨op, inline, budget⟩ := instruction
    have blind : op ≠ .call → op ≠ .callDynamic → Retains s.engine s.step.engine := by
      intro notCall notMethod
      have permitted : (s.executing budget).Permitted .blind op inline :=
        ⟨fun _ _ _ => trivial, fun _ => trivial, fun _ => trivial, fun _ => trivial,
          fun call => (call.elim notCall notMethod).elim, fun call => (notCall call).elim⟩
      exact (goes_step fetched permitted).flies.advances.recalls fun _ => id
    cases op with
    | call => exact retains_of_executed fetched rfl (refuses_call (other inline) fetched)
    | callDynamic => exact retains_of_executed fetched rfl (refuses_callDynamic other' fetched)
    | _ => exact blind Opcode.noConfusion Opcode.noConfusion

/-! ## Searches -/

/-- The next instruction looks a name up. -/
inductive Searches (s : Session) : Prop
  /-- A call does not know its target, and its name can be read. -/
  | call {i : Nat} {e : Engine} (calls : s.Calls i e) (unknown : ∀ t, ¬ e.Knows s.current.fiber i t)
      (readable : (s.current.image.string? i).isSome)
  /-- A call of a method has all that it takes. -/
  | method {name : String} {receiver : Ref} {e : Engine} (calls : s.CallsMethod name receiver e)

/-- The next instruction does not know what a name denotes, and renews what is remembered of it. -/
def Renews (s : Session) (f : FiberId) (i : Nat) : Prop :=
  f = s.current.fiber ∧ ∃ e, s.Calls i e ∧ ∀ t, ¬ e.Knows f i t

/-- A call takes its arguments from the stack and leaves all memory alone. -/
lemma Calls.popped (calls : s.Calls i e) :
    Retains s.engine e ∧ e.heap = s.engine.heap ∧ (e.fiber? s.current.fiber).isSome := by
  cases calls with
  | intro fetched small popped =>
    have pops := Operand.does_pop (P := .nothing) s.current.fiber s.engine trivial
    rw [popped] at pops
    obtain ⟨x, stack, found, top, rfl⟩ := Operand.pop_ok popped
    exact ⟨pops.1.recalls fun _ => id, rfl, pops.2⟩

/-- Popping keeps what is remembered. -/
lemma CallsMethod.popped (calls : s.CallsMethod name receiver e) : Retains s.engine e := by
  cases calls with
  | @intro _ budget _ cell _ rest x e fetched named popped found receivers =>
    have pops := Operand.makes_pop (P := .nothing) s.current.fiber s.engine trivial
    rw [popped] at pops
    have alters : Alters .nothing s.current.fiber x { x with receivers := rest } :=
      .of_stack rfl rfl rfl (.inl rfl) rfl fun _ => .inl rfl
    have changes : Changes .nothing s.engine _ := pops.1.tail (.alter found alters)
    exact changes.recalls fun _ => id

lemma Calls.renews (calls : s.Calls i e) (unknown : ∀ t, ¬ e.Knows s.current.fiber i t)
    (g : FiberId) (j : Nat) (same : Lookup.only s.current.fiber i g j) : s.Renews g j := by
  obtain ⟨rfl, rfl⟩ := same
  exact ⟨rfl, e, calls, unknown⟩

/-- A call that knows its target looks nothing up. -/
lemma Calls.retains_of_knows {t} (calls : s.Calls i e) (knows : e.Knows s.current.fiber i t) :
    Retains s.engine s.step.engine := by
  obtain ⟨heap, known⟩ := Lookup.resolveCached_of_knows s.current.image knows
  have rest := calls.retains
  rw [known] at rest
  have taken : Retains e { e with heap } := .of_fibers rfl rfl
  exact (calls.popped.1.trans taken).trans rest

/-- What an instruction that looks a name up does to the memory of fibers. -/
lemma Searches.recalls (searches : s.Searches) : Recalls s.Renews 1 s.engine s.step.engine := by
  cases searches with
  | @call i e calls unknown readable =>
    obtain ⟨name, readable⟩ := Option.isSome_iff_exists.1 readable
    obtain ⟨recalls, -⟩ := Lookup.recalls_resolveCached unknown readable
    have first : Recalls s.Renews 0 s.engine e := calls.popped.1.mono fun _ _ => False.elim
    exact (first.trans (recalls.mono (calls.renews unknown))).trans (calls.retains.mono fun _ _ =>
      False.elim)
  | @method name receiver e calls =>
    have found := Lookup.recalls_resolve s.current.fiber name (some receiver) e
    exact ((calls.popped.trans found).trans calls.retains).mono fun _ _ => False.elim

/-- What any other instruction does to it. -/
lemma recalls_step (idle : ¬ s.Searches) : Recalls s.Renews 0 s.engine s.step.engine := by
  by_cases calls : ∃ i e, s.Calls i e
  · obtain ⟨i, e, calls⟩ := calls
    by_cases known : ∃ t, e.Knows s.current.fiber i t
    · obtain ⟨t, knows⟩ := known
      exact (calls.retains_of_knows knows).mono fun _ _ => False.elim
    · have unknown : ∀ t, ¬ e.Knows s.current.fiber i t := not_exists.1 known
      have unreadable : s.current.image.string? i = none := by
        cases readable : s.current.image.string? i with
        | none => rfl
        | some name => exact absurd (.call calls unknown (readable ▸ rfl)) idle
      obtain ⟨e', failed, -, recalls⟩ := Lookup.resolveCached_of_unreadable unknown unreadable
      have rest := calls.retains
      rw [failed] at rest
      have first : Recalls s.Renews 0 s.engine e := calls.popped.1.mono fun _ _ => False.elim
      exact (first.trans (recalls.mono (calls.renews unknown))).trans (rest.mono fun _ _ =>
        False.elim)
  · refine (retains_step (fun i e call => calls ⟨i, e, call⟩) fun name receiver e call => ?_).mono
      fun _ _ => False.elim
    exact idle (.method call)

end Session

end FiberVM
