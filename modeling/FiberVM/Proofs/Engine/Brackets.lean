import FiberVM.Proofs.Engine.Flight

/-!
# Markers on the stacks of fibers

A marker starts an argument list. Until a list is closed, the latest marker and everything beneath
it stay on the stack, whatever happens to its fiber otherwise; the arguments of a fiber stay as well
(`Engine.Guards`).
-/

namespace FiberVM

variable {x y : Fiber} {below : List (Option Ref)}

namespace Fiber

/-- Everything beneath a marker is beneath the latest one. -/
lemma guarded_of_marked (marked : none :: below <:+ x.stack) : none :: below <:+ x.guarded := by
  obtain ⟨above, eq⟩ := marked
  rw [guarded, ← eq]
  clear eq
  induction above with
  | nil => exact List.suffix_rfl
  | cons entry above ih =>
    cases entry with
    | none => exact List.suffix_append (none :: above) _
    | some r => exact ih

/-- What is guarded is nothing, or starts with a marker. -/
lemma guarded_cases (x : Fiber) : x.guarded = [] ∨ ∃ below, x.guarded = none :: below := by
  rw [guarded]
  induction x.stack with
  | nil => exact .inl rfl
  | cons entry rest ih =>
    cases entry with
    | none => exact .inr ⟨rest, rfl⟩
    | some r => exact ih

/-- What is guarded in a stack stays so as long as it is on the stack. -/
lemma guarded_of_suffix (kept : x.guarded <:+ y.stack) : x.guarded <:+ y.guarded := by
  rcases x.guarded_cases with nothing | ⟨below, marked⟩
  · rw [nothing]
    exact List.nil_suffix
  · rw [marked] at kept ⊢
    exact guarded_of_marked kept

end Fiber

namespace Engine

/-- Fibers keep their arguments, and what is guarded on their stacks unless they may close a list.
None comes back. -/
structure Guards (closes : FiberId → Prop) (e e' : Engine) : Prop where
  next : e.fibers.next ≤ e'.fibers.next
  kept : ∀ {f y}, f.id < e.fibers.next → e'.fiber? f = some y →
    ∃ x, e.fiber? f = some x ∧ y.arguments = x.arguments ∧ (x.guarded <:+ y.stack ∨ closes f)

variable {P : Permit} {e e' e'' : Engine} {closes closes' : FiberId → Prop} {f : FiberId}

namespace Guards

/-- Where fibers are as before, or gone, there is nothing to show. -/
lemma of_fibers (next : e.fibers.next ≤ e'.fibers.next)
    (fibers : ∀ {f y}, f.id < e.fibers.next → e'.fiber? f = some y → e.fiber? f = some y) :
    Guards closes e e' where
  next := next
  kept {_ y} issued found := ⟨y, fibers issued found, rfl, .inl y.guarded_suffix⟩

lemma of_eq (fibers : e'.fibers = e.fibers) : Guards closes e e' :=
  .of_fibers (fibers ▸ le_rfl) fun _ found => fiber?_congr fibers _ ▸ found

lemma refl (e : Engine) : Guards closes e e := .of_eq rfl

lemma trans (first : Guards closes e e') (later : Guards closes e' e'') : Guards closes e e'' where
  next := first.next.trans later.next
  kept {f z} issued found := by
    obtain ⟨y, found', arguments', stack'⟩ := later.kept (issued.trans_le first.next) found
    obtain ⟨x, found'', arguments, stack⟩ := first.kept issued found'
    refine ⟨x, found'', arguments'.trans arguments, ?_⟩
    rcases stack with kept | closed
    · rcases stack' with kept' | closed
      · exact .inl ((Fiber.guarded_of_suffix kept).trans kept')
      · exact .inr closed
    · exact .inr closed

lemma mono (guards : Guards closes e e') (allowed : ∀ f, closes f → closes' f) :
    Guards closes' e e' where
  next := guards.next
  kept issued found := by
    obtain ⟨x, found', arguments, stack⟩ := guards.kept issued found
    exact ⟨x, found', arguments, stack.imp_right (allowed _)⟩

/-- A fiber that is still there was there, with the same arguments. -/
lemma arguments (guards : Guards closes e e') (there : e.fiber? f = some x)
    (found : e'.fiber? f = some y) :
    y.arguments = x.arguments := by
  obtain ⟨z, found', same, -⟩ := guards.kept (lt_next_of_isSome (there ▸ rfl)) found
  cases there.symm.trans found'
  exact same

/-- A marker and everything beneath it stay where they are, unless a list is closed. -/
lemma marked (guards : Guards closes e e') (there : e.fiber? f = some x)
    (marked : none :: below <:+ x.stack) (unclosed : ¬ closes f) (found : e'.fiber? f = some y) :
    none :: below <:+ y.stack := by
  obtain ⟨z, found', -, kept | closed⟩ := guards.kept (lt_next_of_isSome (there ▸ rfl)) found
  · cases there.symm.trans found'
    exact (Fiber.guarded_of_marked marked).trans kept
  · exact absurd closed unclosed

end Guards

/-- A change takes nothing from beneath a marker unless it closes a list. -/
lemma Change.guards (change : Change P e e') : Guards P.closes e e' := by
  cases change with
  | aside alike => exact .of_eq alike.fibers
  | declare | load | refuse | leave | look | register => exact .of_eq rfl
  | @alter g x y found alters =>
    refine ⟨le_of_eq (Arena.next_set _ _ _).symm, fun {f z} issued found' => ?_⟩
    rw [fiber?_setFiber found] at found'
    split at found'
    case isTrue same =>
      cases found'
      subst same
      exact ⟨x, found, alters.arguments, alters.stack⟩
    case isFalse => exact ⟨z, found', rfl, .inl z.guarded_suffix⟩
  | make _ _ _ _ fibers next =>
    refine .of_fibers (next ▸ Nat.le_succ _) fun {f y} issued found => ?_
    rw [fibers, if_neg] at found
    · exact found
    · rintro rfl
      exact Nat.lt_irrefl _ issued
  | miss fibers next => exact .of_fibers (next ▸ Nat.le_succ _) fun _ found => fibers _ ▸ found
  | @finish _ g there =>
    refine .of_fibers le_rfl fun {f y} _ found => ?_
    have found : (if f = g then none else e.fiber? f) = some y := (fiber?_erase f).symm.trans found
    split at found
    · cases found
    · exact found

lemma Changes.guards (changes : Changes P e e') : Guards P.closes e e' := by
  induction changes with
  | refl => exact .refl e
  | tail _ change ih => exact ih.trans change.guards

lemma guards_settle (id : ContinuationId) (e : Engine) : Guards closes e (Session.settle id e) := by
  unfold Session.settle
  split <;> exact .of_eq rfl

end Engine

open Engine

variable {P : Permit} {e : Engine} {x : Flight} {p : Progress}

/-- A session that goes on leaves what is guarded in its place. -/
lemma Flies.guards (flies : Flies P e x p) : Guards P.closes e p.engine := by
  cases flies with
  | on _ changes => exact changes.guards
  | answer _ _ changes => exact changes.guards
  | land _ _ settles =>
    rcases settles with changes | ⟨e₁, before, later⟩
    · exact changes.guards
    · exact (before.guards.trans (guards_settle _ e₁)).trans later.guards

end FiberVM
