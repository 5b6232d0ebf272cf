import FiberVM.Proofs.Engine.Flight

/-!
# Addresses that are kept for later

A fiber keeps the address where it was suspended, and a continuation the address where its fiber
goes on. Whatever happens to an engine, these are the addresses that were kept before, or new ones
that a permit allows (`Engine.Stores`).
-/

namespace FiberVM

namespace Agenda

variable {a a' : Agenda} {id : ContinuationId} {f : FiberId} {k : Continuation}

/-- Registering adds a continuation of the fiber at the address. -/
lemma register_eq {parent cell condition pc now}
    (registered : a.register parent f cell condition pc now = .ok (id, a')) :
    ∃ k : Continuation, k.fiber = f ∧ k.pc = pc ∧ a' = (a.insert k).2 := by
  cases condition with
  | time delay recurrence interval =>
    cases registered
    exact ⟨_, rfl, rfl, rfl⟩
  | event list discriminator recurrence =>
    simp only [register, registerOn] at registered
    split at registered
    case h_1 => cases registered
    case h_2 =>
      cases registered
      exact ⟨_, rfl, rfl, rfl⟩

/-- Settling a continuation changes no fiber and no address. -/
lemma settled_pc (tidy : a.Tidy) {result} (settled : a.rearmOrRetire id = .ok result) {x}
    (found : result.2.get? x = some k) :
    ∃ k₀, a.get? x = some k₀ ∧ k₀.fiber = k.fiber ∧ k₀.pc = k.pc := by
  obtain ⟨c, there, rfl | armed⟩ := rearmOrRetire_cases settled
  · obtain ⟨a', dropped, whole⟩ := retire_eq tidy there
    rw [whole, get?_orphan] at found
    obtain ⟨k₁, left, rfl⟩ := Option.map_eq_some_iff.1 found
    obtain ⟨-, k₀, before, rfl⟩ := dropped.get_of left
    exact ⟨k₀, before, rfl, rfl⟩
  · rw [armed, get?_rearm there] at found
    obtain ⟨k₀, before, rfl⟩ := Option.map_eq_some_iff.1 found
    refine ⟨k₀, before, ?_⟩
    split
    · obtain ⟨wake, recurrence, whole, -⟩ := rearmed_eq k₀
      rw [whole]
      exact ⟨rfl, rfl⟩
    · exact ⟨rfl, rfl⟩

end Agenda

namespace Engine

/-- The addresses that a later engine keeps were kept before, or are new and allowed. -/
structure Stores (K : FiberId → Nat → Prop) (e e' : Engine) : Prop where
  suspended : ∀ {f y pc}, e'.fiber? f = some y → y.suspended = some pc →
    (∃ x, e.fiber? f = some x ∧ x.suspended = some pc) ∨ K f pc
  registered : ∀ {id k}, e'.agenda.get? id = some k →
    (∃ k₀, e.agenda.get? id = some k₀ ∧ k₀.fiber = k.fiber ∧ k₀.pc = k.pc) ∨ K k.fiber k.pc

variable {P : Permit} {K : FiberId → Nat → Prop} {e e' e'' : Engine} {id : ContinuationId}

namespace Stores

lemma trans (x : Stores K e e') (y : Stores K e' e'') : Stores K e e'' where
  suspended found kept := by
    rcases y.suspended found kept with ⟨_, found', kept'⟩ | allowed
    · exact x.suspended found' kept'
    · exact .inr allowed
  registered found := by
    rcases y.registered found with ⟨k', found', fiber, pc⟩ | allowed
    · rw [← fiber, ← pc]
      exact x.registered found'
    · exact .inr allowed

/-- Where fibers are as before it is enough to look at the agenda. -/
lemma of_agenda (fibers : ∀ f, e'.fiber? f = e.fiber? f)
    (registered : ∀ {id k}, e'.agenda.get? id = some k →
      (∃ k₀, e.agenda.get? id = some k₀ ∧ k₀.fiber = k.fiber ∧ k₀.pc = k.pc) ∨ K k.fiber k.pc) :
    Stores K e e' where
  suspended {f y _} found kept := .inl ⟨y, (fibers f).symm.trans found, kept⟩
  registered := registered

/-- Where the agenda is as before it is enough to look at the fibers. -/
lemma of_fibers (agenda : e'.agenda = e.agenda)
    (suspended : ∀ {f y pc}, e'.fiber? f = some y → y.suspended = some pc →
      (∃ x, e.fiber? f = some x ∧ x.suspended = some pc) ∨ K f pc) : Stores K e e' where
  suspended := suspended
  registered {_ k} found := .inl ⟨k, agenda ▸ found, rfl, rfl⟩

lemma refl (e : Engine) :
    Stores K e e := of_agenda (fun _ => rfl) fun {_ k} found => .inl ⟨k, found, rfl, rfl⟩

end Stores

/-- Cancelling the continuations of a fiber changes no address. -/
private lemma registered_cancelFiber (tidy : e.agenda.Tidy) (f : FiberId) {k}
    (found : (e.agenda.cancelFiber f).2.get? id = some k) :
    (∃ k₀, e.agenda.get? id = some k₀ ∧ k₀.fiber = k.fiber ∧ k₀.pc = k.pc) ∨ K k.fiber k.pc := by
  obtain ⟨gone, dropped, -⟩ := Agenda.drops_cancelFiber tidy f
  obtain ⟨-, k₀, before, rfl⟩ := dropped.get_of found
  exact .inl ⟨k₀, before, rfl, rfl⟩

/-- What leaves fibers and agenda alone changes no address. -/
private lemma stores_aside (tidy : e.agenda.Tidy) (fibers : e'.fibers = e.fibers)
    (agenda : e'.agenda = e.agenda) :
    e'.agenda.Tidy ∧ Stores K e e' := by
  refine ⟨agenda ▸ tidy, .of_fibers agenda fun {f y pc} found kept => .inl ⟨y, ?_, kept⟩⟩
  rw [← fiber?_congr fibers]
  exact found

/-- Fibers may be gone with the continuations of one of them. -/
private lemma stores_cancel (tidy : e.agenda.Tidy) {f}
    (fibers : ∀ {g y}, e'.fiber? g = some y → e.fiber? g = some y)
    (agenda : e'.agenda = (e.agenda.cancelFiber f).2) : e'.agenda.Tidy ∧ Stores K e e' := by
  rw [agenda]
  refine ⟨(Agenda.Call.effect (.cancelFiber f) e.agenda).tidy tidy, fun found kept =>
    .inl ⟨_, fibers found, kept⟩, ?_⟩
  rw [agenda]
  exact registered_cancelFiber tidy f

/-- A change keeps no address but those that are allowed. -/
lemma Change.stores (change : Change P e e') (tidy : e.agenda.Tidy) :
    e'.agenda.Tidy ∧ Stores P.keeps e e' := by
  cases change with
  | aside alike => exact stores_aside tidy alike.fibers alike.agenda
  | declare | load | refuse | look => exact stores_aside tidy rfl rfl
  | @alter f x y found alters =>
    refine ⟨tidy, .of_fibers rfl fun {g z pc} found' kept => ?_⟩
    rw [fiber?_setFiber found] at found'
    split at found'
    case isTrue same =>
      cases found'
      subst same
      rcases alters.suspended with same | allowed
      · exact .inl ⟨x, found, same ▸ kept⟩
      · exact .inr (allowed pc kept)
    case isFalse => exact .inl ⟨z, found', kept⟩
  | make _ _ _ awake fibers _ agenda =>
    refine ⟨agenda ▸ tidy, .of_fibers agenda fun {g z pc} found kept => ?_⟩
    rw [fibers] at found
    split at found
    · cases found
      rw [awake] at kept
      cases kept
    · exact .inl ⟨z, found, kept⟩
  | miss fibers _ agenda => exact stores_cancel tidy (fun {g y} found => fibers g ▸ found) agenda
  | @finish _ f there =>
    refine stores_cancel tidy (fun {g y} found => ?_) rfl
    have found : (if g = f then none else e.fiber? g) = some y := (fiber?_erase g).symm.trans found
    split at found
    · cases found
    · exact found
  | leave => exact stores_cancel tidy (fun found => found) rfl
  | @register parent f cell condition pc now id agenda there allowed registered =>
    have tidy' := (Agenda.Call.effect (.register parent f cell condition pc now) e.agenda).tidy tidy
    simp only [Agenda.Call.perform, registered] at tidy'
    refine ⟨tidy', .of_agenda (fun _ => rfl) fun {x k} found => ?_⟩
    obtain ⟨k₁, rfl, rfl, rfl⟩ := Agenda.register_eq registered
    obtain ⟨k₀, ⟨-, rfl⟩ | before, rfl⟩ := Agenda.get?_insert_cases found
    · exact .inr allowed
    · exact .inl ⟨k₀, before, rfl, rfl⟩

lemma Changes.stores (changes : Changes P e e') (tidy : e.agenda.Tidy) :
    e'.agenda.Tidy ∧ Stores P.keeps e e' := by
  induction changes with
  | refl => exact ⟨tidy, .refl e⟩
  | tail _ change ih =>
    obtain ⟨tidy', stores⟩ := change.stores ih.1
    exact ⟨tidy', ih.2.trans stores⟩

lemma stores_settle (tidy : e.agenda.Tidy) (id : ContinuationId) :
    (Session.settle id e).agenda.Tidy ∧ Stores K e (Session.settle id e) := by
  unfold Session.settle
  cases settled : e.agenda.rearmOrRetire id with
  | error err => exact ⟨tidy, .refl e⟩
  | ok result =>
    refine ⟨tidy.rearmOrRetire settled, .of_agenda (fun _ => rfl) fun found => ?_⟩
    exact .inl (Agenda.settled_pc tidy settled found)

end Engine

open Engine

/-- A session that goes on keeps only addresses that are allowed. -/
lemma Flies.stores {P e x p} (flies : Flies P e x p) (tidy : e.agenda.Tidy) :
    Stores P.keeps e p.engine := by
  cases flies with
  | on _ changes => exact (changes.stores tidy).2
  | answer _ _ changes => exact (changes.stores tidy).2
  | land _ _ settles =>
    rcases settles with changes | ⟨e₁, before, later⟩
    · exact (changes.stores tidy).2
    · obtain ⟨tidy₁, stores₁⟩ := before.stores tidy
      obtain ⟨tidy₂, stores₂⟩ := stores_settle tidy₁ _
      exact (stores₁.trans stores₂).trans (later.stores tidy₂).2

end FiberVM
