import Mathlib.Logic.Relation
import FiberVM.Agenda.Basic

/-!
# Calls of an agenda

Everything that can be asked of an agenda is a call, and an agenda changes by calls alone: a later
one comes from an earlier one by a sequence of them (`Agenda.Evolves`). What every call keeps is
therefore kept for good (`Agenda.Evolves.keeps`).
-/

namespace FiberVM.Agenda

/-- What can be asked of an agenda. -/
inductive Call where
  | register (parent : Option ContinuationId) (fiber : FiberId) (cell : Ref) (condition : Condition)
      (pc : Nat) (now : Binary64)
  | registerAt (parent : Option ContinuationId) (fiber : FiberId) (cell : Ref) (expiry : Binary64)
      (pc : Nat) (recurrence : Int64) (delta : Binary64)
  | registerOn (parent : Option ContinuationId) (fiber : FiberId) (cell : Ref)
      (list discriminator : String) (pc : Nat) (recurrence : Int64)
  | post (list event : String)
  | takeReady (now : Binary64)
  | rearmOrRetire (id : ContinuationId)
  | cancel (id : ContinuationId)
  | cancelFiber (fiber : FiberId)
  /-- Puts an empty list in place of the one called `time`. -/
  | addTimeline
  /-- Puts an empty list for events in place of the one with the name. -/
  | addListeners (name : String)

namespace Call

/-- The agenda after a call. One that is refused changes nothing. -/
def perform : Call → Agenda → Agenda
  | register parent fiber cell condition pc now, a =>
    match a.register parent fiber cell condition pc now with
    | .ok (_, a) => a
    | .error _ => a
  | registerAt parent fiber cell expiry pc recurrence delta, a =>
    (a.registerAt parent fiber cell expiry pc recurrence delta).2
  | registerOn parent fiber cell list discriminator pc recurrence, a =>
    match a.registerOn parent fiber cell list discriminator pc recurrence with
    | .ok (_, a) => a
    | .error _ => a
  | post list event, a =>
    match a.post list event with
    | .ok a => a
    | .error _ => a
  | takeReady now, a => (a.takeReady now).2
  | rearmOrRetire id, a =>
    match a.rearmOrRetire id with
    | .ok (_, a) => a
    | .error _ => a
  | cancel id, a => (a.cancel id).2
  | cancelFiber fiber, a => (a.cancelFiber fiber).2
  | addTimeline, a => a.addTimeline
  | addListeners name, a => a.addListeners name

/-- Whether a call registers a continuation. -/
def registers : Call → Bool
  | register .. | registerAt .. | registerOn .. => true
  | _ => false

/-- The continuation beneath which a call registers another one. -/
def parent? : Call → Option ContinuationId
  | register parent .. | registerAt parent .. | registerOn parent .. => parent
  | _ => none

end Call

variable {a a' a'' : Agenda} {id : ContinuationId}

/-- Where a new continuation can wait: for a point in time on the list `time`, and for an event on a
list that exists. -/
def Admits (a : Agenda) (k : Continuation) : Prop :=
  match k.wake with
  | .at _ => k.list = timeName
  | .on _ => (a.list? k.list).isSome

/-- A list is not there, or the continuation is inserted. -/
private lemma perform_registerOn (a : Agenda) (parent : Option ContinuationId) (fiber : FiberId)
    (cell : Ref) (list discriminator : String) (pc : Nat) (recurrence : Int64) :
    Call.perform (.registerOn parent fiber cell list discriminator pc recurrence) a = a ∨
      ∃ k : Continuation, k.children = [] ∧ k.parent = parent ∧ a.Admits k ∧
        Call.perform (.registerOn parent fiber cell list discriminator pc recurrence) a =
          (a.insert k).2 := by
  cases found : a.list? list with
  | none =>
    apply Or.inl
    simp only [Call.perform, registerOn, found]
  | some l =>
    let k : Continuation :=
      ⟨fiber, cell, parent, [], pc, .on discriminator, recurrence, .zero, list⟩
    have admitted : a.Admits k := by
      change (a.list? list).isSome
      rw [found]
      rfl
    refine .inr ⟨k, rfl, rfl, admitted, ?_⟩
    simp only [Call.perform, registerOn, found]
    rfl

/-- A call that registers adds a continuation without children, or is refused. -/
lemma Call.perform_of_registers {call : Call} (registers : call.registers) (a : Agenda) :
    call.perform a = a ∨
      ∃ k : Continuation, k.children = [] ∧ k.parent = call.parent? ∧ a.Admits k ∧
        call.perform a = (a.insert k).2 := by
  cases call with
  | registerAt parent fiber cell expiry pc recurrence delta =>
    exact .inr ⟨⟨fiber, cell, parent, [], pc, .at expiry, recurrence, delta, timeName⟩, rfl, rfl,
      rfl, rfl⟩
  | registerOn parent fiber cell list discriminator pc recurrence =>
    exact perform_registerOn a parent fiber cell list discriminator pc recurrence
  | register parent fiber cell condition pc now =>
    cases condition with
    | time delay recurrence interval =>
      exact .inr ⟨⟨fiber, cell, parent, [], pc, .at (now.add delay), recurrence, interval,
        timeName⟩, rfl, rfl, rfl, rfl⟩
    | event list discriminator recurrence =>
      exact perform_registerOn a parent fiber cell list discriminator pc recurrence
  | _ => cases registers

/-- What a call can do to an agenda, if it registers beneath the given parent. -/
inductive Effect (parent : Option ContinuationId) (a : Agenda) : Agenda → Prop
  | refused : Effect parent a a
  | inserted (k : Continuation) (childless : k.children = []) (beneath : k.parent = parent)
      (admitted : a.Admits k) : Effect parent a (a.insert k).2
  | posted {list event a'} (posted : a.post list event = .ok a') :
      Effect parent a a'
  | taken (now : Binary64) : Effect parent a (a.takeReady now).2
  | settled {id result} (settled : a.rearmOrRetire id = .ok result) : Effect parent a result.2
  | cancelled (id : ContinuationId) : Effect parent a (a.cancel id).2
  | ended (fiber : FiberId) : Effect parent a (a.cancelFiber fiber).2
  | listed (name : String) {list} (empty : list = .time {} ∨ list = .events {}) :
      Effect parent a (a.addList name list)

/-- Every call has one of the effects. -/
lemma Call.effect (call : Call) (a : Agenda) : Effect call.parent? a (call.perform a) := by
  have registered : call.registers → Effect call.parent? a (call.perform a) := by
    intro registers
    obtain same | ⟨k, childless, beneath, admitted, inserted⟩ := perform_of_registers registers a
    · rw [same]
      exact .refused
    · rw [inserted]
      exact .inserted k childless beneath admitted
  cases call with
  | register | registerAt | registerOn => exact registered rfl
  | post list event =>
    cases posted : a.post list event with
    | ok a' =>
      simp only [Call.perform, posted]
      exact .posted posted
    | error =>
      simp only [Call.perform, posted]
      exact .refused
  | takeReady now => exact .taken now
  | rearmOrRetire id =>
    cases settled : a.rearmOrRetire id with
    | ok result =>
      simp only [Call.perform, settled]
      exact .settled settled
    | error =>
      simp only [Call.perform, settled]
      exact .refused
  | cancel id => exact .cancelled id
  | cancelFiber fiber => exact .ended fiber
  | addTimeline => exact .listed timeName (.inl rfl)
  | addListeners name => exact .listed name (.inr rfl)

/-! ## What calls lead to -/

/-- A later agenda comes from an earlier one by calls. -/
def Evolves (a a' : Agenda) : Prop :=
  Relation.ReflTransGen (fun a a' => ∃ call : Call, call.perform a = a') a a'

lemma Evolves.refl (a : Agenda) : Evolves a a := Relation.ReflTransGen.refl

lemma Evolves.trans (x : Evolves a a') (y : Evolves a' a'') : Evolves a a'' :=
  Relation.ReflTransGen.trans x y

lemma Evolves.call (call : Call) (a : Agenda) : Evolves a (call.perform a) :=
  Relation.ReflTransGen.single ⟨call, rfl⟩

/-- What every call keeps is kept for good. -/
lemma Evolves.keeps {P : Agenda → Prop}
    (step : ∀ (call : Call) (a : Agenda), P a → P (call.perform a)) (evolved : Evolves a a')
    (ok : P a) : P a' := by
  induction evolved with
  | refl => exact ok
  | tail _ called ih =>
    obtain ⟨call, rfl⟩ := called
    exact step call _ ih

lemma evolves_register {parent fiber cell condition pc now}
    (registered : a.register parent fiber cell condition pc now = .ok (id, a')) : Evolves a a' := by
  have called := Evolves.call (.register parent fiber cell condition pc now) a
  simp only [Call.perform, registered] at called
  exact called

lemma evolves_post {list event} (posted : a.post list event = .ok a') : Evolves a a' := by
  have called := Evolves.call (.post list event) a
  simp only [Call.perform, posted] at called
  exact called

lemma evolves_rearmOrRetire {cell} (settled : a.rearmOrRetire id = .ok (cell, a')) :
    Evolves a a' := by
  have called := Evolves.call (.rearmOrRetire id) a
  simp only [Call.perform, settled] at called
  exact called

end FiberVM.Agenda
