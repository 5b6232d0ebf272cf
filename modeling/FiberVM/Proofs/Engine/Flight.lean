import FiberVM.Proofs.Agenda.Losses
import FiberVM.Proofs.Engine.Stack

/-!
# Continuations in flight

The continuations that an update has taken out are in flight until it has dealt with them
(`Flight`). Of an engine it is known where each of its continuations waits or that it is in flight,
and that the fiber of each of them exists (`Engine.Staffed`). Every change of an engine keeps this,
and loses continuations only for reasons that can be named: a fiber has ended, or has changed its
state, or a continuation was settled (`Engine.Passes`).
-/

namespace FiberVM.Engine

/-- A fiber was there and is gone. -/
def Ended (e : Engine) (f : FiberId) : Prop := f.id < e.fibers.next ∧ e.fiber? f = none

/-- What is known of an engine while continuations are in flight. -/
structure Staffed (names : List String) (flying : List ContinuationId) (e : Engine) : Prop where
  waits : Agenda.Waits names e.agenda flying
  indexed : e.agenda.Indexed
  /-- What is registered is bound to a fiber that exists. -/
  manned : ∀ {id f r}, e.agenda.bond? id = some (f, r) → (e.fiber? f).isSome

/-- What happens between an earlier and a later engine. A continuation is lost because a fiber has
ended, or for another reason that is given. -/
structure Passes (C : ContinuationId → ContinuationId → FiberId → Prop) (e e' : Engine) : Prop where
  loses : e.agenda.Loses (fun id top f => e'.Ended f ∨ C id top f) e'.agenda
  /-- A fiber does not come back. -/
  ended : ∀ {f}, e.Ended f → e'.Ended f

variable {P : Permit} {e e' e'' : Engine} {names : List String}
  {flying flying' : List ContinuationId} {C C' : ContinuationId → ContinuationId → FiberId → Prop}
  {f : FiberId} {id : ContinuationId}

lemma fiber?_congr (fibers : e'.fibers = e.fibers) (f : FiberId) : e'.fiber? f = e.fiber? f := by
  rw [fiber?, fibers, fiber?]

lemma Passes.mono (x : Passes C e e') (given : ∀ id top f, C id top f → C' id top f) :
    Passes C' e e' :=
  ⟨x.loses.mono fun id top f => Or.imp_right (given id top f), x.ended⟩

lemma Passes.trans (x : Passes C e e') (y : Passes C e' e'') : Passes C e e'' :=
  ⟨(x.loses.mono fun _ _ _ => Or.imp_left y.ended).trans y.loses, fun done =>
    y.ended (x.ended done)⟩

/-! ## Single changes -/

/-- Fibers may be added while the agenda is left alone. -/
lemma Staffed.of_fibers (ok : e.Staffed names flying) (agenda : e'.agenda = e.agenda)
    (there : ∀ {f}, (e.fiber? f).isSome → (e'.fiber? f).isSome)
    (ended : ∀ {f}, e.Ended f → e'.Ended f) :
    e'.Staffed names flying ∧ Passes C e e' := by
  refine ⟨⟨?_, ?_, fun {id f r} bound => ?_⟩, ?_, ended⟩
  · rw [agenda]
    exact ok.waits
  · rw [agenda]
    exact ok.indexed
  · rw [agenda] at bound
    exact there (ok.manned bound)
  · rw [agenda]
    exact .refl _

/-- The agenda may change while the fibers are left alone. -/
lemma Staffed.of_agenda (ok : e.Staffed names flying) (fibers : e'.fibers = e.fibers)
    (waits : Agenda.Waits names e'.agenda flying') (indexed : e'.agenda.Indexed)
    (bound : ∀ {id f r}, e'.agenda.bond? id = some (f, r) →
      e.agenda.bond? id = some (f, r) ∨ (e.fiber? f).isSome)
    (loses : e.agenda.Loses C e'.agenda) : e'.Staffed names flying' ∧ Passes C e e' := by
  refine ⟨⟨waits, indexed, fun {id f r} now => ?_⟩, loses.mono fun _ _ _ => .inr, fun {f} done =>
    ?_⟩
  · rw [fiber?_congr fibers]
    rcases bound now with before | there
    · exact ok.manned before
    · exact there
  · rw [Ended, fiber?_congr fibers, fibers]
    exact done

/-- Continuations may be taken out of the agenda. -/
lemma Staffed.sheds {given} (ok : e.Staffed names flying) (fibers : e'.fibers = e.fibers)
    (waits : Agenda.Waits names e'.agenda flying') (shed : e.agenda.Sheds given e'.agenda)
    (loses : e.agenda.Loses C e'.agenda) :
    e'.Staffed names flying' ∧ Passes C e e' :=
  ok.of_agenda fibers waits (shed.indexed ok.indexed) (fun bound => .inl (shed.bond_of bound)) loses

/-- A call may register a continuation for a fiber that exists. -/
lemma Staffed.register (ok : e.Staffed names flying) {call : Agenda.Call} {r}
    (fibers : e'.fibers = e.fibers) (registers : call.registers)
    (agenda : e'.agenda = call.perform e.agenda) (gains : e.agenda.Gains f r e'.agenda)
    (there : (e.fiber? f).isSome) :
    e'.Staffed names flying ∧ Passes C e e' := by
  refine ok.of_agenda fibers ?_ (gains.indexed ok.indexed) (fun {id g s} bound => ?_) ?_
  · rw [agenda]
    exact ok.waits.serves (.register call registers)
  · rw [gains.bond] at bound
    split at bound
    · cases bound
      exact .inr there
    · exact .inl bound
  · rw [agenda]
    exact Agenda.loses_of_registers registers _

/-- What leaves fibers and agenda alone loses nothing. -/
lemma Staffed.aside (ok : e.Staffed names flying) (fibers : e'.fibers = e.fibers)
    (agenda : e'.agenda = e.agenda) :
    e'.Staffed names flying ∧ Passes C e e' := by
  refine ok.of_fibers agenda (fun {f} there => ?_) fun {f} done => ?_
  · rw [fiber?_congr fibers]
    exact there
  · rw [Ended, fiber?_congr fibers, fibers]
    exact done

/-- A fiber that ends takes with it what it waits for. -/
lemma Staffed.finish (ok : e.Staffed names flying)
    (fibers : ∀ g, e'.fiber? g = if g = f then none else e.fiber? g)
    (issued : f.id < e'.fibers.next) (next : e.fibers.next ≤ e'.fibers.next)
    (agenda : e'.agenda = (e.agenda.cancelFiber f).2) :
    e'.Staffed names flying ∧ Passes C e e' := by
  have shed := e.agenda.sheds_cancelFiber f
  have waits := ok.waits.serves (.cancelFiber f)
  rw [← agenda] at shed waits
  have done : e'.Ended f := by
    refine ⟨issued, ?_⟩
    rw [fibers, if_pos rfl]
  have manned : ∀ {id g r}, e'.agenda.bond? id = some (g, r) → (e'.fiber? g).isSome := by
    intro id g r bound
    have other : g ≠ f := by
      rintro rfl
      rw [agenda] at bound
      exact Agenda.bond?_cancelFiber ok.indexed g id r bound
    rw [fibers, if_neg other]
    exact ok.manned (shed.bond_of bound)
  refine ⟨⟨waits, shed.indexed ok.indexed, manned⟩, ?_, fun {g} before =>
    ⟨before.1.trans_le next, ?_⟩⟩
  · rw [agenda]
    refine (Agenda.loses_cancelFiber ok.waits.tidy f).mono ?_
    rintro _ _ _ rfl
    exact .inl done
  · rw [fibers]
    split
    · rfl
    · exact before.2

/-- No fiber has the identity that is issued next. -/
lemma fiber?_next (e : Engine) : e.fiber? ⟨e.fibers.next⟩ = none := e.fibers.get?_of_next_le le_rfl

/-- A change takes nothing out of flight but for a cause. -/
lemma Change.passes (change : Change P e e') (ok : e.Staffed names flying) :
    e'.Staffed names flying ∧ Passes (fun _ _ f => P.leaves f) e e' := by
  cases change with
  | aside alike => exact ok.aside alike.fibers alike.agenda
  | declare | load | refuse | look => exact ok.aside rfl rfl
  | @alter g x y found =>
    refine ok.of_fibers rfl (fun {f} there => ?_) fun {f} done => ⟨?_, ?_⟩
    · rw [fiber?_setFiber found]
      split
      · rfl
      · exact there
    · rw [setFiber, Arena.next_set]
      exact done.1
    · rw [fiber?_setFiber found, if_neg]
      · exact done.2
      · rintro rfl
        rw [Ended, found] at done
        cases done.2
  | make _ _ _ _ fibers next agenda =>
    refine ok.of_fibers agenda (fun {f} there => ?_) fun {f} done =>
      ⟨next ▸ Nat.lt_succ_of_lt done.1, ?_⟩
    · rw [fibers]
      split
      · rfl
      · exact there
    · rw [fibers, if_neg]
      · exact done.2
      · rintro rfl
        exact Nat.lt_irrefl _ done.1
  | miss fibers next agenda =>
    refine ok.finish (fun g => ?_) (next ▸ Nat.lt_succ_self _) (next ▸ Nat.le_succ _) agenda
    rw [fibers]
    split
    case isTrue same => rw [same, e.fiber?_next]
    case isFalse => rfl
  | @finish _ g there =>
    have issued : g.id < e.fibers.next := lt_next_of_isSome there
    exact ok.finish fiber?_erase issued le_rfl rfl
  | @leave g allowed =>
    refine ok.sheds rfl (ok.waits.serves (.cancelFiber g)) (e.agenda.sheds_cancelFiber g) ?_
    refine (Agenda.loses_cancelFiber ok.waits.tidy g).mono ?_
    rintro _ _ _ rfl
    exact allowed
  | @register parent g cell condition pc now _ agenda there _ registered =>
    have performed : agenda =
        Agenda.Call.perform (.register parent g cell condition pc now) e.agenda := by
      simp only [Agenda.Call.perform, registered]
    exact ok.register rfl rfl performed (Agenda.gains_register registered) there

/-- Whatever a run does, a continuation is lost only if a fiber has ended or has changed its
state. -/
lemma Changes.passes (changes : Changes P e e') (ok : e.Staffed names flying) :
    e'.Staffed names flying ∧ Passes (fun _ _ f => P.leaves f) e e' := by
  induction changes with
  | refl => exact ok.of_fibers rfl id id
  | tail _ change ih =>
    obtain ⟨ok', passes⟩ := change.passes ih.1
    exact ⟨ok', ih.2.trans passes⟩

/-- Settling a continuation that is in flight loses at most this one. -/
lemma Staffed.settle (ok : e.Staffed names flying) (flies : id ∈ flying) :
    (Session.settle id e).Staffed names (flying.erase id) ∧
      Passes (fun lost _ _ => lost = id) e (Session.settle id e) := by
  unfold Session.settle
  cases settled : e.agenda.rearmOrRetire id with
  | error err =>
    have gone : e.agenda.get? id = none := by
      cases found : e.agenda.get? id with
      | none => rfl
      | some k =>
        simp only [Agenda.rearmOrRetire, found] at settled
        split at settled <;> cases settled
    exact ok.of_agenda rfl (ok.waits.erase gone) ok.indexed .inl (.refl _)
  | ok result =>
    obtain ⟨cell, agenda⟩ := result
    exact ok.sheds rfl (ok.waits.serves (.rearmOrRetire flies settled))
      (Agenda.sheds_rearmOrRetire settled) (Agenda.loses_rearmOrRetire ok.waits.tidy settled)

end FiberVM.Engine

namespace FiberVM

open Engine

variable {P : Permit} {e e' : Engine} {names : List String} {flown below : List ContinuationId}
  {a : Activation} {op : Opcode} {callers : Callers} {p : Progress} {id : ContinuationId}

/-- A run that ends may settle the continuation for which it has begun. -/
lemma Settles.passes (settles : Settles P id e e') (ok : e.Staffed names flown)
    (flies : id ∈ flown) :
    ∃ flown', (flown.erase id).Subperm flown' ∧ e'.Staffed names flown' ∧
      Passes (fun lost _ f => P.leaves f ∨ lost = id) e e' := by
  rcases settles with changes | ⟨e₁, before, after⟩
  · obtain ⟨ok', passes⟩ := changes.passes ok
    exact ⟨flown, (List.erase_sublist).subperm, ok', passes.mono fun _ _ _ => .inl⟩
  · obtain ⟨ok₁, passes₁⟩ := before.passes ok
    obtain ⟨ok₂, passes₂⟩ := ok₁.settle flies
    obtain ⟨ok', passes'⟩ := after.passes ok₂
    refine ⟨_, List.Subperm.refl _, ok', ?_⟩
    exact ((passes₁.mono fun _ _ _ => .inl).trans (passes₂.mono fun _ _ _ => .inr)).trans
      (passes'.mono fun _ _ _ => .inl)

/-! ## Flights -/

/-- The continuations that an update has yet to deal with. -/
structure Flight where
  /-- The one for which a fiber runs. -/
  running : Option ContinuationId
  /-- Those that are to fire after it. -/
  left : List ContinuationId

/-- Nothing is in flight. -/
def Flight.idle : Flight := ⟨none, []⟩

/-- The continuations of a flight. -/
def Flight.ids (x : Flight) : List ContinuationId := x.running.toList ++ x.left

/-- What is in flight for the request at the bottom of a stack. -/
def Callers.flight (callers : Callers) : Flight :=
  match callers.firing? with
  | some (id, rest) => ⟨some id, rest⟩
  | none => .idle

/-- What is in flight for a request that is being carried out. -/
def Turn.flight : Turn → Flight
  | run s => s.callers.flight
  | fire due _ => ⟨none, due⟩

/-- What is in flight for a request, if it is not answered. -/
def Progress.flight? : Progress → Option Flight
  | running t => some t.flight
  | awaiting _ s => some s.callers.flight
  | done _ _ => none

/-- How a run that executes an instruction or ends changes what is in flight. -/
inductive Flies (P : Permit) (e : Engine) (x : Flight) (p : Progress) : Prop
  | on (flight : p.flight? = some x) (changes : Changes P e p.engine)
  | answer (idle : x = .idle) (answered : p.flight? = none) (changes : Changes P e p.engine)
  /-- The run for a continuation has ended. -/
  | land {id : ContinuationId} {rest : List ContinuationId} (running : x = ⟨some id, rest⟩)
      (flight : p.flight? = some ⟨none, rest⟩) (settles : Settles P id e p.engine)

lemma Unwinds.flies (unwinds : Unwinds P e callers p) : Flies P e callers.flight p := by
  induction unwinds with
  | answer bottom changes =>
    refine .answer ?_ rfl changes
    rw [Callers.flight, bottom]
  | fire settles => exact .land rfl rfl settles
  | resume changes => exact .on rfl changes
  | fail _ ih => exact ih

lemma Session.Goes.flies (goes : Session.Goes P a op callers e p) : Flies P e callers.flight p := by
  cases goes with
  | on _ changes => exact .on rfl changes
  | launch _ _ _ _ changes _ => exact .on rfl changes
  | await _ changes => exact .on rfl changes
  | back _ unwinds => exact unwinds.flies
  | unwind unwinds => exact unwinds.flies

/-- What is in flight afterwards was so before, and a continuation is lost because a fiber has ended
or has changed its state, or because its run has ended. -/
lemma Flies.passes {x} (flies : Flies P e x p) (ok : e.Staffed names flown)
    (enough : (x.ids ++ below).Subperm flown) :
    ∃ flown', p.engine.Staffed names flown' ∧
      (p.flight?.toList.flatMap Flight.ids ++ below).Subperm flown' ∧
      Passes (fun lost _ f => P.leaves f ∨ x.running = some lost) e p.engine := by
  cases flies with
  | on flight changes =>
    obtain ⟨ok', passes⟩ := changes.passes ok
    refine ⟨flown, ok', ?_, passes.mono fun _ _ _ => .inl⟩
    rw [flight, Option.toList_some, List.flatMap_singleton]
    exact enough
  | answer idle answered changes =>
    obtain ⟨ok', passes⟩ := changes.passes ok
    subst idle
    refine ⟨flown, ok', ?_, passes.mono fun _ _ _ => .inl⟩
    rw [answered]
    exact enough
  | @land id rest running flight settles =>
    subst running
    have listed : id ∈ flown := enough.subset List.mem_cons_self
    obtain ⟨flown', fewer, ok', passes⟩ := settles.passes ok listed
    refine ⟨flown', ok', ?_, passes.mono fun _ _ _ => Or.imp_right fun same =>
      congrArg some same.symm⟩
    have left := enough.erase id
    rw [flight, Option.toList_some, List.flatMap_singleton]
    rw [Flight.ids, Option.toList_some, List.singleton_append, List.cons_append,
      List.erase_cons_head] at left
    exact left.trans fewer

/-! ## What happens behind the back of a run -/

namespace Engine

/-- Fibers, roots, functions and the count of searches are left alone, whatever becomes of heap and
agenda. -/
structure Apart (e e' : Engine) : Prop where
  fibers : e'.fibers = e.fibers
  roots : e'.roots = e.roots
  main : e'.main = e.main
  searches : e'.searches = e.searches
  catalog : e'.catalog = e.catalog

/-- Something happens to an engine: a change, or what no run does but what leaves fibers alone. -/
inductive Advance (P : Permit) (e e' : Engine) : Prop
  | change (change : Change P e e')
  | apart (apart : Apart e e')

/-- Whatever happens to an engine in time. -/
abbrev Advances (P : Permit) : Engine → Engine → Prop := Relation.ReflTransGen (Advance P)

lemma Changes.advances (changes : Changes P e e') : Advances P e e' :=
  Relation.ReflTransGen.mono (fun _ _ => .change) _ _ changes

lemma Apart.advances (apart : Apart e e') : Advances P e e' := .single (.apart apart)

lemma apart_settle (id : ContinuationId) (e : Engine) : Apart e (Session.settle id e) := by
  unfold Session.settle
  split <;> exact ⟨rfl, rfl, rfl, rfl, rfl⟩

/-- Roots and the main fiber stay among the fibers that were made, whatever happens. -/
lemma Advances.rooted (advances : Advances P e e') (rooted : e.Rooted) : e'.Rooted := by
  induction advances with
  | refl => exact rooted
  | tail _ advance ih =>
    cases advance with
    | change change => exact Changes.rooted (.single change) ih
    | apart apart =>
      intro f named
      rw [apart.roots, apart.main] at named
      rw [apart.fibers]
      exact ih f named

lemma Advances.catalog (advances : Advances P e e') : e'.catalog = e.catalog := by
  induction advances with
  | refl => rfl
  | tail _ advance ih =>
    rw [← ih]
    cases advance with
    | change change => exact Changes.catalog (.single change)
    | apart apart => exact apart.catalog

end Engine

lemma Settles.advances (settles : Settles P id e e') : Advances P e e' := by
  rcases settles with changes | ⟨e₁, before, after⟩
  · exact changes.advances
  · exact (before.advances.tail (.apart (apart_settle id e₁))).trans after.advances

lemma Flies.advances {x} (flies : Flies P e x p) : Advances P e p.engine := by
  cases flies with
  | on _ changes => exact changes.advances
  | answer _ _ changes => exact changes.advances
  | land _ _ settles => exact settles.advances

end FiberVM
