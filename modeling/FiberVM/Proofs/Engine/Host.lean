import FiberVM.Engine.Host
import FiberVM.Proofs.Engine.Session

/-!
# What calls of the host do to an engine

Requests of the host, and calls that are carried out at once, keep an engine sound. What the host
holds stays the same, unless it hands references over or is given some.

A fiber that the host resumes may have lost its cell. Its run does not begin then; in all other
cases nothing that is used has been dropped.
-/

namespace FiberVM.Engine

variable {c : Conduct} {H K L : Multiset Ref} {e e' : Engine} {f : FiberId} {r : Ref} {v : Value}
  {x : Fiber}

/-! ## Requests -/

/-- A launch is sound. -/
lemma follows_launch (ok : e.Sound c ⟨[], []⟩ H 0) (name : String) :
    (e.launch name).Follows c H none e := by
  have spawned := requests_spawn name [] e (ok.cast (zero_add H).symm rfl)
  unfold launch
  cases run : spawn name [] e with
  | error err e₁ =>
    rw [run] at spawned
    exact .done spawned.1 spawned.2.2 _
  | ok s e₁ =>
    rw [run] at spawned
    obtain ⟨related, ready⟩ := spawned
    exact .trans related (Session.follows_start_spawned (.launch s.fiber s.cell) ready rfl rfl
      (fun hc => ⟨rfl, rfl, ready.rootless hc⟩) 0)

lemma follows_update (ok : e.Sound c ⟨[], []⟩ H 0) (dt : Binary64) :
    (e.update dt).Follows c H none e := by
  have taken : e.agenda.Evolves (e.agenda.takeReady (e.now.add dt)).2 := .call (.takeReady _) _
  have ok' := (ok.sheds taken (e.agenda.sheds_takeReady (e.now.add dt))).2.cast (zero_add H) rfl
  exact ⟨ok'.of_same rfl rfl rfl rfl rfl rfl rfl, .of_agenda taken rfl, trivial⟩

/-- The engine with a fiber that is no longer suspended. -/
def awaken (e : Engine) (f : FiberId) (x : Fiber) : Engine :=
  e.setFiber f { x with suspended := none }

/-- A fiber is not resumed, or a run of it is started. -/
lemma resume_eq (e : Engine) (f : FiberId) :
    (∃ err, e.resume f = .done e (.resumed (.error err))) ∨
      ∃ x pc, e.fiber? f = some x ∧ x.suspended = some pc ∧
        e.resume f = Session.start f 0 pc .resume (e.awaken f x) := by
  unfold resume
  cases hx : e.fiber? f with
  | none => exact .inl ⟨_, rfl⟩
  | some x =>
    cases hpc : x.suspended with
    | none =>
      refine .inl ⟨.fault .notSuspended, ?_⟩
      simp only [hpc]
    | some pc =>
      refine .inr ⟨x, pc, rfl, hpc, ?_⟩
      simp only [hpc]
      rfl

lemma sound_awaken {scene} (ok : e.Sound c scene K L) (hx : e.fiber? f = some x) :
    (e.awaken f x).Sound c scene K L :=
  ok.setFiber hx rfl (fun _ builtin => builtin) rfl rfl

/-- A fiber that is resumed may have lost its cell, so the fault can be any. -/
lemma sound_resume (ok : e.Sound c ⟨[], []⟩ H 0) (f : FiberId) :
    (e.resume f).Sound c H ∧ e.agenda.Evolves (e.resume f).engine.agenda ∧
      (e.resume f).Serves none := by
  rcases e.resume_eq f with ⟨err, refused⟩ | ⟨x, pc, hx, -, started⟩
  · rw [refused]
    exact ⟨ok, .refl _, trivial⟩
  · have awake := sound_awaken ok hx
    have failed : ∀ (e' : Engine) (fault : Fault), e'.Sound c ⟨[], []⟩ H 0 →
        e'.agenda.Evolves (e'.recordFault f pc fault).2.reap.agenda ∧
          (e'.recordFault f pc fault).2.reap.Sound c ⟨[], []⟩ H 0 := by
      intro e' fault ok'
      -- Which faults are allowed matters only to hosts that own their references.
      have recorded : Precedes .free e' (e'.recordFault f pc fault).2 :=
        precedes_recordFault e' f pc nofun
      obtain ⟨reaped, ok''⟩ := turns_reap _ (sound_recordFault ok' (fun _ => nofun) pc fault)
      exact ⟨recorded.agenda.trans reaped.agenda, ok''⟩
    rw [started]
    unfold Session.start
    by_cases startable : Activation.Startable c f (e.awaken f x)
    · have begun := Activation.runs_begin f none 0 pc (e.awaken f x) ⟨awake, startable⟩
      cases run : Activation.begin f none 0 pc (e.awaken f x) with
      | ok a e' =>
        rw [run] at begun
        exact ⟨Session.sound_begun begun.2 .resume rfl rfl trivial, begun.1.agenda, rfl⟩
      | error fault e' =>
        rw [run] at begun
        obtain ⟨evolved, ok'⟩ := failed e' fault begun.2.2
        exact ⟨ok', begun.1.agenda.trans evolved, trivial⟩
    · obtain ⟨fault, refused⟩ := Activation.begin_of_not_startable awake startable none 0 pc
      obtain ⟨evolved, ok'⟩ := failed (e.awaken f x) fault awake
      rw [refused]
      exact ⟨ok', evolved, trivial⟩

/-! ## Calls that are carried out at once -/

lemma sound_post (ok : e.Sound c ⟨[], []⟩ H 0) (list event : String) :
    (e.post list event).2.Sound c ⟨[], []⟩ H 0 ∧ e.agenda.Evolves (e.post list event).2.agenda := by
  unfold post
  cases posted : e.agenda.post list event with
  | error err => exact ⟨ok, .refl _⟩
  | ok agenda =>
    obtain ⟨related, ok'⟩ := ok.sheds (Agenda.evolves_post posted) (Agenda.sheds_post posted)
    exact ⟨ok'.cast (zero_add H) rfl, related.agenda⟩

/-- The cell of a fiber that is taken comes into the hand. -/
lemma Sound.retainFiber {scene} (ok : e.Sound c scene K L)
    (retained : e.retainFiber f = some (r, e')) :
    e'.Sound c scene ({r} + K) L ∧ e'.agenda = e.agenda ∧ e'.cellOf? f = some (some r) := by
  obtain ⟨x, hx, retained⟩ := Option.bind_eq_some_iff.1 retained
  obtain ⟨cell, hcell, retained⟩ := Option.bind_eq_some_iff.1 retained
  obtain ⟨h, taken, retained⟩ := Option.bind_eq_some_iff.1 retained
  cases retained
  obtain ⟨related, heap⟩ := Heap.precedes_retain? taken ok.heap
  refine ⟨ok.of_heap related (heap.cast (add_assoc _ _ _).symm rfl), rfl, ?_⟩
  change e.cellOf? f = _
  rw [cellOf?_of_fiber? hx, hcell]

/-- A registration by the host is sound. -/
lemma sound_register (ok : e.Sound c ⟨[], []⟩ H 0) (parent : Option ContinuationId) (f : FiberId)
    (condition : Condition) (pc : Nat) :
    (e.register parent f condition pc).2.Sound c ⟨[], []⟩ H 0 ∧
      e.agenda.Evolves (e.register parent f condition pc).2.agenda := by
  unfold register
  cases retained : e.retainFiber f with
  | none => exact ⟨ok, .refl _⟩
  | some taken =>
    obtain ⟨cell, e'⟩ := taken
    obtain ⟨ok', agenda, bound⟩ := ok.retainFiber retained
    simp only
    cases registered : e'.agenda.register parent f cell condition pc e'.now with
    | error err =>
      obtain ⟨released, ok''⟩ := turns_release cell e' ok'
      exact ⟨ok'', agenda ▸ released.agenda⟩
    | ok entry =>
      have evolved := Agenda.evolves_register registered
      have gained := Agenda.gains_register registered
      exact ⟨(ok'.gains evolved gained fun _ => bound).2, agenda ▸ evolved⟩

lemma sound_registerAt (ok : e.Sound c ⟨[], []⟩ H 0) (parent : Option ContinuationId) (f : FiberId)
    (expiry : Binary64) (pc : Nat) (recurrence : Int64) (delta : Binary64) :
    (e.registerAt parent f expiry pc recurrence delta).2.Sound c ⟨[], []⟩ H 0 ∧
      e.agenda.Evolves (e.registerAt parent f expiry pc recurrence delta).2.agenda := by
  unfold registerAt
  cases retained : e.retainFiber f with
  | none => exact ⟨ok, .refl _⟩
  | some taken =>
    obtain ⟨cell, e'⟩ := taken
    obtain ⟨ok', agenda, bound⟩ := ok.retainFiber retained
    have evolved : e'.agenda.Evolves
        (e'.agenda.registerAt parent f cell expiry pc recurrence delta).2 :=
      .call (.registerAt parent f cell expiry pc recurrence delta) _
    have gained := e'.agenda.gains_registerAt parent f cell expiry pc recurrence delta
    exact ⟨(ok'.gains evolved gained fun _ => bound).2, agenda ▸ evolved⟩

/-- So is a cancellation. -/
lemma sound_cancel (ok : e.Sound c ⟨[], []⟩ H 0) (id : ContinuationId) :
    (e.cancel id).2.Sound c ⟨[], []⟩ H 0 ∧ e.agenda.Evolves (e.cancel id).2.agenda := by
  unfold cancel
  cases e.agenda.get? id with
  | none => exact ⟨ok, .refl _⟩
  | some k =>
    obtain ⟨cancelled, ok₁⟩ := ok.sheds (.call (.cancel id) _) (e.agenda.sheds_cancel id)
    obtain ⟨released, ok₂⟩ := turns_releaseAll (e.agenda.cancel id).1 _ ok₁
    obtain ⟨reaped, ok₃⟩ := turns_reap _ ok₂
    exact ⟨ok₃, ((cancelled.trans released).trans reaped).agenda⟩

/-- A global variable takes over what its value owns. -/
lemma runs_declareGlobal (name : String) (other : c ≠ .free → v.instance? = none) :
    Heap.Runs c (Heap.Sound c (v.refs + K) L) (declareGlobal name v) (fun _ => Heap.Sound c K L)
      (Heap.Sound c K L) := by
  refine Triple.get.bind fun h => ?_
  cases found : h.lookup? .global (.name name) with
  | some r =>
    refine (Heap.runs_store other).pre ?_
    rintro _ ⟨ok, rfl⟩
    exact ⟨⟨ok, ok.live_of_lookup? found⟩, fun hc f => ok.plain_of_lookup? found hc f⟩
  | none =>
    have shared : ∀ f, Owner.global ≠ .fiber f := fun _ => nofun
    refine ((Heap.runs_declare name shared other).pre fun _ hs => hs.1).bind fun r => ?_
    exact .pure fun _ hs => hs.1

end FiberVM.Engine
