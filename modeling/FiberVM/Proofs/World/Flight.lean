import FiberVM.Proofs.Engine.Flight
import FiberVM.Proofs.World

/-!
# Requests and what they have in flight

While the host is called by a run it may start further requests, so several updates can have
continuations in flight at a time (`World.flights`). No continuation is in flight twice
(`World.Staffed`). Whatever happens, a continuation is lost for one of a few reasons
(`World.Excuse`), and what an update has left changes only when the continuation at its head has its
turn (`World.Move.left`).
-/

namespace FiberVM

open Engine

variable {c : Conduct} {source : String → Option Image} {config : Config} {names : List String}
  {w w' : World} {H H' : Multiset Ref} {e e' : Engine} {calls : List (HostCall × Session)}
  {p : Progress} {flown : List ContinuationId}
  {C : ContinuationId → ContinuationId → FiberId → Prop}

/-! ## What a host does -/

namespace Engine

lemma retainFiber_eq {f cell} (retained : e.retainFiber f = some (cell, e')) :
    (e.fiber? f).isSome ∧ ∃ heap, e' = { e with heap } := by
  obtain ⟨x, found, retained⟩ := Option.bind_eq_some_iff.1 retained
  obtain ⟨cell, -, retained⟩ := Option.bind_eq_some_iff.1 retained
  obtain ⟨heap, -, retained⟩ := Option.bind_eq_some_iff.1 retained
  cases retained
  exact ⟨found ▸ rfl, heap, rfl⟩

/-- An event takes nothing out of flight. -/
lemma Staffed.post (ok : e.Staffed names flown) (list event : String) :
    (e.post list event).2.Staffed names flown ∧ Passes C e (e.post list event).2 := by
  unfold Engine.post
  cases posted : e.agenda.post list event with
  | error err => exact ok.aside rfl rfl
  | ok agenda =>
    have waits := ok.waits.serves (.post list event)
    simp only [Agenda.Call.perform, posted] at waits
    exact ok.sheds rfl waits (Agenda.sheds_post posted) (Agenda.loses_post posted)

/-- Neither does a registration. -/
lemma Staffed.registerFor (ok : e.Staffed names flown) (parent : Option ContinuationId)
    (f : FiberId) (condition : Condition) (pc : Nat) :
    (e.register parent f condition pc).2.Staffed names flown ∧
      Passes C e (e.register parent f condition pc).2 := by
  unfold Engine.register
  cases retained : e.retainFiber f with
  | none => exact ok.aside rfl rfl
  | some taken =>
    obtain ⟨cell, e'⟩ := taken
    obtain ⟨there, heap, rfl⟩ := retainFiber_eq retained
    dsimp only
    cases registered : e.agenda.register parent f cell condition pc e.now with
    | error err => exact ok.aside rfl rfl
    | ok entry =>
      have performed : entry.2 =
          Agenda.Call.perform (.register parent f cell condition pc e.now) e.agenda := by
        simp only [Agenda.Call.perform, registered]
      exact ok.register rfl rfl performed (Agenda.gains_register registered) there

lemma Staffed.registerAt (ok : e.Staffed names flown) (parent : Option ContinuationId) (f : FiberId)
    (expiry : Binary64) (pc : Nat) (recurrence : Int64) (delta : Binary64) :
    (e.registerAt parent f expiry pc recurrence delta).2.Staffed names flown ∧
      Passes C e (e.registerAt parent f expiry pc recurrence delta).2 := by
  unfold Engine.registerAt
  cases retained : e.retainFiber f with
  | none => exact ok.aside rfl rfl
  | some taken =>
    obtain ⟨cell, e'⟩ := taken
    obtain ⟨there, heap, rfl⟩ := retainFiber_eq retained
    let call : Agenda.Call := .registerAt parent f cell expiry pc recurrence delta
    have performed : (e.agenda.registerAt parent f cell expiry pc recurrence delta).2 =
        call.perform e.agenda := rfl
    exact ok.register rfl rfl performed
      (e.agenda.gains_registerAt parent f cell expiry pc recurrence delta) there

/-- A host that cancels a continuation loses what is beneath it, and what is bound to fibers that
are reaped. -/
lemma Staffed.cancel (ok : e.Staffed names flown) (id : ContinuationId) :
    (e.cancel id).2.Staffed names flown ∧ Passes (fun _ top _ => top = id) e (e.cancel id).2 := by
  unfold Engine.cancel
  cases e.agenda.get? id with
  | none => exact ok.aside rfl rfl
  | some k =>
    let cancelled : Engine := { e with agenda := (e.agenda.cancel id).2 }
    obtain ⟨ok₁, passes⟩ : cancelled.Staffed names flown ∧
        Passes (fun _ top _ => top = id) e cancelled :=
      ok.sheds rfl (ok.waits.serves (.cancel id)) (e.agenda.sheds_cancel id)
        (Agenda.loses_cancel ok.waits.tidy id)
    have rest : Changes .nothing cancelled (cancelled.releaseAll (e.agenda.cancel id).1).reap :=
      ((aside_releaseAll _).changes cancelled).trans (changes_reap _)
    obtain ⟨ok₂, passes'⟩ := rest.passes ok₁
    exact ⟨ok₂, passes.trans (passes'.mono fun _ _ _ => False.elim)⟩

end Engine

/-- What a host does at once loses something only if a fiber ends or the host cancels a
continuation. -/
lemma Act.passes (done : Act c e H e' H') (ok : e.Staffed names flown) :
    e'.Staffed names flown ∧ Passes (fun _ top _ => e' = (e.cancel top).2) e e' := by
  cases done with
  | post list event => exact ok.post list event
  | register parent fiber condition pc => exact ok.registerFor parent fiber condition pc
  | registerAt parent fiber expiry pc recurrence delta =>
    exact ok.registerAt parent fiber expiry pc recurrence delta
  | cancel id =>
    obtain ⟨ok', passes⟩ := ok.cancel id
    refine ⟨ok', passes.mono ?_⟩
    rintro _ _ _ rfl
    rfl
  | declareGlobal name v =>
    cases Engine.declareGlobal name v e.heap with
    | ok x heap => exact ok.aside rfl rfl
    | error fault heap => exact ok.aside rfl rfl
  | alloc | allocFull | copy | release | takeFaults | print | addFunction | addLibrary | meddle =>
    exact ok.aside rfl rfl

/-- A function or a library is registered. -/
inductive Engine.Registers (e : Engine) : Engine → Prop
  | function (f : Native) : Registers e (e.addFunction f)
  | library (l : Library) : Registers e (e.addLibrary l)

/-- All else is left alone. -/
lemma Engine.Registers.eq (registers : e.Registers e') : ∃ catalog, e' = { e with catalog } := by
  cases registers with
  | function f => exact ⟨_, rfl⟩
  | library l => exact ⟨_, rfl⟩

/-- Whatever else a host does at once leaves fibers alone, but those that are reaped. -/
lemma Act.advances {P} (done : Act c e H e' H') : Advances P e e' ∨ e.Registers e' := by
  cases done with
  | addFunction f => exact .inr (.function f)
  | addLibrary l => exact .inr (.library l)
  | post list event =>
    unfold Engine.post
    split <;> exact .inl (Apart.advances ⟨rfl, rfl, rfl, rfl, rfl⟩)
  | register parent fiber condition pc =>
    unfold Engine.register
    cases retained : e.retainFiber fiber with
    | none => exact .inl .refl
    | some taken =>
      obtain ⟨-, heap, same⟩ := retainFiber_eq retained
      simp only [same]
      split <;> exact .inl (Apart.advances ⟨rfl, rfl, rfl, rfl, rfl⟩)
  | registerAt parent fiber expiry pc recurrence delta =>
    unfold Engine.registerAt
    cases retained : e.retainFiber fiber with
    | none => exact .inl .refl
    | some taken =>
      obtain ⟨-, heap, same⟩ := retainFiber_eq retained
      simp only [same]
      exact .inl (Apart.advances ⟨rfl, rfl, rfl, rfl, rfl⟩)
  | cancel id =>
    unfold Engine.cancel
    split
    · exact .inl .refl
    · have apart : Apart e ({ e with agenda := (e.agenda.cancel id).2 }.releaseAll
          (e.agenda.cancel id).1) :=
        ⟨rfl, rfl, rfl, rfl, rfl⟩
      exact .inl (apart.advances.trans (changes_reap _).advances)
  | declareGlobal name v =>
    cases Engine.declareGlobal name v e.heap <;> exact .inl
      (Apart.advances ⟨rfl, rfl, rfl, rfl, rfl⟩)
  | alloc | allocFull | copy | release | takeFaults | print | meddle =>
    exact .inl (Apart.advances ⟨rfl, rfl, rfl, rfl, rfl⟩)

/-- A request other than an update has nothing in flight at its beginning. -/
lemma Request.flies (q : Request) (e : Engine) :
    (∃ dt, q = .update dt) ∨ Flies .nothing e .idle (q.start e) := by
  have begun : ∀ {fiber pc callers e₁}, Callers.flight callers = .idle → Changes .nothing e e₁ →
      Flies .nothing e .idle (Session.start fiber 0 pc callers e₁) := by
    intro fiber pc callers e₁ idle changes
    rcases Session.start_cases (P := .nothing) fiber 0 pc callers e₁ with
      ⟨a, e₂, started, -, begun⟩ | unwinds
    · rw [started]
      exact .on (congrArg some idle) (changes.trans begun)
    · have flies := (unwinds.trans changes).flies
      rw [idle] at flies
      exact flies
  cases q with
  | update dt => exact .inl ⟨dt, rfl⟩
  | launch name =>
    have spawned := meets_spawn (P := .nothing) name [] e trivial
    refine .inr ?_
    change Flies .nothing e .idle (e.launch name)
    unfold Engine.launch
    cases run : spawn name [] e with
    | error err e₁ =>
      rw [run] at spawned
      exact .answer rfl rfl spawned.1
    | ok s e₁ =>
      rw [run] at spawned
      exact begun rfl spawned.1
  | resume fiber =>
    refine .inr ?_
    rcases e.resume_eq fiber with ⟨err, refused⟩ | ⟨x, pc, found, -, started⟩
    · rw [Request.start, refused]
      exact .answer rfl rfl .refl
    · rw [Request.start, started]
      exact begun rfl (.single (.alter found (.of_stack rfl rfl rfl (.inr fun _ => nofun) rfl
        fun _ => .inl rfl)))

namespace Session

/-- The first continuation that is due begins to run or is passed over. -/
lemma fire_cases (id : ContinuationId) (rest : List ContinuationId) (ok : e.Staffed names flown) :
    ∃ running, (fire (id :: rest) e).flight? = some ⟨running, rest⟩ ∧
      (running = none ∨ running = some id) ∧ Changes .nothing e (fire (id :: rest) e).engine := by
  cases registered : e.agenda.get? id with
  | none =>
    rw [fire_of_gone registered]
    exact ⟨none, rfl, .inl rfl, .refl⟩
  | some k =>
    have there := ok.manned (Agenda.bond?_of_get? registered)
    obtain ⟨x, present⟩ := Option.isSome_iff_exists.1 there
    have begun := Activation.does_begin (P := .nothing) k.fiber (some id) 0 k.pc e trivial
    rw [fire_of_registered registered present]
    cases run : Activation.begin k.fiber (some id) 0 k.pc e with
    | ok a e' =>
      rw [run] at begun
      exact ⟨some id, rfl, .inr rfl, begun.1⟩
    | error fault e' =>
      rw [run] at begun
      exact ⟨none, rfl, .inl rfl,
        (begun.1.trans (changes_recordFault e' _ _ fault)).trans (changes_reap _)⟩

/-- Whatever is due, nothing is changed behind the back of an engine but its agenda. -/
lemma changes_fire (due : List ContinuationId) (e : Engine) :
    ∃ agenda cells, Changes .nothing ({ e with agenda }.releaseAll cells) (fire due e).engine := by
  cases due with
  | nil => exact ⟨e.agenda, [], changes_reap e⟩
  | cons id rest =>
    cases registered : e.agenda.get? id with
    | none =>
      rw [fire_of_gone registered]
      exact ⟨e.agenda, [], .refl⟩
    | some k =>
      cases present : e.fiber? k.fiber with
      | none =>
        rw [fire_of_unmanned registered present]
        exact ⟨_, _, .refl⟩
      | some x =>
        have begun := Activation.does_begin (P := .nothing) k.fiber (some id) 0 k.pc e trivial
        rw [fire_of_registered registered present]
        cases run : Activation.begin k.fiber (some id) 0 k.pc e with
        | ok a e' =>
          rw [run] at begun
          exact ⟨e.agenda, [], begun.1⟩
        | error fault e' =>
          rw [run] at begun
          exact ⟨e.agenda, [],
            (begun.1.trans (changes_recordFault e' _ _ fault)).trans (changes_reap _)⟩

/-- What the run on top may do in its next step: its fiber changes its state, closes a list or looks
a name up only if the instruction says so. -/
def permit (s : Session) : Permit where
  keeps _ _ := True
  leaves f := ∃ inline budget, s.current.fetch = .ok (.gotoState, inline, budget) ∧
    s.current.fiber = f
  closes f := ∃ inline budget, s.current.fetch = .ok (.paramsEnd, inline, budget) ∧
    s.current.fiber = f
  looks f := ∃ op inline budget, s.current.fetch = .ok (op, inline, budget) ∧
    (op = .call ∨ op = .callDynamic) ∧ s.current.fiber = f
  notes f i := ∃ budget, s.current.fetch = .ok (.call, i, budget) ∧ s.current.fiber = f

/-- A session goes on. -/
lemma flies_step (s : Session) : Flies (permit s) s.engine s.callers.flight s.step := by
  cases fetched : s.current.fetch with
  | error fault => exact (unwinds_step fetched).flies
  | ok instruction =>
    obtain ⟨op, inline, budget⟩ := instruction
    refine (goes_step fetched ⟨fun _ _ _ => trivial, fun _ => trivial, ?_, ?_, fun call =>
      ?_, ?_⟩).flies
    · rintro rfl
      exact ⟨inline, budget, fetched, rfl⟩
    · rintro rfl
      exact ⟨inline, budget, fetched, rfl⟩
    · exact ⟨op, inline, budget, fetched, call, rfl⟩
    · rintro rfl
      exact ⟨budget, fetched, rfl⟩

end Session

namespace World

/-! ## Flights -/

/-- What is in flight for the requests that are being carried out, the latest first. -/
def flights : World → List Flight
  | host _ calls _ => calls.map (·.2.callers.flight)
  | work t calls _ => t.flight :: calls.map (·.2.callers.flight)

lemma flights_after (calls : List (HostCall × Session)) (H : Multiset Ref) (p : Progress) :
    (after calls H p).flights = p.flight?.toList ++ calls.map (·.2.callers.flight) := by
  cases p <;> rfl

/-- The engine of a world is staffed, with all that is in flight. -/
def Staffed (names : List String) (w : World) : Prop :=
  ∃ flown, w.engine.Staffed names flown ∧ (w.flights.flatMap Flight.ids).Subperm flown

/-- The next instruction changes the state of a fiber. -/
def Leaves (w : World) (f : FiberId) : Prop :=
  ∃ s calls H inline budget, w = work (.run s) calls H ∧
    s.current.fetch = .ok (.gotoState, inline, budget) ∧ s.current.fiber = f

/-- The host cancels a continuation. -/
def Asked (w w' : World) (id : ContinuationId) : Prop :=
  ∃ e calls H H', w = host e calls H ∧ w' = host (e.cancel id).2 calls H'

/-- Why a continuation is lost though no fiber has ended. -/
inductive Excuse (w w' : World) (lost top : ContinuationId) (f : FiberId) : Prop
  /-- Its run has ended. -/
  | settled {x : Flight} {rest : List Flight} (flights : w.flights = x :: rest)
      (running : x.running = some lost)
  | left (leaves : w.Leaves f)
  | asked (asked : w.Asked w' top)

/-- The latest request goes on. -/
lemma Staffed.flies {P} {x : Flight} {rest : List Flight} (ok : w.Staffed names)
    (flights : w.flights.flatMap Flight.ids = x.ids ++ rest.flatMap Flight.ids)
    (flies : Flies P w.engine x p) (same : calls.map (·.2.callers.flight) = rest)
    (excused : ∀ lost top f, P.leaves f ∨ x.running = some lost → C lost top f) :
    (after calls H p).Staffed names ∧ Passes C w.engine (after calls H p).engine := by
  obtain ⟨flown, staffed, enough⟩ := ok
  rw [flights] at enough
  obtain ⟨flown', staffed', enough', passes⟩ := flies.passes staffed enough
  rw [engine_after]
  refine ⟨⟨flown', ?_, ?_⟩, passes.mono excused⟩
  · rw [engine_after]
    exact staffed'
  · rw [flights_after, List.flatMap_append, same]
    exact enough'

/-- An update puts in flight what is due. -/
lemma Staffed.update (ok : (host e calls H).Staffed names) (dt : Binary64) :
    (after calls H (e.update dt)).Staffed names ∧ Passes C e
      (after calls H (e.update dt)).engine := by
  obtain ⟨flown, staffed, enough⟩ := ok
  obtain ⟨staffed', passes⟩ : (after calls H (e.update dt)).engine.Staffed names
        (flown ++ (e.agenda.takeReady (e.now.add dt)).1) ∧
          Passes C e (after calls H (e.update dt)).engine :=
    staffed.sheds rfl (staffed.waits.serves (.takeReady _)) (e.agenda.sheds_takeReady _)
      (e.agenda.loses_takeReady _)
  refine ⟨⟨_, staffed', ?_⟩, passes⟩
  exact List.Subperm.trans
    ((List.subperm_append_left (e.agenda.takeReady (e.now.add dt)).1).2 enough)
    List.perm_append_comm.subperm

/-- Every move keeps a world staffed, and loses continuations only for the reasons above. -/
lemma Move.passes (move : Move c w w') (ok : w.Staffed names) :
    w'.Staffed names ∧ Passes (Excuse w w') w.engine w'.engine := by
  cases move with
  | @act e H e' H' calls done =>
    obtain ⟨flown, staffed, enough⟩ := ok
    obtain ⟨staffed', passes⟩ := done.passes staffed
    refine ⟨⟨flown, staffed', enough⟩, passes.mono fun _ top _ same =>
      .asked ⟨e, calls, H, H', rfl, ?_⟩⟩
    rw [← same]
  | @request e H calls q =>
    rcases q.flies e with ⟨dt, rfl⟩ | flies
    · exact ok.update dt
    · refine ok.flies (x := .idle) rfl flies rfl ?_
      rintro _ _ _ (impossible | impossible)
      · exact impossible.elim
      · cases impossible
  | @answer e H calls call s results =>
    have unwinds := s.unwinds_answer (P := .nothing) e call results
    refine ok.flies (x := s.callers.flight) rfl unwinds.flies rfl ?_
    rintro _ _ _ (impossible | running)
    · exact impossible.elim
    · exact .settled rfl running
  | @step H calls t =>
    cases t with
    | run s =>
      refine ok.flies (x := s.callers.flight) rfl (Session.flies_step s) rfl ?_
      rintro _ _ _ (⟨inline, budget, fetched, fiber⟩ | running)
      · exact .left ⟨s, calls, H, inline, budget, rfl, fetched, fiber⟩
      · exact .settled rfl running
    | fire due e =>
      cases due with
      | nil =>
        refine ok.flies (x := .idle) rfl (.answer rfl rfl (changes_reap (P := .nothing) e)) rfl ?_
        rintro _ _ _ (impossible | impossible)
        · exact impossible.elim
        · cases impossible
      | cons id rest =>
        obtain ⟨flown, staffed, enough⟩ := ok
        have staffed : e.Staffed names flown := staffed
        obtain ⟨running, flight, origin, changes⟩ := Session.fire_cases id rest staffed
        obtain ⟨staffed', passes⟩ := changes.passes staffed
        change (after calls H (Session.fire (id :: rest) e)).Staffed names ∧
          Passes _ e (after calls H (Session.fire (id :: rest) e)).engine
        rw [engine_after]
        refine ⟨⟨flown, ?_, ?_⟩, passes.mono fun _ _ _ => False.elim⟩
        · rw [engine_after]
          exact staffed'
        · rw [flights_after, flight]
          refine List.Subperm.trans (List.Sublist.subperm ?_) enough
          rcases origin with rfl | rfl
          · exact List.sublist_cons_self _ _
          · exact List.Sublist.refl _

lemma staffed_create (source : String → Option Image) (config : Config) :
    (host (.create source config) [] 0).Staffed config.eventLists := by
  refine ⟨[], ⟨Agenda.waits_ofLists _, Agenda.indexed_ofLists _, fun {id f r} bound => ?_⟩,
    .refl []⟩
  cases (Agenda.bond?_ofLists config.eventLists id).symm.trans bound

lemma Reaches.staffed (reached : Reaches c w w') (ok : w.Staffed names) : w'.Staffed names := by
  induction reached with
  | refl => exact ok
  | tail _ move ih => exact (move.passes ih).1

lemma Reachable.staffed (reached : Reachable c source config w) : w.Staffed config.eventLists :=
  Reaches.staffed reached (staffed_create source config)

/-! ## What happens to an engine -/

/-- What is expected of the next step. -/
def permit : World → Permit
  | work (.run s) _ _ => s.permit
  | _ => .nothing

/-- Whatever moves registers a function or a library, or is made of changes that were expected and
of what leaves fibers alone. -/
lemma Move.advances (move : Move c w w') :
    Advances w.permit w.engine w'.engine ∨ w.engine.Registers w'.engine := by
  cases move with
  | act done => exact done.advances
  | request q =>
    rw [engine_after]
    rcases q.flies _ with ⟨dt, rfl⟩ | flies
    · exact .inl (Apart.advances ⟨rfl, rfl, rfl, rfl, rfl⟩)
    · exact .inl flies.advances
  | @answer e H calls call s results =>
    have unwinds := s.unwinds_answer (P := .nothing) e call results
    rw [engine_after]
    exact .inl unwinds.flies.advances
  | step t =>
    rw [engine_after]
    cases t with
    | run s => exact .inl (Session.flies_step s).advances
    | fire due e =>
      obtain ⟨agenda, cells, changes⟩ := Session.changes_fire due e
      have apart : Apart e ({ e with agenda }.releaseAll cells) := ⟨rfl, rfl, rfl, rfl, rfl⟩
      exact .inl (apart.advances.trans changes.advances)

lemma rooted_create (source : String → Option Image) (config : Config) :
    (create source config).Rooted := by
  rintro f (root | main)
  · cases root
  · cases main

/-- Roots are fibers that were made. -/
lemma Reachable.rooted_engine (reached : Reachable c source config w) : w.engine.Rooted := by
  induction reached with
  | refl => exact rooted_create source config
  | tail _ move ih =>
    rcases move.advances with advances | registers
    · exact advances.rooted ih
    · obtain ⟨catalog, same⟩ := registers.eq
      rw [same]
      exact ih

/-! ## What an update has left -/

/-- What is left of a request below which there are so many others. -/
def leftAt (depth : Nat) (flights : List Flight) : List ContinuationId :=
  (flights.reverse[depth]?.map (·.left)).getD []

/-- What the request below which there are so many others has left. -/
def left (depth : Nat) (w : World) : List ContinuationId := leftAt depth w.flights

/-- The continuation that the request below which there are so many others looks at next. -/
def turn? (depth : Nat) : World → Option ContinuationId
  | work (.fire (id :: _) _) calls _ => if calls.length = depth then some id else none
  | _ => none

variable {depth : Nat} {rest : List Flight}

lemma leftAt_of_lt (above : List Flight) (deep : depth < rest.length) :
    leftAt depth (above ++ rest) = leftAt depth rest := by
  rw [leftAt, List.reverse_append, List.getElem?_append_left, leftAt]
  rw [List.length_reverse]
  exact deep

lemma leftAt_top (x : Option Flight) (rest : List Flight) :
    leftAt rest.length (x.toList ++ rest) = (x.map (·.left)).getD [] := by
  rw [leftAt, List.reverse_append, List.getElem?_append_right, List.length_reverse, Nat.sub_self]
  · cases x <;> rfl
  · rw [List.length_reverse]

/-- A request may go on while it leaves the same. -/
lemma leftAt_congr {x y : Option Flight}
    (same : (x.map (·.left)).getD [] = (y.map (·.left)).getD []) (deep : depth ≤ rest.length) :
    leftAt depth (x.toList ++ rest) = leftAt depth (y.toList ++ rest) := by
  rcases Nat.lt_or_eq_of_le deep with deeper | rfl
  · rw [leftAt_of_lt _ deeper, leftAt_of_lt _ deeper]
  · rw [leftAt_top, leftAt_top, same]

/-- A run that goes on or ends leaves what is to fire after it. -/
lemma left_of_flies {P x} (flies : Flies P e x p) :
    (p.flight?.map (·.left)).getD [] = ((some x).map (·.left)).getD [] := by
  cases flies with
  | on flight => rw [flight]
  | answer idle answered =>
    rw [answered, idle]
    rfl
  | land running flight =>
    rw [flight, running]
    rfl

/-- What is left of a request loses its head only when the head has its turn. -/
lemma Move.left (move : Move c w w') (ok : w.Staffed names) (busy : depth < w.flights.length) :
    (w.turn? depth).toList ++ w'.left depth = w.left depth := by
  have goesOn : ∀ {P : Permit} {e : Engine} {x : Flight} {p : Progress}
    {calls : List (HostCall × Session)}
      {H : Multiset Ref}, Flies P e x p → depth < (x :: calls.map (·.2.callers.flight)).length →
      (after calls H p).left depth = leftAt depth (x :: calls.map (·.2.callers.flight)) := by
    intro P e x p calls H flies busy
    rw [World.left, flights_after]
    exact leftAt_congr (left_of_flies flies) (Nat.le_of_lt_succ busy)
  cases move with
  | act done => rfl
  | @request e H calls q =>
    change (after calls H (q.start e)).left depth = leftAt depth (calls.map (·.2.callers.flight))
    rw [World.left, flights_after]
    exact leftAt_of_lt _ busy
  | @answer e H calls call s results =>
    have unwinds := s.unwinds_answer (P := .nothing) e call results
    exact goesOn unwinds.flies busy
  | @step H calls t =>
    cases t with
    | run s => exact goesOn (Session.flies_step s) busy
    | fire due e =>
      cases due with
      | nil => exact goesOn (x := .idle) (.answer rfl rfl (changes_reap (P := .nothing) e)) busy
      | cons id due =>
        obtain ⟨flown, staffed, -⟩ := ok
        obtain ⟨running, flight, -, -⟩ := Session.fire_cases (e := e) id due staffed
        change (if calls.length = depth then some id else none).toList ++
            (after calls H (Session.fire (id :: due) e)).left depth =
          leftAt depth ((some (⟨none, id :: due⟩ : Flight)).toList ++
            calls.map (·.2.callers.flight))
        rw [World.left, flights_after, flight]
        by_cases own : calls.length = depth
        · subst own
          have bottom : calls.length = (calls.map (·.2.callers.flight)).length :=
            (List.length_map _).symm
          rw [if_pos rfl, bottom, leftAt_top, leftAt_top]
          rfl
        · have deeper : depth < (calls.map (·.2.callers.flight)).length :=
            Nat.lt_of_le_of_ne (Nat.le_of_lt_succ busy) fun same =>
              own (by rw [same, List.length_map])
          rw [if_neg own, leftAt_of_lt _ deeper, leftAt_of_lt _ deeper]
          rfl

end World

end FiberVM
