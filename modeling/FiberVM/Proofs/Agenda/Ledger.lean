import FiberVM.Proofs.Agenda.Bonds

/-!
# What an agenda takes over and hands back

A registration hands a reference over to the agenda, and the agenda hands it back when the
continuation is retired or cancelled. A ledger writes both down (`Agenda.Ledger`). Whatever is asked
of the agenda, what it took over is what its continuations hold and what it has handed back.
-/

namespace FiberVM.Agenda

/-- What an agenda answers. -/
inductive Reply where
  | registered (id : ContinuationId)
  | due (ids : List ContinuationId)
  | returned (cells : List Ref)
  | done

/-- The references that are handed back with an answer. -/
def Reply.cells : Reply → List Ref
  | returned cells => cells
  | _ => []

namespace Call

/-- What a call is answered. -/
def reply : Call → Agenda → Except AgendaError Reply
  | register parent fiber cell condition pc now, a =>
    (a.register parent fiber cell condition pc now).map fun result => .registered result.1
  | registerAt parent fiber cell expiry pc recurrence delta, a =>
    .ok (.registered (a.registerAt parent fiber cell expiry pc recurrence delta).1)
  | registerOn parent fiber cell list discriminator pc recurrence, a =>
    (a.registerOn parent fiber cell list discriminator pc recurrence).map fun result =>
      .registered result.1
  | post list event, a => (a.post list event).map fun _ => .done
  | takeReady now, a => .ok (.due (a.takeReady now).1)
  | rearmOrRetire id, a => (a.rearmOrRetire id).map fun result => .returned result.1.toList
  | cancel id, a => .ok (.returned (a.cancel id).1)
  | cancelFiber fiber, a => .ok (.returned (a.cancelFiber fiber).1)
  | addTimeline, _ => .ok .done
  | addListeners _, _ => .ok .done

/-- The reference that a call hands over, if it is to register a continuation. -/
def cell? : Call → Option Ref
  | register _ _ cell .. | registerAt _ _ cell .. | registerOn _ _ cell .. => some cell
  | _ => none

end Call

/-- What can be asked of an agenda, lists included in which something waits already. -/
inductive Deed where
  | ask (call : Call)
  | addList (name : String) (list : WaitList)

/-- An agenda with what it took over and what it handed back. -/
structure Ledger where
  agenda : Agenda
  /-- The references that came with registrations that succeeded. -/
  taken : Multiset Ref := 0
  /-- The references that were handed back. -/
  returned : Multiset Ref := 0

/-- Writes down what is asked of the agenda. -/
def Ledger.enter (l : Ledger) : Deed → Ledger
  | .ask call =>
    match call.reply l.agenda with
    | .ok reply =>
      { agenda := call.perform l.agenda
        taken := l.taken + call.cell?.toList
        returned := l.returned + reply.cells }
    | .error _ => { l with agenda := call.perform l.agenda }
  | .addList name list => { l with agenda := l.agenda.addList name list }

variable {a' : Agenda} {id : ContinuationId} {f : FiberId} {r : Ref} {call : Call} {reply : Reply}

/-! ## Single calls -/

/-- A registration on a list succeeds and takes the reference, or gives it back. -/
private lemma registerOn_cases (a : Agenda) (parent : Option ContinuationId) (f : FiberId) (r : Ref)
    (list discriminator : String) (pc : Nat) (recurrence : Int64) :
    (∃ id, Call.reply (.registerOn parent f r list discriminator pc recurrence) a =
      .ok (.registered id) ∧
        id.id = a.continuations.next ∧
        Gains f r a (Call.perform (.registerOn parent f r list discriminator pc recurrence) a)) ∨
      Call.reply (.registerOn parent f r list discriminator pc recurrence) a =
        .error (.unknownList list) ∧ a.list? list = none ∧
        Call.perform (.registerOn parent f r list discriminator pc recurrence) a = a := by
  rw [Call.reply, Call.perform]
  cases found : a.list? list with
  | none =>
    have refused : a.registerOn parent f r list discriminator pc recurrence =
        .error (.unknownList list) := by
      rw [registerOn, found]
    rw [refused]
    exact .inr ⟨rfl, rfl, rfl⟩
  | some l =>
    let k : Continuation := ⟨f, r, parent, [], pc, .on discriminator, recurrence, .zero, list⟩
    have made : a.registerOn parent f r list discriminator pc recurrence = .ok (a.insert k) := by
      rw [registerOn, found]
    rw [made]
    exact .inl ⟨⟨a.continuations.next⟩, rfl, rfl, a.gains_insert k⟩

/-- A call that hands over a reference registers a continuation that holds it, or there is no list
to wait on. -/
lemma Call.register_cases (offered : call.cell? = some r) (a : Agenda) :
    (∃ id f, call.reply a = .ok (.registered id) ∧ id.id = a.continuations.next ∧
      Gains f r a (call.perform a)) ∨
      ∃ list, call.reply a = .error (.unknownList list) ∧ a.list? list = none ∧
        call.perform a = a := by
  cases call with
  | registerAt parent f cell expiry pc recurrence delta =>
    obtain rfl := Option.some.inj offered
    exact .inl ⟨⟨a.continuations.next⟩, f, rfl, rfl,
      a.gains_registerAt parent f cell expiry pc recurrence delta⟩
  | registerOn parent f cell list discriminator pc recurrence =>
    obtain rfl := Option.some.inj offered
    rcases registerOn_cases a parent f cell list discriminator pc recurrence with ⟨id, made⟩ |
      refused
    · exact .inl ⟨id, f, made⟩
    · exact .inr ⟨list, refused⟩
  | register parent f cell condition pc now =>
    obtain rfl := Option.some.inj offered
    cases condition with
    | time delay recurrence interval =>
      exact .inl ⟨⟨a.continuations.next⟩, f, rfl, rfl,
        a.gains_registerAt parent f cell (now.add delay) pc recurrence interval⟩
    | event list discriminator recurrence =>
      rcases registerOn_cases a parent f cell list discriminator pc recurrence with ⟨id, made⟩ |
        refused
      · exact .inl ⟨id, f, made⟩
      · exact .inr ⟨list, refused⟩
  | _ => cases offered

/-- A call that hands over nothing hands back what the agenda loses, and if it is refused, the
agenda stays. -/
private lemma Call.sheds (nothing : call.cell? = none) (a : Agenda) :
    (∃ reply, call.reply a = .ok reply ∧ Sheds reply.cells a (call.perform a)) ∨
      ∃ err, call.reply a = .error err ∧ call.perform a = a := by
  cases call with
  | register | registerAt | registerOn => cases nothing
  | post list event =>
    rw [Call.reply, Call.perform]
    cases posted : a.post list event with
    | ok a' => exact .inl ⟨.done, rfl, sheds_post posted⟩
    | error err => exact .inr ⟨err, rfl, rfl⟩
  | takeReady now => exact .inl ⟨_, rfl, a.sheds_takeReady now⟩
  | rearmOrRetire id =>
    rw [Call.reply, Call.perform]
    cases settled : a.rearmOrRetire id with
    | ok result => exact .inl ⟨_, rfl, sheds_rearmOrRetire settled⟩
    | error err => exact .inr ⟨err, rfl, rfl⟩
  | cancel id => exact .inl ⟨_, rfl, a.sheds_cancel id⟩
  | cancelFiber fiber => exact .inl ⟨_, rfl, a.sheds_cancelFiber fiber⟩
  | addTimeline => exact .inl ⟨_, rfl, a.sheds_addList timeName _⟩
  | addListeners name => exact .inl ⟨_, rfl, a.sheds_addList name _⟩

/-! ## Sequences of calls -/

lemma Ledger.enter_of_ok {l : Ledger} (answered : call.reply l.agenda = .ok reply) :
    l.enter (.ask call) =
      ⟨call.perform l.agenda, l.taken + call.cell?.toList, l.returned + reply.cells⟩ := by
  rw [Ledger.enter, answered]

/-- What is refused is not written down. -/
lemma Ledger.enter_of_error {l : Ledger} {err} (refused : call.reply l.agenda = .error err)
    (same : call.perform l.agenda = l.agenda) :
    l.enter (.ask call) = l := by
  rw [Ledger.enter, refused, same]

/-- What the agenda took over is what its continuations hold and what it has handed back. -/
def Ledger.Balanced (l : Ledger) : Prop := l.taken = l.agenda.cells + l.returned

/-- Every deed keeps the ledger balanced. -/
private lemma Ledger.Balanced.enter {l : Ledger} (ok : l.Balanced) (deed : Deed) :
    (l.enter deed).Balanced := by
  cases deed with
  | addList name list =>
    have kept := (l.agenda.sheds_addList name list).cells
    rw [zero_add] at kept
    change l.taken = (l.agenda.addList name list).cells + l.returned
    rw [← kept]
    exact ok
  | ask call =>
    cases offered : call.cell? with
    | none =>
      obtain ⟨reply, answered, shed⟩ | ⟨err, refused, same⟩ := call.sheds offered l.agenda
      · rw [enter_of_ok answered, offered]
        calc l.taken + (Option.toList none : List Ref)
            = reply.cells + (call.perform l.agenda).cells + l.returned := by
              rw [ok, shed.cells, Option.toList_none, Multiset.coe_nil, add_zero]
          _ = (call.perform l.agenda).cells + (l.returned + reply.cells) := by abel
      · rw [enter_of_error refused same]
        exact ok
    | some r =>
      obtain ⟨id, f, answered, -, gained⟩ | ⟨list, refused, -, same⟩ :=
        call.register_cases offered l.agenda
      · have nothing : ((Reply.registered id).cells : Multiset Ref) = 0 := rfl
        rw [enter_of_ok answered, offered]
        calc l.taken + (Option.toList (some r) : List Ref)
            = {r} + l.agenda.cells + l.returned := by
              rw [ok, Option.toList_some, Multiset.coe_singleton, add_comm, add_assoc]
          _ = (call.perform l.agenda).cells + (l.returned + (Reply.registered id).cells) := by
              rw [gained.cells, nothing, add_zero]
      · rw [enter_of_error refused same]
        exact ok

private lemma balanced_ofLists (names : List String) :
    Ledger.Balanced { agenda := ofLists names } := by
  change 0 = (ofLists names).cells + 0
  rw [cells_ofLists, add_zero]

/-- What an agenda took over with registrations is what its continuations hold and what it has
handed back. A registration adds a continuation that holds the reference handed over, or it is
refused for want of a list, and then nothing is taken over and nothing changes. -/
theorem references_conserved (names : List String) (deeds : List Deed) :
    let l := deeds.foldl Ledger.enter { agenda := ofLists names }
    l.taken = l.agenda.cells + l.returned ∧
      ∀ (call : Call) (r : Ref), call.cell? = some r →
        (∃ id k, call.reply l.agenda = .ok (.registered id) ∧ l.agenda.get? id = none ∧
          (call.perform l.agenda).get? id = some k ∧ k.cell = r ∧
          (l.enter (.ask call)).taken = {r} + l.taken ∧
            (l.enter (.ask call)).returned = l.returned) ∨
        ∃ list, call.reply l.agenda = .error (.unknownList list) ∧ l.agenda.list? list = none ∧
          l.enter (.ask call) = l := by
  intro l
  have balanced : l.Balanced := by
    refine List.foldlRecOn deeds Ledger.enter (balanced_ofLists names) fun l ok deed _ =>
      ok.enter deed
  refine ⟨balanced, fun call r offered => ?_⟩
  obtain ⟨id, f, answered, new, gained⟩ | ⟨list, refused, unknown, same⟩ :=
    call.register_cases offered l.agenda
  · have bound := gained.bond id
    rw [if_pos new] at bound
    obtain ⟨k, found, same⟩ := Option.map_eq_some_iff.1 bound
    cases same
    have unissued : l.agenda.get? id = none :=
      l.agenda.continuations.get?_of_next_le (Nat.le_of_eq new.symm)
    refine .inl ⟨id, k, answered, unissued, found, rfl, ?_, ?_⟩
    · rw [Ledger.enter_of_ok answered, offered, add_comm]
      rfl
    · rw [Ledger.enter_of_ok answered]
      exact add_zero l.returned
  · exact .inr ⟨list, refused, unknown, Ledger.enter_of_error refused same⟩

/-- Two fibers with a continuation each, of which one is beneath the other, and a registration that
is refused. Then the continuations of the first fiber are cancelled. -/
def cancelParentFiber : List Deed :=
  [.ask (.registerAt none ⟨0⟩ ⟨0⟩ .zero 1 0 .zero),
    .ask (.registerOn (some ⟨0⟩) ⟨1⟩ ⟨1⟩ "door" "open" 2 0),
    .ask (.registerOn none ⟨2⟩ ⟨2⟩ "window" "open" 3 0), .ask (.cancelFiber ⟨0⟩)]

/-- Both references come back, and the third one was not taken over. -/
theorem references_conserved_cancelParentFiber :
    let l := cancelParentFiber.foldl Ledger.enter { agenda := ofLists ["door"] }
    l.returned = {⟨0⟩, ⟨1⟩} ∧ l.agenda.cells = 0 ∧ l.taken = l.agenda.cells + l.returned :=
  ⟨by decide +kernel, by decide +kernel, (references_conserved ["door"] cancelParentFiber).1⟩

end FiberVM.Agenda
