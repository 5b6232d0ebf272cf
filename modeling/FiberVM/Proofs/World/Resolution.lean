import FiberVM.Proofs.Heap.Exchange
import FiberVM.Proofs.World.CallSites

/-!
# What resolving a name does to the references

While a name is resolved, a reference is held to what the latest segment denotes or to the receiver
of the next one. When it is given up depends on what it refers to, and resolving may fail at every
segment. In the end the references of what was found are taken, that of the receiver for which the
name was resolved is given up, and nothing else happens (`Lookup.Exchanges`).

Every step is described by the references that are taken before and after it (`Lookup.Spends`). None
of them need exist, since an attempt to take a reference may fail.
-/

namespace FiberVM

/-- A name has a segment. -/
lemma Name.segments_ne_nil (name : String) : segments name ≠ [] := by
  have split : ∀ cs, splitDots cs ≠ [] := by
    intro cs
    induction cs with
    | nil => exact List.cons_ne_nil _ _
    | cons c cs ih =>
      rw [splitDots, List.foldr_cons]
      split <;> exact List.cons_ne_nil _ _
  exact fun none => split _ (List.map_eq_nil_iff.1 none)

namespace Engine

/-- Nothing but the heap differs. -/
def HeapOnly (e e' : Engine) : Prop := e' = { e with heap := e'.heap }

instance : Std.Refl HeapOnly := ⟨fun _ => rfl⟩

instance : IsTrans Engine HeapOnly := ⟨fun _ _ _ first later => later.trans (by rw [first])⟩

end Engine

/-- In every state that is reached, the cells with a value are those that are strongly
referenced. -/
lemma World.Reachable.filled {c} {source : String → Option Image} {config w}
    (reached : Reachable c source config w) (plain : c ≠ .free) :
    w.engine.heap.Filled :=
  fun r cell found =>
    (((Reachable.sound reached).engine.consistent plain).tidy.lives r cell found).1

namespace Lookup

open Engine World

variable {α : Type} {h : Heap} {given taken kept : Multiset Ref} {result : α → Multiset Ref}
  {e : Engine}

/-- Where some references are taken, an operation ends with those of its result taken, or fails with
those that are kept. -/
abbrev Spends (h : Heap) (given taken : Multiset Ref) (m : EngineM α) (result : α → Multiset Ref)
    (kept : Multiset Ref) : Prop :=
  Triple HeapOnly (fun _ => True) (fun e => h.Trades taken given e.heap) m
    (fun a e => h.Trades (result a) given e.heap) (fun e => h.Trades kept given e.heap)

/-- A search takes the references of what it finds. -/
abbrev Finds (h : Heap) (given taken : Multiset Ref) (m : EngineM (Option Target)) : Prop :=
  Spends h given taken m (fun found => found.elim 0 Target.refs + taken) taken

/-! ## Searching for a segment -/

lemma spends_pure {a} (same : taken = result a) : Spends h given taken (pure a) result kept :=
  .pure fun _ x => same ▸ x

lemma spends_get : Spends h given taken get (fun _ => taken) kept := fun _ x => ⟨rfl, x⟩

lemma spends_fiber (id : FiberId) :
    Spends h given taken (EngineM.fiber id) (fun _ => taken) taken := by
  intro e x
  unfold EngineM.fiber
  split
  · exact ⟨rfl, x⟩
  · exact ⟨rfl, trivial, x⟩

lemma spends_read (r : Ref) :
    Spends h given taken (EngineM.onHeap (Heap.read r)) (fun _ => taken) taken := by
  intro e x
  unfold EngineM.onHeap Heap.read
  cases e.heap.get? r with
  | some v => exact ⟨rfl, x⟩
  | none => exact ⟨rfl, trivial, x⟩

lemma spends_retain (filled : h.Filled) (r : Ref) :
    Spends h given taken (EngineM.onHeap (Heap.retain r)) (fun _ => {r} + taken) taken := by
  intro e x
  unfold EngineM.onHeap Heap.retain
  cases held : e.heap.retain? r with
  | some heap => exact ⟨rfl, Multiset.singleton_add r taken ▸ x.retain? filled held⟩
  | none => exact ⟨rfl, trivial, x⟩

/-- What is missing is a fault, and there was nothing to hold. -/
lemma spends_orFault (found : Option α) (refs : α → Multiset Ref) (fault : Fault) :
    Spends h given (found.elim 0 refs + taken) (EngineM.orFault found fault)
      (fun a => refs a + taken) taken := by
  cases found with
  | some a => exact spends_pure rfl
  | none => exact .throw trivial fun _ x => zero_add taken ▸ x

lemma finds_nothing : Finds h given taken (pure none) := spends_pure (zero_add taken).symm

/-- A library, or a function that is called on nothing. -/
lemma finds_unheld {t : Target} (unheld : t.ref? = none) : Finds h given taken (pure (some t)) := by
  refine spends_pure ?_
  rw [Option.elim_some, Target.refs, unheld]
  exact (zero_add taken).symm

lemma finds_function (f : Option Native) :
    Finds h given taken (pure (f.map (.function · none))) := by
  cases f with
  | none => exact finds_nothing
  | some f => exact finds_unheld rfl

lemma finds_retained (filled : h.Filled) (r : Ref) : Finds h given taken (retained r) :=
  (spends_retain filled r).bind fun _ => spends_pure rfl

/-- A search from the caller takes only what it finds. -/
lemma finds_searchFirst (filled : h.Filled) (caller : FiberId) (segment : String) :
    Finds h given taken (searchFirst caller segment) := by
  refine spends_get.bind fun e => ?_
  split
  case h_1 cell _ => exact finds_retained filled cell
  case h_2 =>
    refine (spends_fiber caller).bind fun x => spends_get.bind fun e => ?_
    split
    · exact finds_retained filled _
    · exact finds_nothing

/-- So does a search in a receiver. -/
lemma finds_searchReceiver (filled : h.Filled) (receiver : Receiver) (segment : String) :
    Finds h given taken (searchReceiver receiver segment) := by
  cases receiver with
  | fiber id =>
    refine spends_get.bind fun e => ?_
    split
    · exact finds_retained filled _
    · exact finds_nothing
  | library name => exact spends_get.bind fun e => finds_function _
  | cell r =>
    refine (spends_read r).bind fun v => spends_get.bind fun e => ?_
    split
    · exact (spends_retain filled r).bind fun _ => spends_pure rfl
    · exact finds_nothing

/-- So does a search everywhere. -/
lemma finds_searchEverywhere (filled : h.Filled) (segment : String) :
    Finds h given taken (searchEverywhere segment) := by
  refine spends_get.bind fun e => ?_
  split
  · exact finds_retained filled _
  · refine spends_get.bind fun e => ?_
    split
    · exact finds_unheld rfl
    · exact spends_get.bind fun e => finds_function _

/-- What is found first is taken, and otherwise nothing is held when the search goes on. -/
lemma Finds.orElse {first second} (finds : Finds h given taken first)
    (finds' : Finds h given taken second) :
    Finds h given taken (do
      match ← first with
      | some t => return some t
      | none => second) := by
  refine finds.bind fun found => ?_
  split
  · exact spends_pure rfl
  · exact finds'.pre fun _ x => zero_add taken ▸ x

lemma finds_search (filled : h.Filled) (caller : FiberId) (receiver : Receiver) (segment : String)
    (first : Bool) :
    Finds h given taken (search caller receiver segment first) := by
  have rest : Finds h given taken _ :=
    (finds_searchReceiver filled receiver segment).orElse (finds_searchEverywhere filled segment)
  unfold search
  cases first with
  | true => exact (finds_searchFirst filled caller segment).orElse rest
  | false => exact finds_nothing.orElse rest

/-! ## From segment to segment -/

lemma trades_release (filled : h.Filled) (r : Ref) :
    Turns HeapOnly (fun e => h.Trades ({r} + taken) given e.heap) (·.release r)
      (fun e => h.Trades taken given e.heap) := by
  intro e x
  rw [Multiset.singleton_add] at x
  exact ⟨rfl, x.giveBack filled⟩

lemma trades_leave (filled : h.Filled) (receiver : Receiver) :
    Turns HeapOnly (fun e => h.Trades (receiver.refs + taken) given e.heap) (leave receiver)
      (fun e => h.Trades taken given e.heap) := by
  cases receiver with
  | cell r => exact trades_release filled r
  | fiber id => exact fun e x => ⟨rfl, zero_add taken ▸ x⟩
  | library name => exact fun e x => ⟨rfl, zero_add taken ▸ x⟩

/-- A receiver is spent for what is found in it. -/
lemma spends_find (filled : h.Filled) (caller : FiberId) (name : String) (receiver : Receiver)
    (segment : String) (first : Bool) :
    Spends h given (receiver.refs + taken) (find caller name receiver segment first)
      (fun t => t.refs + taken) taken := by
  have left : ∀ found : Option Target,
      Turns HeapOnly (fun e =>
        h.Trades (found.elim 0 Target.refs + (receiver.refs + taken)) given e.heap)
        (leave receiver) (fun e => h.Trades (found.elim 0 Target.refs + taken) given e.heap) :=
          fun found e x =>
    trades_leave filled receiver e (add_left_comm _ _ taken ▸ x)
  exact ((finds_search filled caller receiver segment first).ensure left
    (trades_leave filled receiver)).bind fun found => spends_orFault found Target.refs _

/-- Of a target's reference, only that to a plain value is kept. -/
lemma spends_receiverOf (filled : h.Filled) (t : Target) :
    Spends h given (t.refs + taken) (receiverOf t)
      (fun receiver => receiver.elim 0 Receiver.refs + taken) kept := by
  intro e x
  have released : ∀ r, t.refs = {r} → h.Trades (0 + taken) given (e.release r).heap := by
    intro r held
    rw [held] at x
    rw [zero_add]
    exact (trades_release filled r e x).2
  cases t with
  | library name => exact ⟨rfl, x⟩
  | function f receiver =>
    cases receiver with
    | none => exact ⟨rfl, x⟩
    | some r => exact ⟨rfl, released r rfl⟩
  | value r =>
    unfold receiverOf
    dsimp only
    split
    case h_3 cell _ => split <;> exact ⟨rfl, released r rfl⟩
    case h_5 => exact ⟨rfl, x⟩
    all_goals exact ⟨rfl, released r rfl⟩

lemma spends_follow (filled : h.Filled) (caller : FiberId) (name : String) (t : Target)
    (segments : List String) :
    Spends h given (t.refs + taken) (follow caller name t segments)
      (fun t => t.refs + taken) taken := by
  induction segments generalizing t with
  | nil => exact spends_pure rfl
  | cons segment rest ih =>
    refine (spends_receiverOf filled t).bind fun found => ?_
    refine (spends_orFault found Receiver.refs _).bind fun receiver => ?_
    exact (spends_find filled caller name receiver segment false).bind fun t => ih t

/-! ## Resolving a name -/

/-- A receiver that was dropped is of no use. -/
lemma follow_of_dropped {r} (dropped : e.heap.get? r = none) (caller : FiberId)
    (name segment : String) (rest : List String) :
    follow caller name (.value r) (segment :: rest) e = .error (.unknownIdentifier name)
      (e.release r) := by
  have unreceived : receiverOf (.value r) e = .ok none (e.release r) := by
    unfold receiverOf
    dsimp only
    rw [dropped]
  rw [follow, bind_of_ok unreceived]
  rfl

/-- The reference of a receiver that exists is treated as one that was taken for it. -/
lemma outcome_seek (filled : e.heap.Filled) (caller : FiberId) (name : String)
    (receiver : Option Ref) :
    Outcome HeapOnly (fun _ => True)
      (fun t e' => e.heap.Trades (t.refs + 0) receiver.toList e'.heap)
      (fun e' => e.heap.Trades 0 receiver.toList e'.heap) e (seek caller name receiver e) := by
  obtain ⟨segment, rest, segments⟩ := List.exists_cons_of_ne_nil (Name.segments_ne_nil name)
  unfold seek
  rw [segments]
  cases receiver with
  | none =>
    have found : Spends e.heap 0 ((Receiver.fiber caller).refs + 0) _ (fun t : Target =>
        t.refs + 0) 0 :=
      spends_find filled caller name (.fiber caller) segment true
    exact (found.bind fun t => spends_follow filled caller name t rest) e e.heap.trades_refl
  | some r =>
    by_cases valued : (e.heap.get? r).isSome
    · exact spends_follow filled caller name (.value r) (segment :: rest) e
        (.handOver filled valued)
    · dsimp only
      rw [follow_of_dropped (Option.not_isSome_iff_eq_none.1 valued)]
      exact ⟨rfl, trivial, e.heap.trades_refl.release filled r⟩

/-- Some references were taken, that of a receiver was given up, and one search was counted. -/
structure Exchanges (e : Engine) (receiver : Option Ref) (taken : Multiset Ref) (e' : Engine) :
    Prop where
  heap : ∃ k D, e.heap.Raised taken k ∧ k.Collapsed (Value.handles receiver.toList) D e'.heap
  /-- Without a receiver, nothing is given up. -/
  unreceived : receiver = none → e.heap.Raised taken e'.heap
  rest : e' = { e with heap := e'.heap, searches := e.searches + 1 }

lemma exchanges_of_trades {e' : Engine} {receiver : Option Ref} (filled : e.heap.Filled)
    (trades : e.heap.Trades taken receiver.toList e'.heap)
    (rest : HeapOnly { e with searches := e.searches + 1 } e') : Exchanges e receiver taken e' := by
  refine ⟨trades.collapsed filled, ?_, rest⟩
  rintro rfl
  exact trades.raised

/-- Resolving a name gives up the receiver's reference, takes those of what is found, and does
nothing else but count the search. Where it fails, at whichever segment, it takes none. This holds
of every engine whose cells have their values exactly as long as they are strongly referenced, and
so of every state that is reached. -/
theorem resolution_neutral :
    (∀ {c source config w}, Reachable c source config w → c ≠ .free → w.engine.heap.Filled) ∧
    ∀ (e : Engine), e.heap.Filled → ∀ (caller : FiberId) (name : String) (receiver : Option Ref),
      match resolve caller name receiver e with
      | .ok t e' => Exchanges e receiver t.refs e'
      | .error _ e' => Exchanges e receiver 0 e' := by
  refine ⟨Reachable.filled, fun e filled caller name receiver => ?_⟩
  have outcome := outcome_seek (e := { e with searches := e.searches + 1 }) filled caller name
    receiver
  rw [← resolve_eq] at outcome
  cases run : resolve caller name receiver e with
  | ok t e' =>
    rw [run] at outcome
    obtain ⟨rest, trades⟩ := outcome
    rw [add_zero] at trades
    exact exchanges_of_trades filled trades rest
  | error fault e' =>
    rw [run] at outcome
    obtain ⟨rest, -, trades⟩ := outcome
    exact exchanges_of_trades filled trades rest

/-- A variable is found in the fiber that a name is resolved for. A method in the midst of a name
leads nowhere, and the array that it was to be called on is dropped. -/
theorem resolution_neutral_beforeFirstRead :
    Reachable .owning (fun _ => some readVariableTwice) {} (work (.run beforeFirstRead) [] 0) ∧
      beforeFirstRead.engine.heap.Filled ∧
      (∃ e', resolve ⟨0⟩ "n" (some ⟨0⟩) beforeFirstRead.engine = .ok (.value ⟨1⟩) e' ∧
        Exchanges beforeFirstRead.engine (some ⟨0⟩) {⟨1⟩} e') ∧
      ∃ fault e', resolve ⟨0⟩ "push.n" (some ⟨3⟩) beforeFirstRead.engine = .error fault e' ∧
        Exchanges beforeFirstRead.engine (some ⟨3⟩) 0 e' ∧ e'.heap.get? ⟨3⟩ = none := by
  obtain ⟨reachable, neutral⟩ := resolution_neutral
  have reached : Reachable .owning (fun _ => some readVariableTwice) {}
      (work (.run beforeFirstRead) [] 0) :=
    reachable_beforeFirstRead
  have engine_run : ∀ s : Session, (work (.run s) [] 0).engine = s.engine := fun _ => rfl
  have filled := reachable reached (by decide)
  rw [engine_run] at filled
  have found : resultOf? (resolve ⟨0⟩ "n" (some ⟨0⟩) beforeFirstRead.engine) =
      some (.value ⟨1⟩) := by decide +kernel
  have failed : resultOf? (resolve ⟨0⟩ "push.n" (some ⟨3⟩) beforeFirstRead.engine) = none := by
    decide +kernel
  have dropped : (leftBy (resolve ⟨0⟩ "push.n" (some ⟨3⟩) beforeFirstRead.engine)).heap.get? ⟨3⟩ =
      none := by
    decide +kernel
  refine ⟨reached, filled, ?_⟩
  generalize beforeFirstRead.engine = e at filled found failed dropped ⊢
  constructor
  · have exchanged := neutral e filled ⟨0⟩ "n" (some ⟨0⟩)
    rw [eq_ok_of_resultOf? found] at exchanged
    exact ⟨_, eq_ok_of_resultOf? found, exchanged⟩
  · have exchanged := neutral e filled ⟨0⟩ "push.n" (some ⟨3⟩)
    cases run : resolve ⟨0⟩ "push.n" (some ⟨3⟩) e with
    | ok t e' =>
      rw [run] at failed
      cases failed
    | error fault e' =>
      rw [run] at exchanged dropped
      exact ⟨fault, e', rfl, exchanged, dropped⟩

end Lookup

end FiberVM
