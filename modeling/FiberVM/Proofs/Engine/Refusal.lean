import FiberVM.Proofs.Engine.Tables
import FiberVM.Proofs.Heap.Footprint

/-!
# Launches that are refused

Making a fiber can fail: the machine is unknown or its image defective, the heap is full while
variables are declared, or there is no state to begin with. Whatever was built until then is given
up. The new cells are behind all others and nobody else refers to them, so this comes to nothing but
the release of the arguments (`Engine.restores_spawn`).

A machine that was loaded on the way stays loaded, with all its shared variables.
-/

namespace FiberVM.Heap

variable {p : FiberId → Bool} {h k k' : Heap} {rs : List Ref} {owner o : Owner} {weak n : Nat}

/-- A variable with an initial value is declared in a new cell, or nothing happens. -/
lemma declare_initial (owner : Owner) (name : String) (type : VariableType) (k : Heap) :
    declare owner name type.initial k = .error .heapExhausted k ∨
    ∃ k', declare owner name type.initial k = .ok k.fresh k' ∧ Extends owner
      [(name, k.fresh)] k k' ∧
      (∀ s, k'.cell? s = if s = k.fresh then some ⟨some type.initial, owner, 1, 0⟩ else k.cell? s) ∧
      k'.cells.next = k.cells.next + 1 ∧ k'.orphans = k.orphans := by
  unfold declare alloc
  by_cases full : k.isFull
  · left
    simp [full, releaseValue_of_refs type.refs_initial, type.instance?_initial]
  · right
    rw [if_neg full]
    refine ⟨_, rfl, ⟨?_, Table.erase_insert _ _ _⟩, fun s => cell?_extend, rfl, rfl⟩
    rw [entries, Table.find?_insert, if_pos rfl]
    rfl

namespace Sprouts

/-- A variable that is declared is a private cell. -/
lemma declare (x : Sprouts n p owner 0 rs h k) (name : String) (type : VariableType) :
    Heap.declare owner name type.initial k = .error .heapExhausted k ∨
    ∃ k', Heap.declare owner name type.initial k = .ok k.fresh k' ∧ Sprouts n p owner 0
      (rs ++ [k.fresh]) h k' ∧ Extends owner [(name, k.fresh)] k k' := by
  rcases declare_initial owner name type k with full | ⟨k', declared, more, cells, next, orphans⟩
  · exact .inl full
  · refine .inr ⟨k', declared, x.add cells next orphans type.refs_initial ?_, more⟩
    simp [type.instance?_initial]

/-- So is one to which a weak reference is taken at once. -/
lemma share (x : Sprouts n p owner 1 rs h k) (name : String) (type : VariableType) :
    Heap.declare owner name type.initial k = .error .heapExhausted k ∨
    ∃ k₁ k₂, Heap.declare owner name type.initial k = .ok k.fresh k₁ ∧ downgrade k.fresh k₁ = .ok
      () k₂ ∧
      Sprouts n p owner 1 (rs ++ [k.fresh]) h k₂ ∧ Extends owner [(name, k.fresh)] k k₂ := by
  rcases declare_initial owner name type k with full | ⟨k', declared, more, cells, next, orphans⟩
  · exact .inl full
  · have found : k'.cell? k.fresh = some ⟨some type.initial, owner, 1, 0⟩ := by
      rw [cells, if_pos rfl]
    let shared := k'.setCell k.fresh ⟨some type.initial, owner, 1, 1⟩
    have taken : downgrade k.fresh k' = .ok () shared := by
      simp [downgrade, retainWeak?, found, shared]
    refine .inr ⟨k', shared, declared, taken, ?_, more.own, more.others⟩
    refine x.add (fun s => ?_) (next_setCell.trans next) orphans type.refs_initial
      (by simp [type.instance?_initial])
    rw [cell?_setCell found]
    split
    case isTrue => rfl
    case isFalse other => rw [cells, if_neg other]

/-- Nothing is left of the variables of an owner that is released. -/
lemma releaseOwner (x : Sprouts n p owner 0 ((k.entries o).map (·.2) ++ rs) h k) :
    Sprouts n p owner 0 rs h (k.releaseOwner o) := by
  have forgotten : Sprouts n p owner 0 ((k.entries o).map (·.2) ++ rs) h
      { k with directory := k.directory.erase o } :=
    x.congr rfl rfl
  exact forgotten.dropAll

/-- Of an owner that ends only what was made first is left, and some older references are given
up. -/
lemma vacate {first given} (x : Sprouts n p owner 0 (first ++ (k.entries o).map (·.2)) h k)
    (old : ∀ r ∈ given, r.id < n) :
    Sprouts n p owner 0 first (h.releaseAll given) ((k.releaseAll given).releaseOwner o) := by
  apply releaseOwner
  rw [(same_releaseAll given k).entries]
  exact (x.perm List.perm_append_comm).releaseAll old

/-- Where there are no new cells, it does not matter of what kind they would be. -/
lemma empty (x : Sprouts n p owner weak [] h k) (o : Owner) (weak' : Nat) :
    Sprouts n p o weak' [] h k :=
  ⟨x.agrees, nofun, x.nothing, x.distinct, x.next⟩

/-- New cells stay where further ones have come and gone. -/
lemma trans {m h'} (x : Sprouts n p owner weak rs h k) (issued : ∀ r ∈ rs, r.id < m) (later : n ≤ m)
    (y : Sprouts m p o 0 [] k h') : Sprouts n p owner weak rs h h' where
  agrees :=
    { cell := fun r early => (y.agrees.cell r (early.trans_le later)).trans (x.agrees.cell r early)
      within := x.agrees.within
      orphans := y.agrees.orphans.trans x.agrees.orphans }
  new r listed := ⟨(x.new r listed).1, (x.new r listed).2.congr (y.agrees.cell r (issued r listed))⟩
  nothing r late unlisted := by
    rcases Nat.lt_or_ge r.id m with early | behind
    · exact (y.agrees.cell r early).trans (x.nothing r late unlisted)
    · exact y.nothing r behind List.not_mem_nil
  distinct := x.distinct
  next := later.trans y.next

lemma issued (x : Sprouts n p owner weak rs h k) : ∀ r ∈ rs, r.id < k.cells.next := by
  intro r listed
  obtain ⟨-, v, found, -⟩ := x.new r listed
  exact lt_next_of_cell? found

/-- The values of the new cells refer to nothing. -/
lemma genuine (x : Sprouts h.cells.next p owner weak rs h k) (ok : h.Genuine) : k.Genuine := by
  intro r v found s inside
  obtain ⟨c, cell, value⟩ := cell?_of_get? found
  rcases Nat.lt_or_ge r.id h.cells.next with early | late
  · have before : h.get? r = some v := by
      rw [x.agrees.cell r early] at cell
      rw [get?_of_cell? cell, value]
    exact (ok r v before s inside).trans_le x.next
  · by_cases listed : r ∈ rs
    · obtain ⟨-, w, new, nothing, -⟩ := x.new r listed
      cases new.symm.trans cell
      cases value
      rw [nothing] at inside
      cases inside
    · rw [x.nothing r late listed] at cell
      cases cell

end Sprouts

end FiberVM.Heap

namespace FiberVM.Engine

variable {p : FiberId → Bool} {h : Heap} {e e' : Engine} {id : FiberId} {n : Nat} {name : String}
  {owner : Owner} {first declared : List Ref} {I : Engine → Prop}

lemma tries_describe (image : Image) (v : Variable) :
    Triple (Declares owner) (fun _ => True) I (describe image v) (fun _ => I) I := by
  unfold describe
  split
  · exact .pure fun _ holds => holds
  · exact .throw trivial fun _ holds => holds

lemma onHeap_of_ok {α : Type} {m : HeapM α} {a : α} {heap : Heap} (run : m e.heap = .ok a heap) :
    RequestM.onHeap m e = .ok a { e with heap } := by
  simp only [RequestM.onHeap, RequestM.ofFault, EngineM.onHeap, run]

lemma onHeap_of_error {α : Type} {m : HeapM α} {fault : Fault} {heap : Heap}
    (run : m e.heap = .error fault heap) :
    RequestM.onHeap m e = .error (.fault fault) { e with heap } := by
  simp only [RequestM.onHeap, RequestM.ofFault, EngineM.onHeap, run]

/-! ## Machines -/

/-- The shared variables of a machine that were declared so far are new cells. -/
def Sharing (n : Nat) (p : FiberId → Bool) (h : Heap) (name : String) (declared : List Ref)
    (e : Engine) : Prop :=
  h.Sprouts n p (.machine name) 1 declared e.heap ∧
    (e.heap.entries (.machine name)).map (·.2) = declared

/-- A shared variable more is declared, or nothing happens. -/
private lemma tries_share (image : Image) (v : Variable) :
    Triple (Declares (.machine name)) (fun _ => True) (Sharing n p h name declared)
      (do
        let (variableName, type) ← describe image v
        let r ← RequestM.onHeap (Heap.declare (.machine name) variableName type.initial)
        RequestM.onHeap (Heap.downgrade r)
        return r)
      (fun r => Sharing n p h name (declared ++ [r])) (Sharing n p h name declared) := by
  refine (tries_describe image v).bind ?_
  rintro ⟨variableName, type⟩ e ⟨sprouts, listed⟩
  dsimp only
  rcases sprouts.share variableName type with full | ⟨k₁, k₂, declares, taken, sprouts', more⟩
  · rw [bind_of_error (onHeap_of_error full)]
    exact ⟨Std.Refl.refl e, trivial, sprouts, listed⟩
  · rw [bind_of_ok (onHeap_of_ok declares),
      bind_of_ok (onHeap_of_ok (e := { e with heap := k₁ }) taken)]
    refine ⟨⟨k₂, rfl, more.others⟩, sprouts', ?_⟩
    rw [← listed]
    exact (congrArg _ more.own).trans (List.map_append ..)

/-- Shared variables are declared in new cells, or nothing is left of them. -/
lemma shares_declareShared (image : Image) (vs : List Variable)
    (sharing : Sharing n p h name declared e) :
    Outcome (Declares (.machine name)) (fun _ => True) (fun rs => Sharing n p h name rs)
      (fun e' => h.Sprouts n p (.machine name) 0 [] e'.heap) e
        (declareShared name image declared vs e) := by
  induction vs generalizing declared e with
  | nil => exact ⟨Std.Refl.refl e, sharing⟩
  | cons v rest ih =>
    have one := tries_share image v e sharing
    unfold declareShared
    dsimp only
    split
    case h_1 r e' run =>
      rw [run] at one
      exact (ih one.2).trans one.1
    case h_2 err e' run =>
      rw [run] at one
      obtain ⟨related, -, sprouts, listed⟩ := one
      let released := declared.foldl Heap.releaseWeak e'.heap
      have unseen : h.Sprouts n p (.machine name) 0
          ((released.entries (.machine name)).map (·.2) ++ []) released := by
        rw [(Heap.same_releaseWeakAll declared e'.heap).entries, listed, List.append_nil]
        exact sprouts.releaseWeakAll
      refine ⟨IsTrans.trans _ _ _ related ⟨_, rfl, .of_forgotten ?_⟩, trivial, unseen.releaseOwner⟩
      rw [(Heap.fades_releaseOwner _ _).2, Heap.same_releaseWeakAll]

/-- What happens to an engine when a machine is asked for. -/
structure Loads (name : String) (p : FiberId → Bool) (kept : List Ref) (e e' : Engine) : Prop where
  rest : ∃ machines heap, e' = { e with machines, heap }
  machines : ∀ other, other ≠ name → e'.machines.find? other = e.machines.find? other
  others : e.heap.Spares (.machine name) e'.heap
  /-- Only the shared variables of a machine that is loaded are new. -/
  cells : e.heap.Genuine → e.heap.Sprouts e.heap.cells.next p (.machine name) 1 kept e'.heap

lemma Loads.refl (name : String) (p : FiberId → Bool) (e : Engine) : Loads name p [] e e :=
  ⟨⟨_, _, rfl⟩, fun _ _ => rfl, rfl, fun genuine => .refl genuine⟩

/-- A machine is loaded with its shared variables, or nothing is left of them. -/
private lemma loads_declareShared {image} (new : e.heap.directory.find? (.machine name) = none) :
    Outcome (fun _ _ => True) (fun _ => True)
      (fun m e' => e'.machines.find? name = some m ∧ Loads name p m.shared e e')
      (fun e' => e'.machines = e.machines ∧ Loads name p [] e e') e
      ((do
        let shared ← declareShared name image [] image.shared
        let m : Machine := ⟨name, image, shared⟩
        modify fun e => { e with machines := e.machines.insert name m }
        return m : RequestM Machine) e) := by
  have unnamed : (e.heap.entries (.machine name)).map (·.2) = [] := by
    rw [Heap.entries_of_none new, List.map_nil]
  have shape := outcome_declareShared name image [] image.shared (rfl : Owns (.machine name) _ e)
  have shares := fun genuine : e.heap.Genuine =>
    have start : Sharing e.heap.cells.next p e.heap name [] e := ⟨.refl genuine, unnamed⟩
    shares_declareShared image image.shared start
  cases run : declareShared name image [] image.shared e with
  | error err e' =>
    rw [run] at shape
    obtain ⟨⟨heap, rfl, others⟩, -⟩ := shape
    rw [bind_of_error run]
    refine ⟨trivial, trivial, rfl, ⟨_, _, rfl⟩, fun _ _ => rfl, others, fun genuine => ?_⟩
    have left := shares genuine
    rw [run] at left
    exact left.2.2.empty _ _
  | ok shared e' =>
    rw [run] at shape
    obtain ⟨⟨heap, rfl, others⟩, -⟩ := shape
    rw [bind_of_ok run]
    refine ⟨trivial, ?_, ⟨_, _, rfl⟩, fun other ne => ?_, others, fun genuine => ?_⟩
    · exact (Table.find?_insert _ _ _ _).trans (if_pos rfl)
    · exact (Table.find?_insert _ _ _ _).trans (if_neg ne)
    · have left := shares genuine
      rw [run] at left
      exact left.2.1

/-- A machine is loaded with new cells, or nothing is left. -/
lemma loads_load (ok : e.Orderly) (missing : e.machines.find? name = none) :
    Outcome (fun _ _ => True) (fun _ => True)
      (fun m e' => e'.machines.find? name = some m ∧ Loads name p m.shared e e')
      (fun e' => e'.machines = e.machines ∧ Loads name p [] e e') e (load name e) := by
  unfold load
  rw [bind_of_ok (rfl : (get : RequestM Engine) e = .ok e e)]
  simp only [missing]
  rw [bind_of_ok (rfl : (get : RequestM Engine) e = .ok e e)]
  cases e.source name with
  | none => exact ⟨trivial, trivial, rfl, .refl name p e⟩
  | some image =>
    simp only
    cases image.defect? with
    | some d => exact ⟨trivial, trivial, rfl, .refl name p e⟩
    | none => exact loads_declareShared (ok.unloaded missing)

lemma load_of_found {m} (found : e.machines.find? name = some m) :
    load name e = .ok m e := by
  unfold load
  rw [bind_of_ok (rfl : (get : RequestM Engine) e = .ok e e), found]
  rfl

/-! ## Fibers -/

/-- A fiber that is being made has new cells: some that were made first, and its variables so
far. -/
def Building (n : Nat) (p : FiberId → Bool) (h : Heap) (id : FiberId) (first : List Ref)
    (e : Engine) : Prop :=
  h.Sprouts n p (.fiber id) 0 (first ++ (e.heap.entries (.fiber id)).map (·.2)) e.heap

/-- A variable is declared in a new cell. -/
private lemma tries_declare (variableName : String) (type : VariableType) :
    Triple (Declares (.fiber id)) (fun _ => True) (Building n p h id first)
      (RequestM.onHeap (Heap.declare (.fiber id) variableName type.initial))
        (fun _ => Building n p h id first)
      (Building n p h id first) := by
  intro e building
  rcases Heap.Sprouts.declare building variableName type with full | ⟨k', declares, sprouts, more⟩
  · rw [onHeap_of_error full]
    exact ⟨Std.Refl.refl e, trivial, building⟩
  · rw [onHeap_of_ok declares]
    refine ⟨⟨k', rfl, more.others⟩, ?_⟩
    change h.Sprouts n p (.fiber id) 0 (first ++ (k'.entries (.fiber id)).map (·.2)) k'
    rw [more.own, List.map_append, ← List.append_assoc]
    exact sprouts

lemma tries_declareLocals (image : Image) (vs : List Variable) :
    Triple (Declares (.fiber id)) (fun _ => True) (Building n p h id first)
      (declareLocals id image vs)
      (fun _ => Building n p h id first) (Building n p h id first) := by
  induction vs with
  | nil => exact .pure fun _ building => building
  | cons v rest ih =>
    refine (tries_describe image v).bind ?_
    rintro ⟨variableName, type⟩
    exact (tries_declare variableName type).bind fun _ => ih

/-- A fiber that is made has a new cell and new variables, and if it cannot be made its cell is
gone. -/
lemma builds_materialize {x : Fiber} (image : Image) (found : e.fiber? id = some x)
    (new : e.heap.directory.find? (.fiber id) = none) (genuine : e.heap.Genuine)
    (unseen : p id = false) :
    Outcome (fun _ _ => True) (fun _ => True)
      (fun cell => Building e.heap.cells.next p e.heap id [cell])
      (Building e.heap.cells.next p e.heap id []) e (materialize id image e) := by
  have unnamed : e.heap.entries (.fiber id) = [] := Heap.entries_of_none new
  have start : e.heap.Sprouts e.heap.cells.next p (.fiber id) 0 [] e.heap := .refl genuine
  unfold materialize
  by_cases full : e.heap.isFull
  · have refused : Heap.alloc (.fiber id) (.instance id) e.heap =
        .error .heapExhausted (e.heap.losing [id]) := by
      simp [Heap.alloc, full, Heap.releaseValue_of_refs (Value.refs_instance id), Value.instance?]
    rw [onHeap_of_error refused]
    refine ⟨trivial, trivial, ?_⟩
    change e.heap.Sprouts _ p (.fiber id) 0 ([] ++ (e.heap.entries (.fiber id)).map (·.2))
      (e.heap.losing [id])
    rw [unnamed]
    refine ⟨⟨start.agrees.cell, start.agrees.within, ?_⟩, fun _ inside =>
      absurd inside List.not_mem_nil,
      start.nothing, start.distinct, start.next⟩
    simp [Heap.losing, List.filter_append, unseen]
  · let heap := e.heap.extend ⟨some (.instance id), .fiber id, 1, 0⟩
    have made : Heap.alloc (.fiber id) (.instance id) e.heap = .ok e.heap.fresh heap := by
      simp only [Heap.alloc, full]
      rfl
    have building : Building e.heap.cells.next p e.heap id [e.heap.fresh]
        (({ e with heap } : Engine).setFiber id { x with cell := some e.heap.fresh }) := by
      change e.heap.Sprouts _ p (.fiber id) 0
        ([e.heap.fresh] ++ (e.heap.entries (.fiber id)).map (·.2)) heap
      rw [unnamed]
      refine start.add (fun s => Heap.cell?_extend) rfl rfl (Value.refs_instance id) ?_
      rintro f ⟨⟩
      exact unseen
    rw [onHeap_of_ok made]
    simp only [show ({ e with heap } : Engine).fiber? id = some x from found]
    have locals := tries_declareLocals image image.locals _ building
    cases run : declareLocals id image image.locals
        (({ e with heap } : Engine).setFiber id { x with cell := some e.heap.fresh }) with
    | ok u e' =>
      rw [run] at locals
      exact ⟨trivial, locals.2⟩
    | error err e' =>
      rw [run] at locals
      refine ⟨trivial, trivial, ?_⟩
      change e.heap.Sprouts _ p (.fiber id) 0
        ([] ++ ((e'.heap.release e.heap.fresh).entries (.fiber id)).map (·.2)) _
      rw [(e'.heap.same_release e.heap.fresh).entries]
      exact locals.2.2.drop

/-! ## Endings -/

variable {names : List String} {flying : List ContinuationId} {f : FiberId}

/-- Nothing is registered for a fiber that does not exist. -/
lemma Staffed.cancelFiber_of_none (ok : e.Staffed names flying) (missing : e.fiber? f = none) :
    e.agenda.cancelFiber f = ([], e.agenda) := by
  have owned : e.agenda.ownedBy f = [] := by
    apply List.eq_nil_iff_forall_not_mem.2
    intro id listed
    obtain ⟨k, found, rfl⟩ := ok.waits.tidy.owned listed
    have there := ok.manned (Agenda.bond?_of_get? found)
    rw [missing] at there
    cases there
  have unlisted : e.agenda.owned.find? f = none := by
    cases entry : e.agenda.owned.find? f with
    | none => rfl
    | some ids =>
      rw [Agenda.ownedBy, entry] at owned
      cases owned
      exact absurd entry (ok.waits.tidy.entry f)
  rw [Agenda.cancelFiber, owned, Table.erase_of_find?_eq_none unlisted]
  rfl

/-- A fiber that has done nothing yet leaves only its arguments and its variables when it is
ended. -/
lemma teardown_new {x : Fiber} {cell : Option Ref} {arguments : List Ref} {machine : String}
    {image : Image} (besides : Besides ⟨e.fibers.next⟩ { e with fibers := e.fibers.insert x } e')
    (blank : x = { machine, image, arguments }) (found : e'.fiber? ⟨e.fibers.next⟩ =
      some { x with cell })
    (staffed : e.Staffed names flying) (rooted : e.Rooted) :
    ∃ fibers, e'.teardown ⟨e.fibers.next⟩ =
      { e with
        fibers
        heap := (e'.heap.releaseAll arguments).releaseOwner (.fiber ⟨e.fibers.next⟩) } := by
  have unmanned := staffed.cancelFiber_of_none e.fiber?_next
  have unrooted : e.roots.find? ⟨e.fibers.next⟩ = none := by
    cases root : e.roots.find? ⟨e.fibers.next⟩ with
    | none => rfl
    | some r => exact absurd (rooted _ (.inl (by rw [root]; rfl))) (Nat.lt_irrefl _)
  have other : e.main ≠ some ⟨e.fibers.next⟩ := fun main => Nat.lt_irrefl _ (rooted _ (.inr main))
  subst blank
  rw [teardown_eq found]
  obtain ⟨_, _, rfl⟩ := besides.rest
  simp only [unmanned, unrooted, if_neg other, Table.erase_of_find?_eq_none unrooted]
  exact ⟨_, rfl⟩

/-- The shared variables of a machine that was not loaded before. -/
def sharedSince (name : String) (e e' : Engine) : List Ref :=
  match e.machines.find? name, e'.machines.find? name with
  | none, some m => m.shared
  | _, _ => []

lemma sharedSince_of_missing (missing : e'.machines.find? name = none) :
    e.sharedSince name e' = [] := by
  rw [sharedSince, missing]
  cases e.machines.find? name <;> rfl

/-- What a launch that was refused leaves of an engine, besides the cells of its heap. -/
structure Restores (name : String) (e e' : Engine) : Prop where
  /-- Nothing but fibers, machines and the heap was touched. -/
  rest : ∃ fibers machines heap, e' = { e with fibers, machines, heap }
  fibers : ∀ f, e'.fiber? f = e.fiber? f
  machines : ∀ other, other ≠ name → e'.machines.find? other = e.machines.find? other
  owners : ∀ owner, owner ≠ .machine name →
    e'.heap.directory.find? owner = e.heap.directory.find? owner
  /-- The machine has all its shared variables, or there is nothing of it. -/
  machine : e'.Conforms (.machine name)
  /-- One that was loaded before is as it was. -/
  cached : ∀ m, e.machines.find? name = some m →
    e'.machines.find? name = some m ∧
      e'.heap.entries (.machine name) = e.heap.entries (.machine name)

/-- The cells are those that there were once the arguments are given up, and the shared variables of
a machine that was not loaded before. -/
def RestoresCells (name : String) (arguments : List Ref) (e e' : Engine) : Prop :=
  (e.heap.releaseAll arguments).Sprouts e.heap.cells.next (fun f => (e.fiber? f).isSome)
    (.machine name) 1 (e.sharedSince name e') e'.heap

variable {arguments : List Ref} {err : EngineError}

/-- A fiber that cannot be made is withdrawn. -/
private lemma withdraws {m : Machine} (ok : e.Orderly) (staffed : e.Staffed names flying)
    (rooted : e.Rooted) (failed : (match materialize ⟨e.fibers.next⟩ m.image
        { e with fibers := e.fibers.insert { machine := m.name, image := m.image, arguments } } with
      | .error err e₁ => .error err (e₁.teardown ⟨e.fibers.next⟩)
      | .ok cell e₁ =>
        match m.image.entry? with
        | none => .error (.fault .unknownState) ((e₁.teardown ⟨e.fibers.next⟩).release cell)
        | some entry =>
          .ok ⟨⟨e.fibers.next⟩, cell, entry⟩ e₁ : EStateM.Result EngineError Engine Spawned) =
      .error err e') :
    ∃ fibers heap, e' = { e with fibers, heap } ∧ (∀ f, e'.fiber? f = e.fiber? f) ∧
      heap.directory = e.heap.directory ∧
      ∀ p : FiberId → Bool, p ⟨e.fibers.next⟩ = false → e.heap.Genuine →
        (∀ r ∈ arguments, r.id < e.heap.cells.next) →
        (e.heap.releaseAll arguments).Sprouts e.heap.cells.next p (.fiber ⟨e.fibers.next⟩) 0
          [] heap := by
  have fresh : ({ e with
      fibers := e.fibers.insert { machine := m.name, image := m.image, arguments } } :
      Engine).fiber?
      ⟨e.fibers.next⟩ = some { machine := m.name, image := m.image, arguments } := by
    rw [fiber?_insert, if_pos rfl]
  have absent := ok.gone e.fiber?_next
  have made := materialize_besides m.image fresh
  have builds := fun p genuine unseen =>
      builds_materialize (p := p) m.image fresh absent genuine unseen
  cases run : materialize ⟨e.fibers.next⟩ m.image
      { e with fibers := e.fibers.insert { machine := m.name, image := m.image, arguments } } with
  | error err₁ e₁ =>
    simp only [run] at made failed builds
    obtain ⟨besides, -, cell, found⟩ := made
    obtain ⟨fibers, ended⟩ := teardown_new besides rfl found staffed rooted
    have gone := besides.fiber?_teardown found
    have forgotten := besides.directory_teardown found
    rw [ended] at gone forgotten failed
    cases failed
    have same := forgotten.trans (Table.erase_of_find?_eq_none absent)
    refine ⟨fibers, _, rfl, gone, same, fun p unseen genuine issued => ?_⟩
    exact Heap.Sprouts.vacate (builds p genuine unseen).2.2 issued
  | ok cell e₁ =>
    simp only [run] at made failed builds
    obtain ⟨besides, found, -⟩ := made
    obtain ⟨fibers, ended⟩ := teardown_new besides rfl found staffed rooted
    have gone := besides.fiber?_teardown found
    have forgotten := besides.directory_teardown found
    rw [ended] at gone forgotten failed
    cases entry : m.image.entry? with
    | some address =>
      simp only [entry] at failed
      cases failed
    | none =>
      simp only [entry] at failed
      cases failed
      refine ⟨fibers, _, rfl, gone, ?_, fun p unseen genuine issued => ?_⟩
      · refine (Heap.same_release _ cell).trans ?_
        exact forgotten.trans (Table.erase_of_find?_eq_none absent)
      · exact (Heap.Sprouts.vacate (builds p genuine unseen).2 issued).drop

/-- A launch that is refused gives up its arguments, and leaves nothing but a machine that was
loaded completely. -/
lemma restores_spawn (ok : e.Orderly) (staffed : e.Staffed names flying) (rooted : e.Rooted)
    (failed : spawn name arguments e = .error err e') :
    e.Restores name e' ∧
      (e.heap.Genuine → (∀ r ∈ arguments, r.id < e.heap.cells.next) →
        e.RestoresCells name arguments e') := by
  have spawned := meets_spawn (P := .nothing) name arguments e trivial
  rw [failed] at spawned
  obtain ⟨ok', develops⟩ := spawned.1.orderly ok
  -- Once the machine is there, the fiber is withdrawn.
  have withdrawn : ∀ {m kept e₁}, load name e = .ok m e₁ →
    Loads name (fun f => (e.fiber? f).isSome) kept e e₁ →
      e.sharedSince name e₁ = kept → e.Restores name e' ∧
        (e.heap.Genuine → (∀ r ∈ arguments, r.id < e.heap.cells.next) →
          e.RestoresCells name arguments e') := by
    rintro m _ e₁ loaded loads rfl
    have meets := meets_load (P := .nothing) name e trivial
    rw [loaded] at meets
    obtain ⟨staffed₁, -⟩ := meets.1.passes staffed
    unfold spawn at failed
    simp only [loaded] at failed
    obtain ⟨fibers, heap, rfl, gone, same, sprouts⟩ :=
      withdraws (meets.1.orderly ok).1 staffed₁ (meets.1.rooted rooted) failed
    obtain ⟨machines, heap₁, rfl⟩ := loads.rest
    refine ⟨⟨⟨_, _, _, rfl⟩, gone, loads.machines, fun owner other => ?_, ok' _, fun _ =>
      develops.machine⟩, ?_⟩
    · rw [same]
      exact loads.others.find? other
    · intro genuine issued
      have first := loads.cells genuine
      have unseen : (e.fiber? ⟨e.fibers.next⟩).isSome = false := by rw [e.fiber?_next]; rfl
      have second := sprouts (fun f => (e.fiber? f).isSome) unseen (first.genuine genuine)
        fun r listed => (issued r listed).trans_le first.next
      exact (first.releaseAll issued).trans first.issued first.next second
  cases found : e.machines.find? name with
  | some m =>
    refine withdrawn (load_of_found found) (.refl name _ e) ?_
    rw [sharedSince, found]
  | none =>
    have loads := loads_load (p := fun f => (e.fiber? f).isSome) ok found
    cases loaded : load name e with
    | ok m e₁ =>
      rw [loaded] at loads
      refine withdrawn loaded loads.2.2 ?_
      rw [sharedSince, found, loads.2.1]
    | error err₁ e₁ =>
      rw [loaded] at loads
      obtain ⟨-, -, same, loads⟩ := loads
      unfold spawn at failed
      simp only [loaded] at failed
      cases failed
      have missing : e₁.machines.find? name = none := same ▸ found
      obtain ⟨machines, heap, rfl⟩ := loads.rest
      refine ⟨⟨⟨_, _, _, rfl⟩, fun _ => rfl, loads.machines, fun owner other => ?_, ok' _,
        fun _ => develops.machine⟩, ?_⟩
      · exact (congrArg (·.find? owner) (Heap.same_releaseAll arguments heap)).trans
          (loads.others.find? other)
      · intro genuine issued
        have nothing : e.sharedSince name
            (({ e with machines, heap } : Engine).releaseAll arguments) = [] :=
          sharedSince_of_missing missing
        rw [RestoresCells, nothing]
        exact (loads.cells genuine).releaseAll issued

end FiberVM.Engine
