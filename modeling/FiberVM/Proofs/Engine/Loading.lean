import FiberVM.Proofs.Engine.Changes

/-!
# Loading machines and making fibers

A machine is loaded together with all its shared variables, and a fiber is made together with all
its local ones. Where one of them cannot be declared, those before it are given up, so that a
request which fails leaves none of them behind (`Engine.meets_load`, `Engine.meets_spawn`).

Declarations for an owner leave everything alone but the heap, and in the heap the variables of
other owners (`Engine.Declares`).
-/

namespace FiberVM

/-- A description has the name that can be read. -/
lemma Image.string?_of_describe {image : Image} {v} {d : String × VariableType}
    (described : image.describe v = .ok d) : image.string? v.name = some d.1 := by
  unfold Image.describe at described
  split at described
  case h_1 => cases described
  case h_2 => cases described
  case h_3 name _ named _ =>
    split at described
    case h_1 => cases described
    case h_2 =>
      cases described
      exact named

end FiberVM

namespace FiberVM.Engine

variable {P : Permit} {α : Type} {owner : Owner} {xs : List (String × Ref)} {e e' : Engine}
  {id : FiberId}

/-- An error that does not say that execution has gone astray. -/
abbrev Tolerable (err : EngineError) : Prop := ∀ fault, err = .fault fault → fault.isAstray = false

lemma tolerable_fault {fault : Fault} (tame : fault.isAstray = false) :
    Tolerable (.fault fault) := by
  rintro _ ⟨⟩
  exact tame

lemma tolerable_image (d : Defect) : Tolerable (.image d) := fun _ => nofun

/-- A request makes such changes, however it ends. -/
abbrev Meets (P : Permit) (m : RequestM α) (Q : α → Engine → Prop) : Prop :=
  Triple (Changes P) Tolerable (fun _ => True) m Q (fun _ => True)

/-! ## Declarations -/

/-- Nothing changes but the heap, and of the variables only those of an owner. -/
def Declares (owner : Owner) (e e' : Engine) : Prop :=
  ∃ heap : Heap, e' = { e with heap } ∧ e.heap.Spares owner heap

instance : Std.Refl (Declares owner) := ⟨fun e => ⟨e.heap, rfl, Std.Refl.refl _⟩⟩

instance : IsTrans Engine (Declares owner) := by
  refine ⟨?_⟩
  rintro e _ _ ⟨heap, rfl, first⟩ ⟨heap', rfl, later⟩
  exact ⟨heap', rfl, IsTrans.trans _ _ _ first later⟩

/-- The variables of an owner. -/
def Owns (owner : Owner) (xs : List (String × Ref)) (e : Engine) : Prop := e.heap.entries owner = xs

/-- A part of the declarations for an owner. -/
abbrev Attempts (owner : Owner) (I : Engine → Prop) (m : RequestM α) (Q : α → Engine → Prop) :
    Prop :=
  Triple (Declares owner) Tolerable I m Q (fun _ => True)

lemma attempts_describe (image : Image) (v : Variable) :
    Attempts owner (Owns owner xs) (describe image v)
      fun d e => Owns owner xs e ∧ image.string? v.name = some d.1 := by
  unfold describe
  split
  case h_1 d described => exact .pure fun _ owns => ⟨owns, Image.string?_of_describe described⟩
  case h_2 d _ => exact .throw (tolerable_image d) fun _ _ => trivial

/-- A tame operation declares nothing. -/
lemma attempts_onHeap {m : HeapM α} (tame : Tame m) :
    Attempts owner (Owns owner xs) (RequestM.onHeap m) fun _ => Owns owner xs := by
  intro e owns
  have run := tame e.heap trivial
  unfold RequestM.onHeap RequestM.ofFault EngineM.onHeap
  cases result : m e.heap with
  | ok a heap =>
    rw [result] at run
    exact ⟨⟨heap, rfl, .of_same run.1⟩, (run.1.entries owner).trans owns⟩
  | error fault heap =>
    rw [result] at run
    exact ⟨⟨heap, rfl, .of_same run.1⟩, tolerable_fault run.2.1, trivial⟩

/-- A declaration adds one variable. -/
lemma attempts_declare (name : String) (v : Value) :
    Attempts owner (Owns owner xs) (RequestM.onHeap (Heap.declare owner name v))
      fun r => Owns owner (xs ++ [(name, r)]) := by
  intro e owns
  unfold RequestM.onHeap RequestM.ofFault EngineM.onHeap
  rcases e.heap.declare_cases owner name v with ⟨r, heap, declared, more⟩ | ⟨heap, full, same⟩
  · rw [declared]
    refine ⟨⟨heap, rfl, more.others⟩, ?_⟩
    change heap.entries owner = xs ++ [(name, r)]
    rw [more.own, owns]
  · rw [full]
    exact ⟨⟨heap, rfl, .of_same same⟩, tolerable_fault rfl, trivial⟩

/-- Local variables are declared in their order. -/
lemma attempts_declareLocals (id : FiberId) (image : Image) (vs : List Variable) :
    Attempts (.fiber id) (Owns (.fiber id) xs) (declareLocals id image vs)
      fun _ e => ∃ new, Owns (.fiber id) (xs ++ new) e ∧ image.Lists vs new := by
  induction vs generalizing xs with
  | nil => exact .pure fun e owns => ⟨[], (List.append_nil xs).symm ▸ owns, .nil⟩
  | cons v rest ih =>
    refine (attempts_describe image v).bind fun d => .assume fun named => ?_
    refine (attempts_declare d.1 d.2.initial).bind fun r => ih.post fun _ e declared => ?_
    obtain ⟨new, owns, lists⟩ := declared
    rw [List.append_assoc] at owns
    exact ⟨(d.1, r) :: new, owns, .cons named lists⟩

/-! ## Machines -/

/-- A shared variable is declared and referred to weakly. -/
private lemma attempts_declareOne (name : String) (image : Image) (v : Variable) :
    Attempts (.machine name) (Owns (.machine name) xs)
      (do
        let (variableName, type) ← describe image v
        let r ← RequestM.onHeap (Heap.declare (.machine name) variableName type.initial)
        RequestM.onHeap (Heap.downgrade r)
        return r)
      fun r e => ∃ n, Owns (.machine name) (xs ++ [(n, r)]) e ∧ image.string? v.name = some n := by
  refine (attempts_describe image v).bind fun d => .assume fun named => ?_
  refine (attempts_declare d.1 d.2.initial).bind fun r =>
    (attempts_onHeap (Heap.tame_downgrade r)).bind fun _ => ?_
  exact .pure fun _ owns => ⟨d.1, owns, named⟩

/-- Shared variables are declared, or nothing is left of them. -/
lemma outcome_declareShared (name : String) (image : Image) (declared : List Ref)
    (vs : List Variable) (owns : Owns (.machine name) xs e) :
    Outcome (Declares (.machine name)) Tolerable
      (fun rs e => ∃ new, Owns (.machine name) (xs ++ new) e ∧ image.Lists vs new ∧
        rs = declared ++ new.map (·.2))
      (fun e => e.heap.directory.find? (.machine name) = none) e
        (declareShared name image declared vs e) := by
  induction vs generalizing declared xs e with
  | nil =>
    exact ⟨Std.Refl.refl e, [], (List.append_nil xs).symm ▸ owns, .nil,
      (List.append_nil declared).symm⟩
  | cons v rest ih =>
    have one := attempts_declareOne name image v e owns
    unfold declareShared
    dsimp only
    split
    case h_1 r e' run =>
      rw [run] at one
      obtain ⟨related, n, owns', named⟩ := one
      refine ((ih (declared ++ [r]) owns').trans related).imp ?_ fun _ gone => gone
      rintro rs e'' ⟨new, owns'', lists, rfl⟩
      rw [List.append_assoc] at owns''
      exact ⟨(n, r) :: new, owns'', .cons named lists, List.append_assoc ..⟩
    case h_2 err e' run =>
      rw [run] at one
      obtain ⟨related, tolerable, -⟩ := one
      -- With their owner, those that were declared before are forgotten as well.
      have forgotten :
        ((declared.foldl Heap.releaseWeak e'.heap).releaseOwner (.machine name)).directory =
          e'.heap.directory.erase (.machine name) := by
        rw [(Heap.fades_releaseOwner _ _).2, Heap.same_releaseWeakAll]
      refine ⟨IsTrans.trans _ _ _ related ⟨_, rfl, .of_forgotten forgotten⟩, tolerable, ?_⟩
      change ((declared.foldl Heap.releaseWeak e'.heap).releaseOwner
        (.machine name)).directory.find? _ = none
      rw [forgotten, Table.find?_erase, if_pos rfl]

/-- A machine that was not loaded yet is loaded with all its shared variables, or without any of
them. -/
private lemma outcome_load {name image} (new : e.machines.find? name = none) :
    Outcome (Changes P) Tolerable (fun m e => e.machines.find? name = some m) (fun _ => True) e
      ((do
        let shared ← declareShared name image [] image.shared
        let m : Machine := ⟨name, image, shared⟩
        modify fun e => { e with machines := e.machines.insert name m }
        return m : RequestM Machine) e) := by
  have declared := outcome_declareShared name image [] image.shared (rfl : Owns (.machine name) _ e)
  cases run : declareShared name image [] image.shared e with
  | error err e' =>
    rw [run] at declared
    obtain ⟨⟨heap, rfl, others⟩, tolerable, none⟩ := declared
    rw [bind_of_error run]
    exact ⟨.single (.refuse new (others.forgotten none)), tolerable, trivial⟩
  | ok shared e' =>
    rw [run] at declared
    obtain ⟨⟨heap, rfl, others⟩, entries, owns, lists, rfl⟩ := declared
    rw [bind_of_ok run]
    refine ⟨.single (.load (m := ⟨name, image, _⟩) new lists rfl ⟨owns, others⟩), ?_⟩
    exact (Table.find?_insert _ _ _ _).trans (if_pos rfl)

/-- A machine that is loaded can be found. -/
lemma meets_load (name : String) :
    Meets P (load name) fun m e => e.machines.find? name = some m := by
  intro e _
  unfold load
  rw [bind_of_ok (rfl : (get : RequestM Engine) e = .ok e e)]
  cases found : e.machines.find? name with
  | some m => exact ⟨.refl, found⟩
  | none =>
    simp only
    rw [bind_of_ok (rfl : (get : RequestM Engine) e = .ok e e)]
    cases e.source name with
    | none => exact ⟨.refl, tolerable_fault rfl, trivial⟩
    | some image =>
      simp only
      cases image.defect? with
      | some d => exact ⟨.refl, tolerable_image d, trivial⟩
      | none => exact outcome_load found

/-! ## Fibers -/

/-- Nothing changes besides a fiber and its variables. -/
structure Besides (id : FiberId) (e e' : Engine) : Prop where
  fibers : ∀ f, f ≠ id → e'.fiber? f = e.fiber? f
  next : e'.fibers.next = e.fibers.next
  rest : ∃ fibers heap, e' = { e with fibers, heap }
  others : e.heap.Spares (.fiber id) e'.heap

namespace Besides

instance : IsTrans Engine (Besides id) where
  trans _ _ _ first later :=
    { fibers := fun f other => (later.fibers f other).trans (first.fibers f other)
      next := later.next.trans first.next
      rest := by
        obtain ⟨_, _, rfl⟩ := first.rest
        exact later.rest
      others := IsTrans.trans _ _ _ first.others later.others }

lemma of_declares (declares : Declares (.fiber id) e e') : Besides id e e' := by
  obtain ⟨heap, rfl, others⟩ := declares
  exact ⟨fun _ _ => rfl, rfl, ⟨_, _, rfl⟩, others⟩

lemma setFiber {x} (found : e.fiber? id = some x) (y : Fiber) :
    Besides id e (e.setFiber id y) where
  fibers f other := by rw [fiber?_setFiber found, if_neg other]
  next := e.fibers.next_set id.id y
  rest := ⟨_, _, rfl⟩
  others := rfl

/-- A fiber that is added does not become a root. -/
lemma rooted {x : Fiber}
    (besides : Besides ⟨e.fibers.next⟩ { e with fibers := e.fibers.insert x } e')
    (rooted : e.Rooted) : e'.Rooted := by
  intro f named
  rw [besides.next]
  obtain ⟨_, _, rfl⟩ := besides.rest
  exact Nat.lt_succ_of_lt (rooted f named)

/-- A fiber that was added and ended is gone, and the others are there. -/
lemma fiber?_teardown {x y : Fiber}
    (besides : Besides ⟨e.fibers.next⟩ { e with fibers := e.fibers.insert x } e')
    (found : e'.fiber? ⟨e.fibers.next⟩ = some y) (f : FiberId) :
    (e'.teardown ⟨e.fibers.next⟩).fiber? f = e.fiber? f := by
  rw [teardown_eq found]
  refine (fiber?_erase f).trans ?_
  by_cases same : f = ⟨e.fibers.next⟩
  · rw [if_pos same, same]
    exact (e.fibers.get?_of_next_le le_rfl).symm
  · rw [if_neg same, besides.fibers f same, fiber?_insert, if_neg same]

/-- With it go its variables, and those of others stay. -/
lemma directory_teardown {y} (besides : Besides id e e') (found : e'.fiber? id = some y) :
    (e'.teardown id).heap.directory = e.heap.directory.erase (.fiber id) := by
  rw [teardown_eq found]
  exact (directory_vacate _ _ _ _ _).trans besides.others

end Besides

/-- A fiber gets its variables, or its cell is given up. -/
private lemma outcome_declareLocals {y} (image : Image) (cell : Ref) (found : e.fiber? id = some y)
    (owns : Owns (.fiber id) xs e) :
    Outcome (Besides id) Tolerable
      (fun r e' => r = cell ∧ e'.fiber? id = some y ∧
        ∃ new, Owns (.fiber id) (xs ++ new) e' ∧ image.Lists image.locals new)
      (fun e' => e'.fiber? id = some y) e (match declareLocals id image image.locals e with
        | .ok _ e => .ok cell e
        | .error err e => .error err (e.release cell)) := by
  have declared := attempts_declareLocals id image image.locals e owns
  split
  case h_1 e' run =>
    rw [run] at declared
    obtain ⟨declares, new, owns', lists⟩ := declared
    refine ⟨.of_declares declares, rfl, ?_, new, owns', lists⟩
    obtain ⟨heap, rfl, -⟩ := declares
    exact found
  case h_2 err e' run =>
    rw [run] at declared
    obtain ⟨declares, tolerable, -⟩ := declared
    have released : Declares (.fiber id) e' (e'.release cell) :=
      ⟨_, rfl, .of_same (e'.heap.same_release cell)⟩
    refine ⟨.of_declares (IsTrans.trans _ _ _ declares released), tolerable, ?_⟩
    obtain ⟨heap, rfl, -⟩ := declares
    exact found

/-- A fiber that exists gets its cell and its variables. -/
lemma materialize_besides {x : Fiber} (image : Image) (found : e.fiber? id = some x) :
    Outcome (Besides id) Tolerable
      (fun cell e' => e'.fiber? id = some { x with cell := some cell } ∧
        ∃ new, e'.heap.entries (.fiber id) = e.heap.entries (.fiber id) ++ new ∧
          image.Lists image.locals new)
      (fun e' => ∃ cell, e'.fiber? id = some { x with cell }) e (materialize id image e) := by
  have allocated := attempts_onHeap (Heap.tame_alloc (.fiber id) (.instance id)) e
    (rfl : Owns (.fiber id) _ e)
  unfold materialize
  cases run : RequestM.onHeap (Heap.alloc (.fiber id) (.instance id)) e with
  | error err e₁ =>
    rw [run] at allocated
    obtain ⟨declares, tolerable, -⟩ := allocated
    refine ⟨.of_declares declares, tolerable, x.cell, ?_⟩
    obtain ⟨heap, rfl, -⟩ := declares
    exact found
  | ok cell e₁ =>
    rw [run] at allocated
    obtain ⟨declares, owns⟩ := allocated
    have found₁ : e₁.fiber? id = some x := by
      obtain ⟨heap, rfl, -⟩ := declares
      exact found
    have there : (e₁.setFiber id { x with cell := some cell }).fiber? id =
        some { x with cell := some cell } := by
      rw [fiber?_setFiber found₁, if_pos rfl]
    -- The fiber keeps its cell in the engine even if a variable cannot be declared; ending it is up
    -- to the caller.
    have placed : Besides id e (e₁.setFiber id { x with cell := some cell }) :=
      IsTrans.trans _ _ _ (.of_declares declares) (.setFiber found₁ _)
    simp only [found₁]
    refine ((outcome_declareLocals image cell there owns).trans placed).imp ?_ fun _ still =>
      ⟨cell, still⟩
    rintro _ e' ⟨rfl, found', new, owns', lists⟩
    exact ⟨found', new, owns', lists⟩

/-- A fiber that was added with its variables was made. -/
private lemma change_make {name : String} {m : Machine} {x y : Fiber} {new : List (String × Ref)}
    (loaded : e.machines.find? name = some m)
    (besides : Besides ⟨e.fibers.next⟩ { e with fibers := e.fibers.insert x } e')
    (found : e'.fiber? ⟨e.fibers.next⟩ = some y) (machine : y.machine = m.name)
      (image : y.image = m.image)
    (awake : y.suspended = none) (blank : y.cache = .empty)
    (declared : e'.heap.entries (.fiber ⟨e.fibers.next⟩) =
      e.heap.entries (.fiber ⟨e.fibers.next⟩) ++ new)
    (lists : y.image.Lists y.image.locals new) : Change P e e' := by
  have made : ∀ f, e'.fiber? f = if f = ⟨e.fibers.next⟩ then some y else e.fiber? f := by
    intro f
    by_cases same : f = ⟨e.fibers.next⟩
    · rw [if_pos same, same, found]
    · rw [if_neg same, besides.fibers f same, fiber?_insert, if_neg same]
  have rooted := besides.rooted
  have next := besides.next
  have others := besides.others
  obtain ⟨_, _, rfl⟩ := besides.rest
  exact .make loaded machine image awake made next rfl rfl rfl lists
    ⟨declared, others⟩ blank rfl rfl rooted

/-- Nothing is left of a fiber that was added and ended before it was made. -/
private lemma changes_miss {x y : Fiber}
    (besides : Besides ⟨e.fibers.next⟩ { e with fibers := e.fibers.insert x } e')
    (found : e'.fiber? ⟨e.fibers.next⟩ = some y) : Changes P e (e'.teardown ⟨e.fibers.next⟩) := by
  have gone := besides.fiber?_teardown found
  have forgotten := besides.directory_teardown found
  have rooted := fun rooted =>
      (changes_teardown (P := P) e' ⟨e.fibers.next⟩).rooted (besides.rooted rooted)
  have next := besides.next
  obtain ⟨_, _, rfl⟩ := besides.rest
  rw [teardown_eq found] at gone forgotten rooted ⊢
  exact .single (.miss gone next rfl rfl rfl forgotten rfl rfl rooted)

/-- A fiber of a machine is made with all its variables, or nothing is left of it. -/
lemma meets_spawn (name : String) (arguments : List Ref) :
    Meets P (spawn name arguments) fun _ _ => True := by
  intro e _
  have loaded := meets_load (P := P) name e trivial
  unfold spawn
  cases run : load name e with
  | error err e₁ =>
    rw [run] at loaded
    exact ⟨loaded.1.trans ((aside_releaseAll arguments).changes e₁), loaded.2.1, trivial⟩
  | ok m e₁ =>
    rw [run] at loaded
    obtain ⟨changes, found⟩ := loaded
    let x : Fiber := { machine := m.name, image := m.image, arguments }
    let e₂ : Engine := { e₁ with fibers := e₁.fibers.insert x }
    have fresh : e₂.fiber? ⟨e₁.fibers.next⟩ = some x := by rw [fiber?_insert, if_pos rfl]
    have made := materialize_besides m.image fresh
    dsimp only
    cases run' : materialize ⟨e₁.fibers.next⟩ m.image e₂ with
    | error err e₃ =>
      rw [run'] at made
      obtain ⟨besides, tolerable, cell, there⟩ := made
      exact ⟨changes.trans (changes_miss besides there), tolerable, trivial⟩
    | ok cell e₃ =>
      rw [run'] at made
      obtain ⟨besides, there, new, declared, lists⟩ := made
      have whole : Changes P e e₃ :=
        changes.tail (change_make found besides there rfl rfl rfl rfl declared lists)
      dsimp only
      split
      · have ended := (whole.trans (changes_teardown e₃ ⟨e₁.fibers.next⟩)).trans
          ((aside_release cell).changes _)
        exact ⟨ended, tolerable_fault rfl, trivial⟩
      · exact ⟨whole, trivial⟩

end FiberVM.Engine
