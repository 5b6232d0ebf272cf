import FiberVM.Proofs.Engine.Soundness

/-!
# Rules for engine operations

Triples for the ways in which engine operations are put together: operations on the heap, changes
that are made in any case or only after a failure, and reading a fiber.
-/

namespace FiberVM.Engine

variable {c : Conduct} {scene : Scene} {K K' L L' : Multiset Ref} {id : FiberId} {r : Ref}
  {v : Value} {α : Type} {P F F' : Engine → Prop} {Q Q' : α → Engine → Prop}

/-- A triple about an engine operation. -/
abbrev Runs (c : Conduct) (P : Engine → Prop) (m : EngineM α) (Q : α → Engine → Prop)
    (F : Engine → Prop) : Prop :=
  Triple (Precedes c) (Fault.Allowed c) P m Q F

/-! ## Combinators -/

/-- A change that is made in any case. -/
lemma runs_ensure {m} {change : Engine → Engine} (runs : Runs c P m Q F)
    (success : ∀ a, Turns (Precedes c) (Q a) change (Q' a))
    (failure : Turns (Precedes c) F change F') :
    Runs c P (m.ensure change) Q' F' :=
  Triple.ensure runs success failure

/-- A change that is made after a failure. -/
lemma runs_onFault {m} {change : Engine → Engine} (runs : Runs c P m Q F)
    (failure : Turns (Precedes c) F change F') :
    Runs c P (m.onFault change) Q F' := by
  intro e he
  have begun := runs e he
  unfold EngineM.onFault
  cases run : m e with
  | ok a e' =>
    rw [run] at begun
    exact begun
  | error fault e' =>
    rw [run] at begun
    obtain ⟨related, post⟩ := failure e' begun.2.2
    exact ⟨begun.1.trans related, begun.2.1, post⟩

lemma runs_orFault {option : Option α} {fault : Fault} (allowed : fault.isDangling = false)
    (failed : ∀ e, P e → F e) :
    Runs c P (EngineM.orFault option fault) (fun a e => P e ∧ option = some a) F := by
  unfold EngineM.orFault
  split
  case h_1 a => exact .pure fun e he => ⟨he, rfl⟩
  case h_2 => exact .throw (fun _ => allowed) failed

/-- A fiber that runs exists, so looking it up fails only under a host that cares for no hands. -/
lemma runs_fiber (member : id ∈ scene.crew.map (·.1)) :
    Runs c (Sound c scene K L) (EngineM.fiber id)
      (fun x e => e.Sound c scene K L ∧ e.fiber? id = some x) (Sound c scene K' L') := by
  intro e ok
  unfold EngineM.fiber
  cases hx : e.fiber? id with
  | some x => exact ⟨.refl c e, ok, hx⟩
  | none =>
    have missing : c ≠ .owning := by
      rintro rfl
      obtain ⟨y, hy, rfl⟩ := List.mem_map.1 member
      have present := (ok.consistent Heap.owning_ne_free).crew y hy
      rw [cellOf?, hx] at present
      cases present
    exact ⟨.refl c e, fun hc => absurd hc missing, ok.of_ne_owning missing⟩

/-- An operation on the heap that leaves the other parts of the engine alone. -/
lemma runs_onHeap {m} {T : α → Multiset Ref} {φ : Heap → Prop} {ψ : α → Heap → Prop}
    (runs : ∀ M N, Heap.Runs c (fun h => h.Sound c (K + M) (L + N) ∧ φ h) m
      (fun a h => h.Sound c (T a + M) (L' + N) ∧ ψ a h) (Heap.Sound c (K' + M) (L + N))) :
    Runs c (fun e => e.Sound c scene K L ∧ φ e.heap) (EngineM.onHeap m)
      (fun a e => e.Sound c scene (T a) L' ∧ ψ a e.heap) (Sound c scene K' L) := by
  rintro e ⟨ok, hφ⟩
  have begun := runs e.held e.weakly e.heap ⟨ok.heap, hφ⟩
  unfold EngineM.onHeap
  cases run : m e.heap with
  | ok a h =>
    rw [run] at begun
    exact ⟨.of_same rfl rfl rfl, ok.of_heap begun.1 begun.2.1, begun.2.2⟩
  | error fault h =>
    rw [run] at begun
    exact ⟨.of_same rfl rfl rfl, begun.2.1, ok.of_heap begun.1 begun.2.2⟩

/-! ## Operations on the heap -/

lemma runs_retain :
    Runs c (fun e => e.Sound c scene K L ∧ e.heap.Live c r) (EngineM.onHeap (Heap.retain r))
      (fun _ => Sound c scene ({r} + K) L) (Sound c scene K L) := by
  refine (runs_onHeap (T := fun _ => {r} + K) (ψ := fun _ _ => True) fun M N => ?_).post
    fun _ _ post => post.1
  exact Heap.runs_retain.post fun _ h ok => ⟨ok.cast (add_assoc _ _ _).symm rfl, trivial⟩

/-- References are taken to what lives. -/
lemma runs_retainAll {rs} :
    Runs c (fun e => e.Sound c scene K L ∧ ∀ r ∈ rs, e.heap.Live c r)
      (EngineM.onHeap (Heap.retainAll [] rs)) (fun _ => Sound c scene (rs + K) L)
      (Sound c scene K L) := by
  refine (runs_onHeap (T := fun _ => (rs : Multiset Ref) + K) (ψ := fun _ _ => True)
    (φ := fun h => ∀ r ∈ rs, h.Live c r) fun M N => ?_).post fun _ _ post => post.1
  rintro h ⟨ok, live⟩
  refine (Heap.runs_retainAll (d := h.directory) h ⟨⟨ok, rfl⟩, live⟩).imp ?_ fun _ ok => ok
  rintro _ h' ⟨ok', -⟩
  exact ⟨ok'.cast (add_assoc _ _ _).symm rfl, trivial⟩

lemma runs_downgrade :
    Runs c (fun e => e.Sound c scene K L ∧ e.heap.Live c r) (EngineM.onHeap (Heap.downgrade r))
      (fun _ => Sound c scene K ({r} + L)) (Sound c scene K' L) := by
  refine (runs_onHeap (T := fun _ => K) (ψ := fun _ _ => True) fun M N => ?_).post
    fun _ _ post => post.1
  exact Heap.runs_downgrade.post fun _ h ok => ⟨ok.cast rfl (add_assoc _ _ _).symm, trivial⟩

lemma runs_read :
    Runs c (fun e => e.Sound c scene K L ∧ e.heap.Live c r) (EngineM.onHeap (Heap.read r))
      (fun v e => e.Sound c scene K L ∧ e.heap.get? r = some v) (Sound c scene K L) :=
  runs_onHeap fun _ _ => Heap.runs_read

/-- A copy is in the hand. -/
lemma runs_copy :
    Runs c (fun e => e.Sound c scene K L ∧ e.heap.Live c r) (EngineM.onHeap (Heap.copy r))
      (fun v e => e.Sound c scene (v.refs + K) L ∧ v.instance? = none) (Sound c scene K L) := by
  refine runs_onHeap (φ := fun h => h.Live c r) (ψ := fun (v : Value) _ => v.instance? = none)
    fun M N => ?_
  rintro h ⟨ok, live⟩
  refine (Heap.runs_copy (d := h.directory) h ⟨⟨ok, rfl⟩, live⟩).imp ?_ fun _ ok => ok
  rintro v h' ⟨⟨ok', -⟩, plain⟩
  exact ⟨ok'.cast (add_assoc _ _ _).symm rfl, plain⟩

lemma runs_copyAll {rs} (held : ∀ r ∈ rs, r ∈ K) :
    Runs c (Sound c scene K L) (EngineM.onHeap (Heap.copyAll [] rs))
      (fun vs e => e.Sound c scene (Value.refsAll vs + K) L ∧ ∀ v ∈ vs, v.instance? = none)
      (Sound c scene K L) := by
  refine (runs_onHeap (φ := fun _ => True)
    (ψ := fun (vs : List Value) _ => ∀ v ∈ vs, v.instance? = none) fun M N => ?_).pre fun _ ok =>
      ⟨ok, trivial⟩
  refine (Heap.runs_copyAll fun r hr => Multiset.mem_add.2 (.inl (held r hr))).conseq
    (fun _ hs => hs.1) ?_ fun _ ok => ok
  rintro vs h ⟨ok, plain⟩
  exact ⟨ok.cast (add_assoc _ _ _).symm rfl, plain⟩

/-- A new cell is in the hand. -/
lemma runs_alloc (owner : Owner) (other : c ≠ .free → v.instance? = none) :
    Runs c (Sound c scene (v.refs + K) L) (EngineM.onHeap (Heap.alloc owner v))
      (fun r => Sound c scene ({r} + K) L) (Sound c scene K L) := by
  refine (runs_onHeap (T := fun r => {r} + K) (φ := fun _ => True) (ψ := fun _ _ => True)
    fun M N => ?_).conseq (fun _ ok => ⟨ok, trivial⟩) (fun _ _ post => post.1) fun _ ok => ok
  refine (Heap.runs_alloc owner other).conseq
    (fun _ hs => hs.1.cast (add_assoc _ _ _) rfl) ?_ fun _ ok => ok
  rintro r h ⟨ok, -⟩
  exact ⟨ok.cast (add_assoc _ _ _).symm rfl, trivial⟩

end FiberVM.Engine
