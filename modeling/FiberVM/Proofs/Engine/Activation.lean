import FiberVM.Engine.Activation
import FiberVM.Proofs.Engine.Rules
import FiberVM.Proofs.Engine.Teardown

/-!
# What activations hold

A run of a fiber holds its cell, its frame and what its loops have yet to run over
(`Activation.refs`). A run begins by taking these references, moves them about when loops begin and
end, and gives up all of them when it ends.
-/

namespace FiberVM

open Engine

/-- The references that a loop holds. -/
def Loop.refs (l : Loop) : Multiset Ref := (l.rest.refs : Multiset Ref) + (l.outer : Multiset Ref)

namespace Activation

variable {c : Conduct} {scene : Scene} {K L : Multiset Ref} {e : Engine} {a : Activation}

/-- The references that the loops of an activation hold. -/
def loopRefs (loops : List Loop) : Multiset Ref := (loops.map Loop.refs).sum

@[simp] lemma loopRefs_nil : loopRefs [] = 0 := rfl

@[simp] lemma loopRefs_cons (l : Loop) (loops : List Loop) :
    loopRefs (l :: loops) = l.refs + loopRefs loops := rfl

/-- The references that an activation holds. -/
def refs (a : Activation) : Multiset Ref :=
  {a.cell} + ((a.frame : Multiset Ref) + loopRefs a.loops)

lemma cell_mem_refs (a : Activation) : a.cell ∈ a.refs :=
  Multiset.mem_add.2 (.inl (Multiset.mem_singleton_self a.cell))

lemma frame_mem_refs (a : Activation) {r} (hr : r ∈ a.frame) : r ∈ a.refs :=
  Multiset.mem_add.2 (.inr (Multiset.mem_add.2 (.inl hr)))

/-! ## The beginning of a run -/

lemma fiber?_onHeap {α : Type} {m : HeapM α} {x : α} {e e' : Engine} {f : FiberId}
    (run : EngineM.onHeap m e = .ok x e') : e'.fiber? f = e.fiber? f := by
  obtain ⟨heap, -, rfl⟩ := onHeap_ok run
  rfl

/-- A run begins outside of loops, with the arguments of its fiber. -/
lemma begin_ok {f continuation depth start e e' a}
    (begun : begin f continuation depth start e = .ok a e') :
    ∃ x, e.fiber? f = some x ∧ a.fiber = f ∧ a.frame = x.arguments ∧ a.loops = [] ∧
      e'.fibers = e.fibers ∧ a.image = x.image := by
  obtain ⟨x, e₁, looked, rest⟩ := ok_of_bind begun
  obtain ⟨found, rfl⟩ := fiber_ok looked
  obtain ⟨cell, e₂, known, retaining⟩ := ok_of_bind rest
  obtain ⟨-, rfl⟩ := orFault_ok known
  obtain ⟨_, e₃, retained, taking⟩ := ok_of_bind retaining
  obtain ⟨heap, -, rfl⟩ := onHeap_ok retained
  obtain ⟨_, e₄, taken, made⟩ := ok_of_bind taking
  obtain ⟨heap', -, rfl⟩ := onHeap_ok (onFault_ok taken)
  cases made
  exact ⟨x, found, rfl, rfl, rfl, rfl, rfl⟩

/-- A fiber whose cell can be relied on to have its value. -/
def Startable (c : Conduct) (f : FiberId) (e : Engine) : Prop :=
  c = .owning → ∃ r, e.cellOf? f = some (some r) ∧ 0 < e.heap.strong r

/-- What is known of an engine where a run has begun. -/
structure Begun (c : Conduct) (scene : Scene) (K L : Multiset Ref) (f : FiberId)
    (continuation : Option ContinuationId) (a : Activation) (e : Engine) : Prop where
  sound : e.Sound c scene (a.refs + K) L
  fiber : a.fiber = f
  cell : e.cellOf? f = some (some a.cell)
  continuation : a.continuation = continuation

/-- A run takes references to the cell and to the arguments of the fiber. -/
lemma runs_begin (f : FiberId) (continuation : Option ContinuationId) (depth start : Nat) :
    Runs c (fun e => e.Sound c scene K L ∧ Startable c f e) (begin f continuation depth start)
      (Begun c scene K L f continuation) (Sound c scene K L) := by
  have looked : Runs c (fun e => e.Sound c scene K L ∧ Startable c f e) (EngineM.fiber f)
      (fun x e => (e.Sound c scene K L ∧ Startable c f e) ∧ e.fiber? f = some x)
      (Sound c scene K L) := by
    rintro e ⟨ok, startable⟩
    unfold EngineM.fiber
    cases hx : e.fiber? f with
    | some x => exact ⟨.refl c e, ⟨ok, startable⟩, hx⟩
    | none =>
      refine ⟨.refl c e, fun hc => ?_, ok⟩
      obtain ⟨r, hr, -⟩ := startable hc
      rw [cellOf?, hx] at hr
      cases hr
  refine looked.bind fun x => ?_
  cases hcell : x.cell with
  | none =>
    rintro e ⟨⟨ok, startable⟩, hx⟩
    refine ⟨.refl c e, fun hc => ?_, ok⟩
    obtain ⟨r, hr, -⟩ := startable hc
    rw [cellOf?_of_fiber? hx, hcell] at hr
    cases hr
  | some cell =>
    have retained : Runs c
        (fun e => (e.Sound c scene K L ∧ e.heap.Live c cell) ∧ e.fiber? f = some x)
        (EngineM.onHeap (Heap.retain cell))
        (fun _ e => e.Sound c scene ({cell} + K) L ∧ e.fiber? f = some x) (Sound c scene K L) :=
      runs_retain.frame fun s _ t run hx => (fiber?_onHeap run).trans hx
    have live : ∀ e, (e.Sound c scene K L ∧ Startable c f e) ∧ e.fiber? f = some x →
        (e.Sound c scene K L ∧ e.heap.Live c cell) ∧ e.fiber? f = some x := by
      rintro e ⟨⟨ok, startable⟩, hx⟩
      refine ⟨⟨ok, fun hc => ?_⟩, hx⟩
      obtain ⟨r, hr, pos⟩ := startable hc
      rw [cellOf?_of_fiber? hx, hcell] at hr
      cases hr
      exact pos
    have taken : Runs c (fun e => e.Sound c scene ({cell} + K) L ∧ e.fiber? f = some x)
        ((EngineM.onHeap (Heap.retainAll [] x.arguments)).onFault (·.release cell))
        (fun _ e => e.Sound c scene ((x.arguments : Multiset Ref) + ({cell} + K)) L ∧
          e.fiber? f = some x) (Sound c scene K L) := by
      refine runs_onFault (Triple.pre (Triple.frame (I := fun e => e.fiber? f = some x)
        runs_retainAll fun s _ t run hx => (fiber?_onHeap run).trans hx) ?_) (turns_release cell)
      rintro e ⟨ok, hx⟩
      refine ⟨⟨ok, fun r hr => ok.live_of_held (mem_held_of_fiber hx ?_)⟩, hx⟩
      exact Multiset.mem_add.2 (.inr hr)
    refine (retained.pre live).bind fun _ => taken.bind fun _ => Triple.get.bind fun seen =>
      .pure ?_
    rintro e ⟨⟨ok, hx⟩, -⟩
    refine ⟨ok.cast ?_ rfl, rfl, by rw [cellOf?_of_fiber? hx, hcell], rfl⟩
    simp only [refs, loopRefs_nil]
    abel

/-! ### Runs that do not begin -/

/-- An operation that fails only because something was dropped. -/
abbrev FailsDangling {σ α : Type} (m : EStateM Fault σ α) : Prop :=
  Triple (fun _ _ => True) (·.isDangling = true) (fun _ => True) m (fun _ _ => True) (fun _ => True)

lemma failsDangling_fiber (f : FiberId) : FailsDangling (EngineM.fiber f) := by
  intro e _
  unfold EngineM.fiber
  cases e.fiber? f with
  | some x => exact ⟨trivial, trivial⟩
  | none => exact ⟨trivial, rfl, trivial⟩

/-- An operation on the heap fails for no other reason. -/
lemma FailsDangling.onHeap {m : HeapM Unit} (fails : FailsDangling m) :
    FailsDangling (EngineM.onHeap m) := by
  intro e _
  have outcome := fails e.heap trivial
  unfold EngineM.onHeap
  cases run : m e.heap with
  | ok a h => exact ⟨trivial, trivial⟩
  | error fault h =>
    rw [run] at outcome
    exact ⟨trivial, outcome.2.1, trivial⟩

/-- Undoing makes no other fault. -/
lemma FailsDangling.onFault {m : EngineM Unit} (fails : FailsDangling m) (undo : Engine → Engine) :
    FailsDangling (m.onFault undo) := by
  intro e _
  have outcome := fails e trivial
  unfold EngineM.onFault
  cases run : m e with
  | ok a e' => exact ⟨trivial, trivial⟩
  | error fault e' =>
    rw [run] at outcome
    exact ⟨trivial, outcome.2.1, trivial⟩

lemma failsDangling_retain (r : Ref) : FailsDangling (Heap.retain r) := by
  intro h _
  unfold Heap.retain
  cases h.retain? r with
  | some h' => exact ⟨trivial, trivial⟩
  | none => exact ⟨trivial, rfl, trivial⟩

/-- References are refused only to what was dropped. -/
lemma failsDangling_retainAll (taken rs : List Ref) : FailsDangling (Heap.retainAll taken rs) := by
  induction rs generalizing taken with
  | nil => exact fun h _ => ⟨trivial, trivial⟩
  | cons r rest ih =>
    intro h _
    unfold Heap.retainAll
    cases h.retain? r with
    | some h' => exact ih (r :: taken) h' trivial
    | none => exact ⟨trivial, rfl, trivial⟩

/-- A run fails to begin only if something was dropped. -/
lemma failsDangling_begin (f : FiberId) (continuation : Option ContinuationId) (depth start : Nat) :
    FailsDangling (begin f continuation depth start) := by
  have : IsTrans Engine fun _ _ => True := ⟨fun _ _ _ _ _ => trivial⟩
  refine (failsDangling_fiber f).bind fun x => ?_
  cases x.cell with
  | none => exact fun e _ => ⟨trivial, rfl, trivial⟩
  | some cell =>
    have arguments := (failsDangling_retainAll [] x.arguments).onHeap.onFault (·.release cell)
    refine (failsDangling_retain cell).onHeap.bind fun _ => arguments.bind fun _ => ?_
    exact fun e _ => ⟨trivial, trivial⟩

/-- A run that does not begin has found its fiber or a cell of it gone. -/
lemma begin_error {f continuation depth start fault e e'}
    (failed : begin f continuation depth start e = .error fault e') :
    fault.isDangling = true := by
  have outcome := failsDangling_begin f continuation depth start e trivial
  rw [failed] at outcome
  exact outcome.2.1

/-- A run of a fiber whose cell can be relied on begins. -/
lemma begin_of_startable {f} (ok : e.Sound .owning scene K L) (startable : Startable .owning f e)
    (continuation : Option ContinuationId) (depth start : Nat) :
    ∃ a e', begin f continuation depth start e = .ok a e' := by
  have begun := runs_begin f continuation depth start e ⟨ok, startable⟩
  cases run : begin f continuation depth start e with
  | ok a e' => exact ⟨a, e', rfl⟩
  | error fault e' =>
    rw [run] at begun
    have allowed := begun.2.1 rfl
    rw [begin_error run] at allowed
    cases allowed

/-- Where the cell of a fiber was dropped, no run of it begins and nothing is changed. -/
lemma begin_of_not_startable {f} (ok : e.Sound c scene K L) (gone : ¬ Startable c f e)
    (continuation : Option ContinuationId) (depth start : Nat) :
    ∃ fault, begin f continuation depth start e = .error fault e := by
  obtain ⟨owns, unreachable⟩ := Classical.not_imp.1 gone
  subst owns
  cases hx : e.fiber? f with
  | none =>
    refine ⟨.fiberDestroyed, ?_⟩
    simp [begin, EngineM.fiber, hx, bind, EStateM.bind]
  | some x =>
    cases hcell : x.cell with
    | none =>
      refine ⟨.fiberDestroyed, ?_⟩
      simp [begin, EngineM.fiber, EngineM.orFault, hx, hcell, bind, EStateM.bind]
      rfl
    | some r =>
      have dropped : e.heap.retain? r = none := by
        refine Option.eq_none_iff_forall_ne_some.2 fun h retained => unreachable ⟨r, ?_, ?_⟩
        · rw [cellOf?_of_fiber? hx, hcell]
        · obtain ⟨v, value⟩ := Heap.get?_of_retain? retained
          exact (ok.consistent Heap.owning_ne_free).tidy.strong_pos_of_get? value
      refine ⟨.valueFreed, ?_⟩
      simp [begin, EngineM.fiber, EngineM.orFault, EngineM.onHeap, Heap.retain, hx, hcell, dropped,
        bind, EStateM.bind, pure, EStateM.pure]

/-! ## Loops -/

/-- Leaving loops gives up what they hold, but for the frame outside of them. -/
lemma turns_unwindLoops (loops : List Loop) (frame : List Ref)
    (ok : e.Sound c scene (frame + (loopRefs loops + K)) L) :
    Precedes c e (unwindLoops loops frame e).2 ∧
      (unwindLoops loops frame e).2.Sound c scene ((unwindLoops loops frame e).1 + K) L := by
  induction loops generalizing frame e with
  | nil => exact ⟨.refl c e, ok.cast (by simp [unwindLoops]) rfl⟩
  | cons l loops ih =>
    have hand : (frame : Multiset Ref) + (loopRefs (l :: loops) + K) =
        frame + (l.rest.refs + ((l.outer : Multiset Ref) + (loopRefs loops + K))) := by
      rw [loopRefs_cons, Loop.refs]
      abel
    obtain ⟨related, inside⟩ := ((turns_releaseAll frame).comp (turns_releaseAll l.rest.refs)) e
      (ok.cast hand rfl)
    obtain ⟨related', outside⟩ := ih l.outer inside
    exact ⟨related.trans related', outside⟩

/-- An activation outside of all loops holds its cell and its frame. -/
lemma turns_leaveLoops (ok : e.Sound c scene (a.refs + K) L) :
    Precedes c e (a.leaveLoops e).2 ∧
      (a.leaveLoops e).2.Sound c scene ((a.leaveLoops e).1.refs + K) L := by
  have hand : a.refs + K = a.frame + (loopRefs a.loops + ({a.cell} + K)) := by
    rw [refs]
    abel
  obtain ⟨related, ok'⟩ := turns_unwindLoops a.loops a.frame (ok.cast hand rfl)
  refine ⟨related, ok'.cast ?_ rfl⟩
  simp only [leaveLoops, refs, loopRefs_nil]
  abel

/-- An activation that ends gives up what it holds. -/
lemma turns_finish (a : Activation) :
    Turns (Precedes c) (Sound c scene (a.refs + K) L) a.finish (Sound c scene K L) := by
  intro e ok
  have hand : a.refs + K = a.frame + (loopRefs a.loops + ({a.cell} + K)) := by
    rw [refs]
    abel
  obtain ⟨related, ok'⟩ := turns_unwindLoops a.loops a.frame (ok.cast hand rfl)
  obtain ⟨related', ok''⟩ := ((turns_releaseAll (unwindLoops a.loops a.frame e).1).comp
    (turns_release a.cell)) _ ok'
  exact ⟨related.trans related', ok''⟩

/-- What is known of an activation that goes on with a loop. -/
structure Iterated (c : Conduct) (scene : Scene) (K L : Multiset Ref) (a a' : Activation)
    (e : Engine) : Prop where
  sound : e.Sound c scene (a'.refs + K) L
  same : a'.fiber = a.fiber ∧ a'.cell = a.cell ∧ a'.continuation = a.continuation

/-- The next element of a loop becomes the frame, and the frame outside of the loop is kept. -/
lemma runs_iterate (a : Activation) (l : Loop) (outer : l.outer = a.frame) :
    Runs c (Sound c scene ((l.rest.refs : Multiset Ref) + (a.refs + K)) L) (a.iterate l)
      (Iterated c scene K L a) (Sound c scene (a.refs + K) L) := by
  have enter : ∀ (r : Ref) (rest : Generator),
      Runs c (Sound c scene ({r} + ((rest.refs : Multiset Ref) + (a.refs + K))) L)
        (do
          if (← get).config.maxDepth ≤ a.depth then
            modify fun e => (e.release r).releaseAll rest.refs
            throw .stackOverflow
          return { a with frame := [r], loops := { l with rest } :: a.loops, next := l.body } :
            EngineM Activation)
        (Iterated c scene K L a) (Sound c scene (a.refs + K) L) := by
    intro r rest
    refine Triple.get.bind fun seen => ?_
    split
    case isTrue =>
      have given : Turns (Precedes c)
          (fun e => e.Sound c scene ({r} + ((rest.refs : Multiset Ref) + (a.refs + K))) L ∧
            seen = e)
          (fun e => (e.release r).releaseAll rest.refs) (Sound c scene (a.refs + K) L) :=
            fun e hs =>
        ((turns_release r).comp (turns_releaseAll rest.refs)) e hs.1
      refine (Triple.modify given).bind fun _ => ?_
      exact fun e ok => ⟨.refl c e, fun _ => rfl, ok⟩
    case isFalse =>
      refine .pure fun e hs => ⟨hs.1.cast ?_ rfl, rfl, rfl, rfl⟩
      simp only [refs, loopRefs_cons, Loop.refs, outer, Multiset.coe_singleton]
      abel
  have leave : Runs c (Sound c scene (0 + (a.refs + K)) L)
      (pure { a with next := l.exit } : EngineM Activation)
      (Iterated c scene K L a) (Sound c scene (a.refs + K) L) :=
    .pure fun e ok => ⟨ok.cast (zero_add _) rfl, rfl, rfl, rfl⟩
  unfold iterate
  dsimp only
  split
  case h_1 none_left =>
    rw [none_left]
    exact leave
  case h_2 r rest left =>
    rw [left]
    refine (enter r (.elements rest)).pre fun e ok => ok.cast ?_ rfl
    simp only [Generator.refs, ← Multiset.cons_coe, ← Multiset.singleton_add]
    abel
  case h_3 n limit counting =>
    rw [counting]
    split
    case isTrue =>
      have allocated : Runs c (Sound c scene (0 + (a.refs + K)) L)
          (EngineM.onHeap (Heap.allocTemporary (.int (Int64.ofNat n))))
          (fun r => Sound c scene ({r} + (a.refs + K)) L) (Sound c scene (a.refs + K) L) :=
        runs_alloc (v := .int (Int64.ofNat n)) .temporary fun _ => rfl
      refine allocated.bind fun r => ?_
      exact (enter r (.count (n + 1) limit)).pre fun e ok => ok.cast (by simp [Generator.refs]) rfl
    case isFalse => exact leave

end Activation

end FiberVM
