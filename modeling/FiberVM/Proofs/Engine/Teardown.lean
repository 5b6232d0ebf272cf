import FiberVM.Engine.Lifecycle
import FiberVM.Proofs.Engine.Soundness
import FiberVM.Proofs.Heap.Variables

/-!
# What the end of a fiber does to an engine

Ending a fiber cancels what it waits for and gives up everything that it holds, so that the hands
are left as they are. The cell of the fiber may live on, if somebody else refers to it. A fiber that
has lost its cell is ended when orphans are reaped; while this goes on, the orphans that are left
are still about to end.
-/

namespace FiberVM.Engine

variable {c : Conduct} {crew : List (FiberId × Ref)} {lost lost' : List FiberId}
  {K L : Multiset Ref} {e : Engine} {id : FiberId} {x : Fiber} {a : Agenda}

/-! ## The heap after a fiber has ended -/

/-- What a fiber gives up in the heap. -/
def vacate (x : Fiber) (id : FiberId) (cells : List Ref) (root : Option Ref) (h : Heap) : Heap :=
  let h := h.releaseAll cells
  let h := h.releaseAll (x.stack.reverse.filterMap (·))
  let h := h.releaseAll x.receivers.reverse
  let h := h.releaseAll x.arguments
  let h := (x.cache.values.filterMap Target.ref?).foldl Heap.releaseWeak h
  let h := h.releaseOwner (.fiber id)
  match root with
  | some root => h.release root
  | none => h

/-- What ending a fiber does. -/
lemma teardown_eq (hx : e.fiber? id = some x) :
    e.teardown id =
      { e with
        fibers := e.fibers.erase id.id
        agenda := (e.agenda.cancelFiber id).2
        heap := vacate x id (e.agenda.cancelFiber id).1 (e.roots.find? id) e.heap
        roots := e.roots.erase id
        main := if e.main = some id then none else e.main } := by
  rw [teardown, hx]
  rfl

lemma teardown_of_none (missing : e.fiber? id = none) : e.teardown id = e := by
  rw [teardown, missing]

/-- The weak references of a fiber are those of the targets that it remembers. -/
private lemma coe_cache (x : Fiber) :
    ((x.cache.values.filterMap Target.ref? : List Ref) : Multiset Ref) = x.weakRefs := by
  have entries : ∀ entries : List (Nat × Target),
      (((entries.map (·.2)).filterMap Target.ref? : List Ref) : Multiset Ref) =
        (entries.map fun y => ((y.2.ref?.toList : List Ref) : Multiset Ref)).sum := by
    intro entries
    induction entries with
    | nil => rfl
    | cons y rest ih =>
      rw [List.map_cons, List.map_cons, List.sum_cons, ← ih, Multiset.coe_add]
      cases ref : y.2.ref? with
      | none => rw [List.filterMap_cons_none ref]; rfl
      | some r => rw [List.filterMap_cons_some ref]; rfl
  exact entries x.cache.entries

/-- A fiber that ends gives up what it holds, the references of its continuations and its root. -/
lemma turns_vacate (x : Fiber) (id : FiberId) (cells : List Ref) (root : Option Ref) :
    Turns (Heap.Precedes c)
      (Heap.Sound c (cells + (x.refs + ((root.toList : List Ref) + K))) (x.weakRefs + L))
      (vacate x id cells root) (Heap.Sound c K L) := by
  have rooted : Turns (Heap.Precedes c) (Heap.Sound c ((root.toList : List Ref) + K) L)
      (fun h => match root with
        | some root => h.release root
        | none => h) (Heap.Sound c K L) := by
    cases root with
    | some root => exact Heap.turns_release root
    | none => exact fun h ok => ⟨Std.Refl.refl h, ok.cast (zero_add K) rfl⟩
  have all := (Heap.turns_releaseAll (c := c) cells).comp <|
    (Heap.turns_releaseAll (x.stack.reverse.filterMap (·))).comp <|
    (Heap.turns_releaseAll x.receivers.reverse).comp <|
    (Heap.turns_releaseAll x.arguments).comp <|
    (Heap.turns_releaseWeakAll (x.cache.values.filterMap Target.ref?)).comp <|
    (Heap.turns_releaseOwner (.fiber id)).comp rooted
  intro h ok
  refine all h (ok.cast ?_ ?_)
  · rw [List.filterMap_reverse, Multiset.coe_reverse, Multiset.coe_reverse, Fiber.refs]
    abel
  · rw [coe_cache]

/-- Of the variables, those of the fiber are forgotten. -/
lemma directory_vacate (x : Fiber) (id : FiberId) (cells : List Ref) (root : Option Ref)
    (h : Heap) :
    (vacate x id cells root h).directory = h.directory.erase (.fiber id) := by
  have rooted : ∀ h : Heap, (match root with
      | some root => h.release root
      | none => h).directory = h.directory := by
    intro h
    cases root with
    | some root => exact h.same_release root
    | none => rfl
  unfold vacate
  dsimp only
  rw [rooted, (Heap.fades_releaseOwner _ _).2, Heap.same_releaseWeakAll, Heap.same_releaseAll,
    Heap.same_releaseAll, Heap.same_releaseAll, Heap.same_releaseAll]

/-- A fiber that has ended has no variables. -/
lemma contains_vacate (x : Fiber) (id : FiberId) (cells : List Ref) (root : Option Ref) (h : Heap) :
    (vacate x id cells root h).directory.contains (.fiber id) = false := by
  rw [directory_vacate, Table.contains, Table.find?_erase, if_pos rfl]
  rfl

/-! ## The engine after a fiber has ended -/

lemma fiber?_erase (g : FiberId) :
    ({ e with fibers := e.fibers.erase id.id } : Engine).fiber? g =
      if g = id then none else e.fiber? g := by
  rw [fiber?, Arena.get?_erase]
  by_cases same : g = id
  · simp [same]
  · have ne : g.id ≠ id.id := fun ids => same (FiberId.eq_of_id_eq ids)
    simp [same, ne, fiber?]

lemma cellOf?_erase (g : FiberId) :
    ({ e with fibers := e.fibers.erase id.id } : Engine).cellOf? g =
      if g = id then none else e.cellOf? g := by
  rw [cellOf?, fiber?_erase]
  split <;> rfl

/-- A fiber that has no continuations, no root and no variables left can go. -/
lemma Consistent.erase (ok : e.Consistent ⟨crew, lost⟩)
    (idle : ∀ x ∈ crew, x.1 ≠ id)
    (fewer : ∀ f ∈ lost', f ∈ lost)
    (rest : ∀ f ∈ lost, f ≠ id → f ∈ lost')
    (bond : ∀ k f r, a.bond? k = some (f, r) → e.agenda.bond? k = some (f, r) ∧ f ≠ id)
    (owners : e.heap.directory.contains (.fiber id) = false) :
    Consistent ⟨crew, lost'⟩
      { e with
        fibers := e.fibers.erase id.id
        agenda := a
        roots := e.roots.erase id
        main := if e.main = some id then none else e.main } := by
  have left : ∀ {g : FiberId} {y : Option Ref},
      ({ e with fibers := e.fibers.erase id.id } : Engine).cellOf? g = some y →
        g ≠ id ∧ e.cellOf? g = some y := by
    intro g y hg
    rw [cellOf?_erase] at hg
    split at hg
    case isTrue => cases hg
    case isFalse different => exact ⟨different, hg⟩
  have stays : ∀ {g : FiberId} {y : Option (Option Ref)}, g ≠ id → e.cellOf? g = y →
      ({ e with fibers := e.fibers.erase id.id } : Engine).cellOf? g = y := by
    intro g y different hg
    rw [cellOf?_erase, if_neg different, hg]
  exact
    { tidy := ok.tidy
      natives := ok.natives
      builtin := by
        intro g y hy
        have present := (fiber?_erase g).symm.trans hy
        split at present
        case isTrue => cases present
        case isFalse => exact ok.builtin g y present
      instances := by
        intro r g hg
        obtain ⟨issued, canonical⟩ := ok.instances r g hg
        exact ⟨issued, fun y hy => canonical y (left hy).2⟩
      celled := by
        intro g r hg
        obtain ⟨different, hg⟩ := left hg
        obtain ⟨issued, state⟩ := ok.celled g r hg
        exact ⟨issued, state.imp_right fun gone =>
          ⟨gone.1, gone.2.imp_right fun l => rest g l different⟩⟩
      complete := by
        intro g hg
        obtain ⟨different, hg⟩ := left hg
        exact rest g (ok.complete g hg) different
      orphans := by
        intro g ends
        obtain ⟨issued, gone⟩ := ok.orphans g (ends.imp_right (fewer g))
        exact ⟨issued, fun r hr => gone r (left hr).2⟩
      waiting := by
        intro k g r bound
        obtain ⟨bound, different⟩ := bond k g r bound
        exact stays different (ok.waiting k g r bound)
      rooted := by
        intro g r root
        have root' : (e.roots.erase id).find? g = some r := root
        rw [Table.find?_erase] at root'
        split at root'
        case isTrue => cases root'
        case isFalse different => exact stays different (ok.rooted g r root')
      main := by
        intro g main
        have main' : (if e.main = some id then none else e.main) = some g := main
        split at main'
        case isTrue => cases main'
        case isFalse other =>
          change ((e.roots.erase id).find? g).isSome
          rw [Table.find?_erase, if_neg ?_]
          · exact ok.main g main'
          · rintro rfl
            exact other main'
      owners := by
        intro g owner
        have different : g ≠ id := by
          rintro rfl
          have owner' : e.heap.directory.contains (.fiber g) := owner
          rw [owners] at owner'
          cases owner'
        have present := ok.owners g owner
        rw [← stays different rfl] at present
        exact present
      crew := fun y hy => stays (idle y hy) (ok.crew y hy) }

/-- A fiber that does not exist is not about to end. -/
lemma Consistent.of_missing (ok : e.Consistent ⟨crew, lost⟩)
    (missing : e.fiber? id = none)
    (fewer : ∀ f ∈ lost', f ∈ lost)
    (rest : ∀ f ∈ lost, f ≠ id → f ∈ lost') :
    e.Consistent ⟨crew, lost'⟩ := by
  have other : ∀ {f : FiberId} {y : Option Ref}, e.cellOf? f = some y → f ≠ id := by
    rintro f y hf rfl
    rw [cellOf?, missing] at hf
    cases hf
  exact
    { ok with
      celled := fun f r hf => (ok.celled f r hf).imp_right fun state =>
        state.imp_right fun gone => ⟨gone.1, gone.2.imp_right fun l => rest f l (other hf)⟩
      complete := fun f hf => rest f (ok.complete f hf) (other hf)
      orphans := fun f ends => ok.orphans f (ends.imp_right (fewer f)) }

/-- What an engine holds is what a fiber holds, and what is held without the fiber. -/
lemma held_eq (hx : e.fiber? id = some x) :
    e.held = ((e.agenda.cancelFiber id).1 : Multiset Ref) +
      (x.refs + (((e.roots.find? id).toList : List Ref) +
        ((e.fibers.erase id.id).total Fiber.refs + (e.agenda.cancelFiber id).2.cells +
          (e.roots.erase id).total fun r => {r}))) := by
  have fibers := Arena.total_erase Fiber.refs hx
  have roots : (e.roots.total fun r => ({r} : Multiset Ref)) =
      ((e.roots.find? id).toList : List Ref) + (e.roots.erase id).total fun r => {r} := by
    cases found : e.roots.find? id with
    | none =>
      rw [Table.erase_of_find?_eq_none found]
      exact (zero_add _).symm
    | some r => exact Table.total_erase _ found
  rw [held, fibers, (e.agenda.sheds_cancelFiber id).cells, roots]
  abel

/-- Ending a fiber that does not run leaves the hands as they are. -/
lemma sound_teardown (ok : e.Sound c ⟨crew, lost⟩ K L)
    (idle : c ≠ .free → ∀ x ∈ crew, x.1 ≠ id)
    (fewer : ∀ f ∈ lost', f ∈ lost)
    (rest : ∀ f ∈ lost, f ≠ id → f ∈ lost') :
    (e.teardown id).Sound c ⟨crew, lost'⟩ K L := by
  cases hx : e.fiber? id with
  | none =>
    rw [teardown_of_none hx]
    exact ⟨ok.indexed, fun hc => (ok.consistent hc).of_missing hx fewer rest, ok.accounts⟩
  | some x =>
    have cancelled := e.agenda.sheds_cancelFiber id
    rw [teardown_eq hx]
    let after : Engine :=
      { e with
        fibers := e.fibers.erase id.id
        agenda := (e.agenda.cancelFiber id).2
        roots := e.roots.erase id
        main := if e.main = some id then none else e.main }
    have held : K + e.held = ((e.agenda.cancelFiber id).1 : Multiset Ref) +
        (x.refs + (((e.roots.find? id).toList : List Ref) + (K + after.held))) := by
      rw [held_eq hx]
      change K + (_ + (_ + (_ + after.held))) = _
      abel
    have weakly : L + e.weakly = x.weakRefs + (L + after.weakly) := by
      have fibers := Arena.total_erase Fiber.weakRefs hx
      change L + (e.fibers.total Fiber.weakRefs + _) =
        _ + (L + ((e.fibers.erase id.id).total Fiber.weakRefs + _))
      rw [fibers]
      abel
    -- First the heap gives up what the fiber held, while the fiber is still in the table.
    obtain ⟨related, heap⟩ :=
      turns_vacate x id (e.agenda.cancelFiber id).1 (e.roots.find? id) e.heap
      (ok.heap.cast held weakly)
    refine ⟨cancelled.indexed ok.indexed, fun hc => ?_, heap.accounts⟩
    have vacated := (ok.consistent hc).of_keeps (related hc) (heap.tidy hc)
    refine vacated.erase (idle hc) fewer rest (fun k f r bound => ⟨cancelled.bond_of bound, ?_⟩)
      (contains_vacate _ _ _ _ _)
    rintro rfl
    exact Agenda.bond?_cancelFiber ok.indexed f k r bound

/-- Ending a fiber brings nothing back. -/
lemma precedes_teardown (e : Engine) (id : FiberId) : Precedes c e (e.teardown id) := by
  cases hx : e.fiber? id with
  | none =>
    rw [teardown_of_none hx]
    exact .refl c e
  | some x =>
    rw [teardown_eq hx]
    refine ⟨.of_agenda (.call (.cancelFiber id) _) rfl, fun f r found => ?_⟩
    have found' : (e.roots.erase id).find? f = some r := found
    rw [Table.find?_erase] at found'
    split at found'
    case isTrue => cases found'
    case isFalse => exact found'

/-- Recording a fault ends its fiber. -/
lemma sound_recordFault (ok : e.Sound c ⟨crew, lost⟩ K L) (idle : c ≠ .free → ∀ x ∈ crew, x.1 ≠ id)
    (pc : Nat) (fault : Fault) : (e.recordFault id pc fault).2.Sound c ⟨crew, lost⟩ K L :=
  sound_teardown (ok.of_same rfl rfl rfl rfl rfl rfl rfl) idle (fun _ l => l) fun _ l _ => l

/-- Neither does recording a fault. -/
lemma precedes_recordFault (e : Engine) (id : FiberId) (pc : Nat) {fault : Fault}
    (allowed : fault.Allowed c) : Precedes c e (e.recordFault id pc fault).2 := by
  have recorded : Precedes c e { e with
      faults := e.faults.push (e.recordFault id pc fault).1 } := by
    refine ⟨⟨.refl _, [(e.recordFault id pc fault).1], ?_, ?_⟩, fun _ _ found => found⟩
    · exact Array.toList_push
    · intro y hy
      rw [List.mem_singleton.1 hy]
      exact allowed
  exact recorded.trans (precedes_teardown _ id)

/-! ## Orphans -/

/-- Orphans that are taken over are about to end. -/
lemma Sound.takeOrphans (ok : e.Sound c ⟨crew, []⟩ K L) :
    Sound c ⟨crew, e.heap.orphans⟩ K L { e with heap := e.heap.takeOrphans.2 } where
  indexed := ok.indexed
  consistent hc :=
    have before := ok.consistent hc
    { tidy := ⟨before.tidy.lives, before.tidy.issued, before.tidy.plain⟩
      natives := before.natives
      builtin := before.builtin
      instances := before.instances
      celled := fun f r hf => (before.celled f r hf).imp_right fun state =>
        state.imp_right fun gone => ⟨gone.1, .inr (gone.2.resolve_right List.not_mem_nil)⟩
      complete := fun f hf => absurd (before.complete f hf) List.not_mem_nil
      orphans := fun f ends => before.orphans f (.inl (ends.resolve_left List.not_mem_nil))
      waiting := before.waiting
      rooted := before.rooted
      main := before.main
      owners := before.owners
      crew := before.crew }
  accounts hc := ⟨(ok.accounts hc).strong, (ok.accounts hc).weak⟩

/-- Orphans are ended soundly. -/
lemma turns_reapOrphans :
    Turns (Precedes c) (Sound c ⟨[], []⟩ K L) reapOrphans (Sound c ⟨[], []⟩ K L) := by
  -- The orphans that are left stay about to end while the first one is ended.
  have ended : ∀ (lost : List FiberId) (e : Engine), e.Sound c ⟨[], lost⟩ K L →
      Precedes c e (lost.foldl teardown e) ∧ (lost.foldl teardown e).Sound c ⟨[], []⟩ K L := by
    intro lost
    induction lost with
    | nil => exact fun e ok => ⟨.refl c e, ok⟩
    | cons id rest ih =>
      intro e ok
      have one : (e.teardown id).Sound c ⟨[], rest⟩ K L :=
        sound_teardown ok (fun _ => nofun) (fun f hf => List.mem_cons_of_mem id hf)
          fun f hf different => (List.mem_cons.1 hf).resolve_left different
      obtain ⟨related, ok'⟩ := ih _ one
      exact ⟨(precedes_teardown e id).trans related, ok'⟩
  intro e ok
  have taken : Precedes c e { e with heap := e.heap.takeOrphans.2 } := .of_same rfl rfl rfl
  obtain ⟨related, ok'⟩ := ended e.heap.orphans _ ok.takeOrphans
  exact ⟨taken.trans related, ok'⟩

/-- Reaping leaves the hands as they are. -/
lemma turns_reap : Turns (Precedes c) (Sound c ⟨[], []⟩ K L) reap (Sound c ⟨[], []⟩ K L) := by
  have rounds : ∀ n, Turns (Precedes c) (Sound c ⟨[], []⟩ K L) (reapRounds n)
      (Sound c ⟨[], []⟩ K L) := by
    intro n
    induction n with
    | zero => exact fun e ok => ⟨.refl c e, ok⟩
    | succ n ih =>
      intro e ok
      unfold reapRounds
      split
      case isTrue => exact ⟨.refl c e, ok⟩
      case isFalse => exact (turns_reapOrphans.comp ih) e ok
  exact fun e ok => rounds _ e ok

end FiberVM.Engine
