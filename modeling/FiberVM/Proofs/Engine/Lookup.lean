import FiberVM.Engine.Lookup
import FiberVM.Proofs.Engine.Rules

/-!
# What looking up names does to an engine

A target that is found comes with one strong reference to its cell; whatever was found on the way
has been given up, also if the name denotes nothing in the end. What a fiber remembers is held
weakly, so that it is taken up again only if it still exists.
-/

namespace FiberVM

/-- The strong references that a target comes with. -/
def Target.refs (t : Target) : Multiset Ref := (t.ref?.toList : List Ref)

/-- The strong references that a receiver comes with. -/
def Receiver.refs : Receiver → Multiset Ref
  | .cell r => {r}
  | _ => 0

namespace Lookup

open Engine

variable {c : Conduct} {scene : Scene} {K K' L : Multiset Ref} {caller : FiberId} {r : Ref}
  {t : Target}

/-- What is known of an engine where a target was found, or nothing. -/
def Found (c : Conduct) (scene : Scene) (K L : Multiset Ref) (found : Option Target) (e : Engine) :
    Prop :=
  e.Sound c scene (found.elim 0 Target.refs + K) L ∧
    (c ≠ .free → ∀ t, found = some t → t.IsBuiltin)

lemma Found.nothing {e : Engine} (ok : e.Sound c scene K L) : Found c scene K L none e :=
  ⟨ok.cast (zero_add K).symm rfl, fun _ _ => nofun⟩

lemma Found.target {e : Engine} (ok : e.Sound c scene (t.refs + K) L)
    (builtin : c ≠ .free → t.IsBuiltin) : Found c scene K L (some t) e :=
  ⟨ok, fun hc _ same => Option.some.inj same ▸ builtin hc⟩

/-- A function of the catalog that is called on nothing. -/
lemma Found.function {e : Engine} {f} (ok : e.Sound c scene K L) (known : f ∈ e.catalog.natives) :
    Found c scene K L (some (.function f none)) e := by
  refine .target (ok.cast (zero_add K).symm rfl) fun hc => ?_
  rintro g receiver same
  cases same
  exact (ok.consistent hc).natives f known

lemma isBuiltin_value (r : Ref) : (Target.value r).IsBuiltin := fun _ _ => nofun

lemma isBuiltin_library (name : String) : (Target.library name).IsBuiltin := fun _ _ => nofun

lemma runs_retained :
    Runs c (fun e => e.Sound c scene K L ∧ e.heap.Live c r) (retained r) (Found c scene K L)
      (Sound c scene K L) :=
  runs_retain.bind fun _ => .pure fun _ ok => .target ok fun _ => isBuiltin_value r

/-- What a target holds is given up. -/
lemma turns_discard (t : Target) :
    Turns (Precedes c) (Sound c scene (t.refs + K) L) (discard t) (Sound c scene K L) := by
  intro e ok
  unfold discard
  unfold Target.refs at ok
  cases ref : t.ref? with
  | none =>
    rw [ref] at ok
    exact ⟨.refl c e, ok.cast (zero_add K) rfl⟩
  | some r =>
    rw [ref] at ok
    exact turns_release r e ok

lemma turns_leave (receiver : Receiver) :
    Turns (Precedes c) (Sound c scene (receiver.refs + K) L) (leave receiver)
      (Sound c scene K L) := by
  cases receiver with
  | cell r => exact turns_release r
  | fiber id => exact fun e ok => ⟨.refl c e, ok.cast (zero_add K) rfl⟩
  | library name => exact fun e ok => ⟨.refl c e, ok.cast (zero_add K) rfl⟩

/-- Of a target's reference, only that to a plain value is kept. -/
lemma runs_receiverOf (t : Target) :
    Runs c (Sound c scene (t.refs + K) L) (receiverOf t)
      (fun receiver => Sound c scene (receiver.elim 0 Receiver.refs + K) L)
        (Sound c scene K L) := by
  intro e ok
  have released : ∀ {receiver : Option Receiver}, receiver.elim 0 Receiver.refs = 0 →
      ∀ r, t = .value r → Precedes c e (e.release r) ∧
        Sound c scene (receiver.elim 0 Receiver.refs + K) L (e.release r) := by
    rintro receiver none_kept r rfl
    obtain ⟨related, ok'⟩ := turns_release r e ok
    exact ⟨related, ok'.cast (by rw [none_kept, zero_add]) rfl⟩
  unfold receiverOf
  cases t with
  | library name => exact ⟨.refl c e, ok⟩
  | function f receiver =>
    obtain ⟨related, ok'⟩ := turns_discard _ e ok
    exact ⟨related, ok'.cast (zero_add K).symm rfl⟩
  | value r =>
    simp only
    split
    case h_1 => exact released rfl r rfl
    case h_2 => exact released rfl r rfl
    case h_3 => split <;> exact released rfl r rfl
    case h_4 => exact released rfl r rfl
    case h_5 => exact ⟨.refl c e, ok⟩

/-! ## Searching for a segment -/

/-- The cell of the main fiber is kept by its root. -/
lemma live_of_mainCell? {e : Engine} (ok : e.Sound c scene K L) (found : mainCell? e = some r) :
    e.heap.Live c r := by
  intro hc
  subst hc
  simp only [mainCell?, Option.bind_eq_bind, Option.bind_eq_some_iff] at found
  obtain ⟨id, main, x, hx, cell⟩ := found
  have consistent := ok.consistent Heap.owning_ne_free
  obtain ⟨root, hroot⟩ := Option.isSome_iff_exists.1 (consistent.main id main)
  have same := consistent.rooted id root hroot
  rw [cellOf?_of_fiber? hx, cell] at same
  cases same
  exact ok.live_of_held (mem_held_of_root hroot) rfl

/-- A search from the caller holds what it finds. -/
lemma runs_searchFirst (member : caller ∈ scene.crew.map (·.1)) (segment : String) :
    Runs c (Sound c scene K L) (searchFirst caller segment) (Found c scene K L)
      (Sound c scene K L) := by
  refine Triple.get.bind fun seen => ?_
  split
  case h_1 cell found =>
    refine runs_retained.pre ?_
    rintro e ⟨ok, rfl⟩
    split at found
    case isTrue => exact ⟨ok, live_of_mainCell? ok found⟩
    case isFalse => cases found
  case h_2 =>
    refine ((runs_fiber member).pre fun _ hs => hs.1).bind fun x => ?_
    refine Triple.get.bind fun seen => ?_
    split
    case h_1 r found =>
      refine runs_retained.pre ?_
      rintro e ⟨⟨ok, -⟩, rfl⟩
      exact ⟨ok, ok.heap.live_of_lookup? found⟩
    case h_2 => exact .pure fun _ hs => .nothing hs.1.1

/-- So does a search in a receiver. -/
lemma runs_searchReceiver {receiver} (held : ∀ r, receiver = .cell r → r ∈ K) (segment : String) :
    Runs c (Sound c scene K L) (searchReceiver receiver segment) (Found c scene K L)
      (Sound c scene K L) := by
  unfold searchReceiver
  cases receiver with
  | fiber id =>
    refine Triple.get.bind fun seen => ?_
    split
    case h_1 r found =>
      refine runs_retained.pre ?_
      rintro e ⟨ok, rfl⟩
      exact ⟨ok, ok.heap.live_of_lookup? found⟩
    case h_2 => exact .pure fun _ hs => .nothing hs.1
  | library name =>
    refine Triple.get.bind fun seen => .pure ?_
    rintro e ⟨ok, rfl⟩
    cases found : (seen.catalog.library? name).bind (·.function? segment) with
    | none => exact .nothing ok
    | some f =>
      obtain ⟨l, library, function⟩ := Option.bind_eq_some_iff.1 found
      exact .function ok (Catalog.mem_natives_of_library? library function)
  | cell r =>
    refine (runs_read.pre fun e ok => ⟨ok, ok.live_of_mem (held r rfl)⟩).bind fun v => ?_
    refine Triple.get.bind fun seen => ?_
    split
    case h_1 f method =>
      have retained : Runs c (fun e => (e.Sound c scene K L ∧ e.heap.get? r = some v) ∧ seen = e)
          (EngineM.onHeap (Heap.retain r))
          (fun _ e => e.Sound c scene ({r} + K) L ∧ (c ≠ .free → f.isBuiltin = true))
          (Sound c scene K L) := by
        rintro e ⟨⟨ok, -⟩, rfl⟩
        refine (runs_retain seen ⟨ok, ok.live_of_mem (held r rfl)⟩).imp (fun _ e' ok' => ?_)
          fun _ ok => ok
        exact ⟨ok', fun hc => (ok.consistent hc).natives f (Catalog.mem_natives_of_method? method)⟩
      refine retained.bind fun _ => .pure ?_
      rintro e ⟨ok, builtin⟩
      refine .target ok fun hc g receiver same => ?_
      cases same
      exact builtin hc
    case h_2 => exact .pure fun _ hs => .nothing hs.1.1

/-- So does a search everywhere. -/
lemma runs_searchEverywhere (segment : String) :
    Runs c (Sound c scene K L) (searchEverywhere segment) (Found c scene K L)
      (Sound c scene K L) := by
  refine Triple.get.bind fun seen => ?_
  split
  case h_1 r found =>
    refine runs_retained.pre ?_
    rintro e ⟨ok, rfl⟩
    exact ⟨ok, ok.heap.live_of_lookup? found⟩
  case h_2 =>
    refine Triple.get.bind fun seen => ?_
    split
    case h_1 =>
      refine .pure ?_
      rintro e ⟨⟨ok, -⟩, -⟩
      exact .target (ok.cast (zero_add K).symm rfl) fun _ => isBuiltin_library segment
    case h_2 =>
      refine Triple.get.bind fun seen => .pure ?_
      rintro e ⟨⟨⟨ok, -⟩, -⟩, rfl⟩
      cases found : seen.catalog.function? segment with
      | none => exact .nothing ok
      | some f => exact .function ok (Catalog.mem_natives_of_function? found)

/-- A search that has found nothing goes on. -/
private lemma runs_orElse {m next}
    (first : Runs c (Sound c scene K L) m (Found c scene K L) (Sound c scene K L))
    (second : Runs c (Sound c scene K L) next (Found c scene K L) (Sound c scene K L)) :
    Runs c (Sound c scene K L)
      (do
        match ← m with
        | some t => return some t
        | none => next)
      (Found c scene K L) (Sound c scene K L) := by
  refine first.bind fun found => ?_
  split
  case h_1 t => exact .pure fun _ hs => hs
  case h_2 => exact second.pre fun e hs => hs.1.cast (zero_add K) rfl

lemma runs_search (member : caller ∈ scene.crew.map (·.1)) {receiver}
    (held : ∀ r, receiver = .cell r → r ∈ K) (segment : String) (first : Bool) :
    Runs c (Sound c scene K L) (search caller receiver segment first) (Found c scene K L)
      (Sound c scene K L) := by
  have nothing : Runs c (Sound c scene K L) (pure none) (Found c scene K L) (Sound c scene K L) :=
    .pure fun _ ok => .nothing ok
  unfold search
  cases first with
  | true =>
    exact runs_orElse (runs_searchFirst member segment)
      (runs_orElse (runs_searchReceiver held segment) (runs_searchEverywhere segment))
  | false =>
    exact runs_orElse nothing
      (runs_orElse (runs_searchReceiver held segment) (runs_searchEverywhere segment))

/-! ## Whole names -/

/-- What is known of an engine where a target was found. -/
def Holds (c : Conduct) (scene : Scene) (K L : Multiset Ref) (t : Target) (e : Engine) : Prop :=
  e.Sound c scene (t.refs + K) L ∧ (c ≠ .free → t.IsBuiltin)

/-- The receiver is given up, whether the segment is found or not. -/
lemma runs_find (member : caller ∈ scene.crew.map (·.1)) (name : String) (receiver : Receiver)
    (segment : String) (first : Bool) :
    Runs c (Sound c scene (receiver.refs + K) L) (find caller name receiver segment first)
      (Holds c scene K L) (Sound c scene K L) := by
  have held : ∀ r, receiver = .cell r → r ∈ receiver.refs + K := by
    rintro r rfl
    exact Multiset.mem_add.2 (.inl (Multiset.mem_singleton_self r))
  have left : ∀ found,
    Turns (Precedes c) (Found c scene (receiver.refs + K) L found) (leave receiver)
      (Found c scene K L found) := by
    rintro found e ⟨ok, builtin⟩
    obtain ⟨related, ok'⟩ := turns_leave receiver e (ok.cast (add_left_comm _ _ _) rfl)
    exact ⟨related, ok', builtin⟩
  refine (runs_ensure (runs_search member held segment first) left (turns_leave receiver)).bind
    fun found => ?_
  cases found with
  | none => exact .throw (fun _ => rfl) fun e hs => hs.1.cast (zero_add K) rfl
  | some t => exact .pure fun e hs => ⟨hs.1, fun hc => hs.2 hc t rfl⟩

/-- The segments of a name are followed one by one. -/
lemma runs_follow (member : caller ∈ scene.crew.map (·.1)) (name : String) (t : Target)
    (segments : List String) :
    Runs c (Holds c scene K L t) (follow caller name t segments) (Holds c scene K L)
      (Sound c scene K L) := by
  induction segments generalizing t with
  | nil => exact .pure fun _ hs => hs
  | cons segment rest ih =>
    refine ((runs_receiverOf t).pre fun _ hs => hs.1).bind fun receiver => ?_
    cases receiver with
    | none => exact fun e ok => ⟨.refl c e, fun _ => rfl, ok.cast (zero_add K) rfl⟩
    | some receiver => exact (runs_find member name receiver segment false).bind ih

/-- Searches are counted. -/
lemma turns_searches :
    Turns (Precedes c) (Sound c scene K L) (fun e => { e with searches := e.searches + 1 })
      (Sound c scene K L) :=
  fun _ ok => ⟨.of_same rfl rfl rfl, ok.of_same rfl rfl rfl rfl rfl rfl rfl⟩

/-- A receiver that is given is handed over. -/
lemma runs_resolve (member : caller ∈ scene.crew.map (·.1)) (name : String)
    (receiver : Option Ref) :
    Runs c (Sound c scene ((receiver.toList : List Ref) + K) L) (resolve caller name receiver)
      (Holds c scene K L) (Sound c scene K L) := by
  refine (Triple.modify turns_searches).bind fun _ => ?_
  cases receiver with
  | some r =>
    exact (runs_follow member name (.value r) (Name.segments name)).pre fun e ok =>
      ⟨ok, fun _ => isBuiltin_value r⟩
  | none =>
    cases Name.segments name with
    | nil => exact .throw (fun _ => rfl) fun e ok => ok.cast (zero_add K) rfl
    | cons segment rest =>
      exact (runs_find member name (.fiber caller) segment true).bind fun t =>
        runs_follow member name t rest

/-! ## Names that are remembered -/

lemma weakRefs_eq {x : Fiber} {index t} (found : x.cache.find? index = some t) :
    x.weakRefs = t.refs + ({ x with cache := x.cache.erase index } : Fiber).weakRefs :=
  Table.total_erase _ found

lemma weakRefs_insert (x : Fiber) (index : Nat) (t : Target) :
    ({ x with cache := x.cache.insert index t } : Fiber).weakRefs =
      t.refs + ({ x with cache := x.cache.erase index } : Fiber).weakRefs := rfl

lemma isBuiltin_erase {x : Fiber} {index} (builtin : x.IsBuiltin) :
    ({ x with cache := x.cache.erase index } : Fiber).IsBuiltin := by
  intro i t found
  rw [Table.find?_erase] at found
  split at found
  case isTrue => cases found
  case isFalse => exact builtin i t found

/-- What is remembered is built in. -/
lemma isBuiltin_insert {x : Fiber} {index} (builtin : x.IsBuiltin) (ht : t.IsBuiltin) :
    ({ x with cache := x.cache.insert index t } : Fiber).IsBuiltin := by
  intro i u found
  rw [Table.find?_insert] at found
  split at found
  case isTrue =>
    cases found
    exact ht
  case isFalse => exact builtin i u found

/-- What is remembered is taken up if it still exists, and forgotten otherwise. -/
lemma runs_known (index : Nat) :
    Runs c (Sound c scene K L) (known caller index) (Found c scene K L) (Sound c scene K L) := by
  intro e ok
  unfold known
  cases hx : e.fiber? caller with
  | none => exact ⟨.refl c e, .nothing ok⟩
  | some x =>
    simp only
    cases found : x.cache.find? index with
    | none => exact ⟨.refl c e, .nothing ok⟩
    | some t =>
      have builtin : c ≠ .free → t.IsBuiltin := fun hc =>
        (ok.consistent hc).builtin caller x hx index t found
      simp only
      cases ref : t.ref? with
      | none =>
        refine ⟨.refl c e, .target (ok.cast ?_ rfl) builtin⟩
        rw [Target.refs, ref]
        exact (zero_add K).symm
      | some r =>
        simp only
        have refs_eq : t.refs = {r} := by rw [Target.refs, ref]; rfl
        cases retained : e.heap.retain? r with
        | some h =>
          obtain ⟨related, heap⟩ := Heap.precedes_retain? retained ok.heap
          refine ⟨.of_same rfl rfl rfl, .target (ok.of_heap related (heap.cast ?_ rfl)) builtin⟩
          rw [refs_eq, add_assoc]
        | none =>
          have weak : {r} + L + ({ x with cache := x.cache.erase index } : Fiber).weakRefs =
              L + x.weakRefs := by
            rw [weakRefs_eq found, refs_eq]
            abel
          have step : Precedes c e (e.setFiber caller { x with cache := x.cache.erase index }) :=
            .of_same rfl rfl rfl
          have forgotten : Sound c scene K ({r} + L)
              (e.setFiber caller { x with cache := x.cache.erase index }) :=
            ok.setFiber hx rfl (fun _ => isBuiltin_erase) rfl weak
          obtain ⟨related, ok'⟩ := turns_releaseWeak r _ forgotten
          exact ⟨step.trans related, .nothing ok'⟩

/-- A fiber takes a weak reference from the hand, and leaves there the former one. -/
lemma turns_cache (index : Nat) (builtin : c ≠ .free → t.IsBuiltin) (x : Fiber) :
    Turns (Precedes c) (fun e => e.Sound c scene K (t.refs + L) ∧ e.fiber? caller = some x)
      (·.setFiber caller { x with cache := x.cache.insert index t })
      (Sound c scene K ((x.cache.find? index).elim 0 Target.refs + L)) := by
  rintro e ⟨ok, hx⟩
  refine ⟨.of_same rfl rfl rfl,
    ok.setFiber hx rfl (fun hc before => isBuiltin_insert before (builtin hc)) rfl ?_⟩
  rw [weakRefs_insert]
  cases found : x.cache.find? index with
  | none =>
    rw [Table.erase_of_find?_eq_none found]
    simp only [Option.elim_none]
    abel
  | some old =>
    rw [weakRefs_eq found]
    simp only [Option.elim_some]
    abel

/-- The former weak reference is given up once the fiber has the new one. -/
lemma runs_renew (member : caller ∈ scene.crew.map (·.1)) (index : Nat)
    (builtin : c ≠ .free → t.IsBuiltin) :
    Runs c (Sound c scene K (t.refs + L))
      (do
        let x ← EngineM.fiber caller
        modify (·.setFiber caller { x with cache := x.cache.insert index t })
        match (x.cache.find? index).bind Target.ref? with
        | some r => modify (·.mapHeap (·.releaseWeak r))
        | none => pure ())
      (fun _ => Sound c scene K L) (Sound c scene K' L) := by
  refine (runs_fiber member).bind fun x => (Triple.modify (turns_cache index builtin x)).bind
    fun _ => ?_
  cases found : x.cache.find? index with
  | none => exact .pure fun e ok => ok.cast rfl (zero_add L)
  | some old =>
    simp only [Option.bind_some, Option.elim_some]
    unfold Target.refs
    cases old.ref? with
    | none => exact .pure fun e ok => ok.cast rfl (zero_add L)
    | some r => exact .modify (turns_releaseWeak r)

/-- A target is remembered by a weak reference, which takes the place of the one before. -/
lemma runs_remember (member : caller ∈ scene.crew.map (·.1)) (index : Nat)
    (held : ∀ r, t.ref? = some r → r ∈ K)
    (builtin : c ≠ .free → t.IsBuiltin) :
    Runs c (Sound c scene K L) (remember caller index t) (fun _ => Sound c scene K L)
      (Sound c scene K' L) := by
  have rest : Runs c (Sound c scene K (t.refs + L)) _ (fun _ => Sound c scene K L)
      (Sound c scene K' L) := runs_renew member index builtin
  unfold remember
  unfold Target.refs at rest
  cases ref : t.ref? with
  | some r =>
    rw [ref] at rest
    exact (runs_downgrade.pre fun e ok => ⟨ok, ok.live_of_mem (held r ref)⟩).bind fun _ => rest
  | none =>
    rw [ref] at rest
    exact rest.pre fun e ok => ok.cast rfl (zero_add L).symm

/-- What a name denotes, whether it was known or is looked up now. -/
lemma runs_resolveCached (member : caller ∈ scene.crew.map (·.1)) (image : Image) (index : Nat) :
    Runs c (Sound c scene K L) (resolveCached caller image index) (Holds c scene K L)
      (Sound c scene K L) := by
  refine (runs_known index).bind fun found => ?_
  cases found with
  | some t => exact .pure fun e hs => ⟨hs.1, fun hc => hs.2 hc t rfl⟩
  | none =>
    refine ((runs_orFault rfl fun _ ok => ok).pre fun e hs => hs.1.cast (zero_add K) rfl).bind
      fun name => ?_
    have resolved := runs_resolve (c := c) (K := K) (L := L) member name none
    refine (resolved.pre fun e hs => hs.1.cast (zero_add K).symm rfl).bind fun t => ?_
    have kept : Runs c (Holds c scene K L t) (remember caller index t)
        (fun _ => Holds c scene K L t) (Sound c scene K L) := by
      rintro e ⟨ok, builtin⟩
      refine (runs_remember member index ?_ builtin e ok).imp (fun _ e' ok' => ⟨ok', builtin⟩)
        fun _ ok => ok
      intro r ref
      rw [Target.refs, ref]
      exact Multiset.mem_add.2 (.inl (Multiset.mem_singleton_self r))
    exact kept.bind fun _ => .pure fun _ hs => hs

end Lookup

end FiberVM
