import FiberVM.Proofs.Engine.Rules
import FiberVM.Proofs.Engine.Teardown

/-!
# What the beginning of a fiber does to an engine

Loading a machine declares its shared variables, which the machine refers to weakly. A new fiber has
no cell at first, so that it counts as one that is about to end; then it gets its cell and its
variables. If anything fails on the way, everything is given up again. A fiber that was made has a
greater identifier than those that run already.
-/

namespace FiberVM

/-- What a variable holds at first refers to no cells. -/
lemma VariableType.refs_initial (type : VariableType) : type.initial.refs = [] := by
  cases type <;> rfl

lemma VariableType.instance?_initial (type : VariableType) : type.initial.instance? = none := by
  cases type <;> rfl

/-- An error that can occur: a fault is an allowed one. -/
def EngineError.Allowed (c : Conduct) (err : EngineError) : Prop :=
  ∀ f, err = .fault f → f.Allowed c

namespace Engine

variable {c : Conduct} {scene : Scene} {crew : List (FiberId × Ref)} {lost : List FiberId}
  {K L : Multiset Ref} {e : Engine} {id : FiberId} {r : Ref} {x : Fiber} {α : Type}

/-- A triple about a request. -/
abbrev Requests (c : Conduct) (P : Engine → Prop) (m : RequestM α) (Q : α → Engine → Prop)
    (F : Engine → Prop) : Prop :=
  Triple (Precedes c) (EngineError.Allowed c) P m Q F

/-- A fault becomes an error of the request. -/
lemma requests_ofFault {m} {P F : Engine → Prop} {Q : α → Engine → Prop} (runs : Runs c P m Q F) :
    Requests c P (.ofFault m) Q F := by
  intro e he
  have begun := runs e he
  unfold RequestM.ofFault
  cases run : m e with
  | ok a e' =>
    rw [run] at begun
    exact begun
  | error fault e' =>
    rw [run] at begun
    refine ⟨begun.1, ?_, begun.2.2⟩
    rintro f same
    cases same
    exact begun.2.1

lemma requests_describe {P : Engine → Prop} (image : Image) (v : Variable) :
    Requests c P (describe image v) (fun _ => P) P := by
  unfold describe
  split
  case h_1 => exact .pure fun _ hs => hs
  case h_2 => exact .throw (fun _ => nofun) fun _ hs => hs

/-! ## Machines -/

/-- Operations on the heap leave machines alone. -/
lemma machines_onHeap {m : HeapM α} {a : α} {e e' : Engine}
    (run : RequestM.onHeap m e = .ok a e') : e'.machines = e.machines := by
  unfold RequestM.onHeap RequestM.ofFault EngineM.onHeap at run
  cases heap : m e.heap with
  | ok b h =>
    rw [heap] at run
    cases run
    rfl
  | error fault h =>
    rw [heap] at run
    cases run

/-- A shared variable is declared and referred to weakly. -/
private lemma requests_declareOne (name : String) (image : Image) (v : Variable)
    (machines : Table String Machine) :
    Requests c (fun e => e.Sound c scene K L ∧ e.machines = machines)
      (do
        let (variableName, type) ← describe image v
        let r ← RequestM.onHeap (Heap.declare (.machine name) variableName type.initial)
        RequestM.onHeap (Heap.downgrade r)
        return r)
      (fun r e => e.Sound c scene K ({r} + L) ∧ e.machines = machines) (Sound c scene K L) := by
  have shared : ∀ f, Owner.machine name ≠ .fiber f := fun _ => nofun
  have declared : ∀ (variableName : String) (type : VariableType), Runs c (Sound c scene K L)
      (EngineM.onHeap (Heap.declare (.machine name) variableName type.initial))
      (fun r e => e.Sound c scene K L ∧ e.heap.Live c r) (Sound c scene K L) := by
    intro variableName type
    refine (runs_onHeap (φ := fun _ => True) (ψ := fun r h => h.Live c r) fun M N => ?_).pre
      fun _ ok => ⟨ok, trivial⟩
    refine (Heap.runs_declare variableName shared fun _ => type.instance?_initial).pre fun h hs =>
      ?_
    refine hs.1.cast ?_ rfl
    rw [type.refs_initial, Multiset.coe_nil, zero_add]
  have described : Requests c (fun e => e.Sound c scene K L ∧ e.machines = machines)
      (describe image v) (fun _ e => e.Sound c scene K L ∧ e.machines = machines)
      (Sound c scene K L) :=
    (requests_describe image v).conseq (fun _ hs => hs) (fun _ _ hs => hs) fun _ hs => hs.1
  refine described.bind ?_
  rintro ⟨variableName, type⟩
  refine ((requests_ofFault (declared variableName type)).frame fun s r t run same =>
    (machines_onHeap run).trans same).bind fun r => ?_
  refine Triple.bind ?_ fun _ => .pure fun _ hs => hs
  exact (requests_ofFault runs_downgrade).frame fun s _ t run same =>
    (machines_onHeap run).trans same

/-- Shared variables are declared soundly. -/
lemma requests_declareShared (name : String) (image : Image) (machines : Table String Machine)
    (declared : List Ref) (vs : List Variable) :
    Requests c (fun e => e.Sound c scene K (declared + L) ∧ e.machines = machines)
      (declareShared name image declared vs)
      (fun rs e => e.Sound c scene K (rs + L) ∧ e.machines = machines) (Sound c scene K L) := by
  induction vs generalizing declared with
  | nil => exact fun e hs => ⟨.refl c e, hs⟩
  | cons v rest ih =>
    intro e hs
    have one := requests_declareOne name image v machines e hs
    unfold declareShared
    dsimp only
    split
    case h_1 r e' run =>
      rw [run] at one
      obtain ⟨related, ok, same⟩ := one
      refine (ih (declared ++ [r]) e' ⟨ok.cast rfl ?_, same⟩).trans related
      rw [← Multiset.coe_add, Multiset.coe_singleton]
      abel
    case h_2 err e' run =>
      rw [run] at one
      obtain ⟨related, allowed, ok⟩ := one
      obtain ⟨related', heap⟩ := ((Heap.turns_releaseWeakAll declared).comp
        (Heap.turns_releaseOwner (.machine name))) e'.heap (ok.heap.cast rfl (add_assoc _ _ _))
      exact ⟨related.trans (.of_same rfl rfl rfl), allowed, ok.of_heap related' heap⟩

/-- A machine that is loaded refers weakly to its shared variables. -/
lemma requests_load (name : String) :
    Requests c (Sound c scene K L) (load name) (fun _ => Sound c scene K L)
      (Sound c scene K L) := by
  refine Triple.get.bind fun seen => ?_
  split
  case h_1 m _ => exact .pure fun _ hs => hs.1
  case h_2 missing =>
    refine Triple.get.bind fun _ => ?_
    split
    case h_1 => exact .throw (fun f same => by cases same; exact fun _ => rfl) fun _ hs => hs.1.1
    case h_2 image _ =>
      split
      case h_1 => exact .throw (fun _ => nofun) fun _ hs => hs.1.1
      case h_2 =>
        refine ((requests_declareShared name image seen.machines [] image.shared).pre ?_).bind
          fun shared => ?_
        · rintro e ⟨⟨ok, rfl⟩, -⟩
          exact ⟨ok.cast rfl (zero_add L).symm, rfl⟩
        · refine (Triple.modify ?_).bind fun _ => .pure fun _ ok => ok
          rintro e ⟨ok, same⟩
          refine ⟨.of_same rfl rfl rfl, ok.indexed, fun hc => ?_, fun hc => ?_⟩
          · have before := ok.consistent hc
            exact ⟨before.tidy, before.natives, before.builtin, before.instances, before.celled,
              before.complete, before.orphans, before.waiting, before.rooted, before.main,
              before.owners, before.crew⟩
          · refine (ok.accounts hc).cast rfl ?_
            change shared + L + (_ + e.machines.total _) =
              L + (_ + (e.machines.insert name _).total _)
            rw [same, Table.total_insert, Table.erase_of_find?_eq_none missing]
            abel

/-! ## A new fiber -/

lemma fiber?_insert (g : FiberId) :
    ({ e with fibers := e.fibers.insert x } : Engine).fiber? g =
      if g = ⟨e.fibers.next⟩ then some x else e.fiber? g := by
  rw [fiber?, Arena.get?_insert]
  by_cases same : g = ⟨e.fibers.next⟩
  · simp [same]
  · have ne : g.id ≠ e.fibers.next := fun ids => same (FiberId.eq_of_id_eq ids)
    simp [same, ne, fiber?]

lemma cellOf?_insert (g : FiberId) :
    ({ e with fibers := e.fibers.insert x } : Engine).cellOf? g =
      if g = ⟨e.fibers.next⟩ then some x.cell else e.cellOf? g := by
  rw [cellOf?, fiber?_insert]
  split <;> rfl

lemma ne_next_of_cellOf? {cell} (hf : e.cellOf? id = some cell) :
    id ≠ ⟨e.fibers.next⟩ := by
  rintro rfl
  exact Nat.lt_irrefl _ (lt_next_of_cellOf? hf)

/-- A fiber without a cell counts as one that is about to end. -/
lemma Consistent.insertFiber (ok : e.Consistent ⟨crew, lost⟩)
    (cell : x.cell = none)
    (builtin : x.IsBuiltin) :
    Consistent ⟨crew, ⟨e.fibers.next⟩ :: lost⟩ { e with fibers := e.fibers.insert x } := by
  have stays : ∀ {g : FiberId} {y : Option Ref}, e.cellOf? g = some y →
      ({ e with fibers := e.fibers.insert x } : Engine).cellOf? g = some y := by
    intro g y hg
    rw [cellOf?_insert, if_neg (ne_next_of_cellOf? hg), hg]
  have old : ∀ {g : FiberId} {s : Ref},
      ({ e with fibers := e.fibers.insert x } : Engine).cellOf? g = some (some s) →
        e.cellOf? g = some (some s) := by
    intro g s hg
    rw [cellOf?_insert, cell] at hg
    split at hg
    case isTrue => cases hg
    case isFalse => exact hg
  exact
    { tidy := ok.tidy
      natives := ok.natives
      builtin := by
        intro g y hy
        rw [fiber?_insert] at hy
        split at hy
        case isTrue =>
          cases hy
          exact builtin
        case isFalse => exact ok.builtin g y hy
      instances := by
        intro s g hg
        obtain ⟨issued, canonical⟩ := ok.instances s g hg
        refine ⟨Nat.lt_succ_of_lt issued, fun y hy => canonical y ?_⟩
        rw [cellOf?_insert, if_neg ?_] at hy
        · exact hy
        · rintro rfl
          exact Nat.lt_irrefl _ issued
      celled := fun g s hg => (ok.celled g s (old hg)).imp_right fun state =>
        state.imp_right fun gone => ⟨gone.1, gone.2.imp_right (List.mem_cons_of_mem _)⟩
      complete := by
        intro g hg
        rw [cellOf?_insert] at hg
        split at hg
        case isTrue same =>
          rw [same]
          exact List.mem_cons_self
        case isFalse => exact List.mem_cons_of_mem _ (ok.complete g hg)
      orphans := by
        intro g ends
        by_cases new : g = ⟨e.fibers.next⟩
        · subst new
          refine ⟨Nat.lt_succ_self _, fun s hs => ?_⟩
          exact absurd rfl (ne_next_of_cellOf? (old hs))
        · obtain ⟨issued, gone⟩ := ok.orphans g
            (ends.imp_right fun l => (List.mem_cons.1 l).resolve_left new)
          exact ⟨Nat.lt_succ_of_lt issued, fun s hs => gone s (old hs)⟩
      waiting := fun k g s bound => stays (ok.waiting k g s bound)
      rooted := fun g s root => stays (ok.rooted g s root)
      main := ok.main
      owners := by
        intro g owner
        obtain ⟨y, hy⟩ := Option.isSome_iff_exists.1 (ok.owners g owner)
        rw [stays hy]
        rfl
      crew := fun y hy => stays (ok.crew y hy) }

/-- A new fiber takes over what it holds from the hands. -/
lemma Sound.insertFiber (ok : e.Sound c ⟨crew, lost⟩ (x.refs + K) (x.weakRefs + L))
    (cell : x.cell = none)
    (builtin : x.IsBuiltin) :
    Sound c ⟨crew, ⟨e.fibers.next⟩ :: lost⟩ K L { e with fibers := e.fibers.insert x } where
  indexed := ok.indexed
  consistent hc := (ok.consistent hc).insertFiber cell builtin
  accounts hc := by
    refine (ok.accounts hc).cast ?_ ?_
    · change x.refs + K + (e.fibers.total Fiber.refs + _ + _) =
        K + ((e.fibers.insert x).total Fiber.refs + _ + _)
      rw [Arena.total_insert]
      abel
    · change x.weakRefs + L + (e.fibers.total Fiber.weakRefs + _) =
        L + ((e.fibers.insert x).total Fiber.weakRefs + _)
      rw [Arena.total_insert]
      abel

/-! ## The cell of a fiber -/

/-- The cell that is made for a fiber. -/
def ownCell (id : FiberId) : Cell := ⟨some (.instance id), .fiber id, 1, 0⟩

/-- An engine in which a fiber has got a new cell. -/
def embody (e : Engine) (id : FiberId) (x : Fiber) : Engine :=
  ({ e with heap := e.heap.extend (ownCell id) } : Engine).setFiber id
    { x with cell := some e.heap.fresh }

lemma fiber?_embody (hx : e.fiber? id = some x) (g : FiberId) :
    (e.embody id x).fiber? g =
      if g = id then some { x with cell := some e.heap.fresh } else e.fiber? g :=
  fiber?_setFiber (e := { e with heap := e.heap.extend (ownCell id) }) hx

lemma cellOf?_embody (hx : e.fiber? id = some x) (g : FiberId) :
    (e.embody id x).cellOf? g = if g = id then some (some e.heap.fresh) else e.cellOf? g :=
  cellOf?_setFiber (e := { e with heap := e.heap.extend (ownCell id) }) hx

lemma get?_embody (s : Ref) :
    (e.embody id x).heap.get? s = if s = e.heap.fresh then some (.instance id) else e.heap.get? s :=
  Heap.get?_extend

/-- The other cells keep their values. -/
lemma get?_embody_of_lt {s : Ref} (issued : s.id < e.heap.cells.next) :
    (e.embody id x).heap.get? s = e.heap.get? s := by
  rw [get?_embody, if_neg ?_]
  rintro rfl
  exact Nat.lt_irrefl _ issued

lemma next_embody : (e.embody id x).fibers.next = e.fibers.next :=
  e.fibers.next_set id.id _

lemma Consistent.tidy_embody (ok : e.Consistent scene) : (e.embody id x).heap.Tidy where
  lives := Heap.lives_extend ok.tidy.lives ⟨by simp [ownCell], .inl Nat.one_pos⟩
  issued owner y hy := Nat.lt_succ_of_lt (ok.tidy.issued owner y hy)
  plain owner y hy f hf := by
    have value : (e.embody id x).heap.get? y.2 = e.heap.get? y.2 :=
      get?_embody_of_lt (ok.tidy.issued owner y hy)
    exact ok.tidy.plain owner y hy f (value.symm.trans hf)

/-- A fiber that gets its cell is not about to end any more. -/
lemma Consistent.embody (ok : e.Consistent ⟨crew, id :: lost⟩)
    (hx : e.fiber? id = some x)
    (cell : x.cell = none)
    (alive : id ∉ e.heap.orphans)
    (staying : id ∉ lost) :
    (e.embody id x).Consistent ⟨(id, e.heap.fresh) :: crew, lost⟩ := by
  have without : e.cellOf? id = some none := by rw [cellOf?_of_fiber? hx, cell]
  have stays : ∀ {g : FiberId} {s : Ref}, e.cellOf? g = some (some s) →
      (e.embody id x).cellOf? g = some (some s) := by
    intro g s hg
    rw [cellOf?_embody hx, if_neg ?_, hg]
    rintro rfl
    rw [without] at hg
    cases hg
  exact
    { tidy := ok.tidy_embody
      natives := ok.natives
      builtin := by
        intro g y hy
        rw [fiber?_embody hx] at hy
        split at hy
        case isTrue =>
          cases hy
          exact ok.builtin id x hx
        case isFalse => exact ok.builtin g y hy
      instances := by
        intro s g hg
        rw [get?_embody] at hg
        rw [next_embody]
        split at hg
        case isTrue same =>
          cases hg
          refine ⟨lt_next_of_cellOf? without, fun y hy => ?_⟩
          rw [cellOf?_embody hx, if_pos rfl] at hy
          rw [same, Option.some.inj hy]
        case isFalse =>
          obtain ⟨issued, canonical⟩ := ok.instances s g hg
          refine ⟨issued, fun y hy => canonical y ?_⟩
          rw [cellOf?_embody hx, if_neg ?_] at hy
          · exact hy
          · rintro rfl
            cases canonical none without
      celled := by
        intro g s hg
        rw [cellOf?_embody hx] at hg
        split at hg
        case isTrue same =>
          cases hg
          refine ⟨Nat.lt_succ_self _, .inl ?_⟩
          rw [same, get?_embody, if_pos rfl]
        case isFalse different =>
          obtain ⟨issued, state⟩ := ok.celled g s hg
          refine ⟨Nat.lt_succ_of_lt issued, ?_⟩
          rw [get?_embody_of_lt issued]
          refine state.imp_right fun gone => ⟨gone.1, gone.2.imp_right fun l => ?_⟩
          exact (List.mem_cons.1 l).resolve_left different
      complete := by
        intro g hg
        rw [cellOf?_embody hx] at hg
        split at hg
        case isTrue => cases hg
        case isFalse different =>
          exact (List.mem_cons.1 (ok.complete g hg)).resolve_left different
      orphans := by
        intro g ends
        have different : g ≠ id := by
          rintro rfl
          exact ends.elim alive staying
        obtain ⟨issued, gone⟩ := ok.orphans g (ends.imp_right (List.mem_cons_of_mem id))
        rw [next_embody]
        refine ⟨issued, fun s hs => ?_⟩
        rw [cellOf?_embody hx, if_neg different] at hs
        exact (get?_embody_of_lt (ok.celled g s hs).1).trans (gone s hs)
      waiting := fun k g s bound => stays (ok.waiting k g s bound)
      rooted := fun g s root => stays (ok.rooted g s root)
      main := ok.main
      owners := by
        intro g owner
        rw [cellOf?_embody hx]
        split
        · rfl
        · exact ok.owners g owner
      crew := by
        intro y hy
        rcases List.mem_cons.1 hy with rfl | old
        · rw [cellOf?_embody hx, if_pos rfl]
        · exact stays (ok.crew y old) }

/-- A fiber that gets its cell runs from then on. -/
lemma Sound.embody (ok : e.Sound c ⟨crew, id :: lost⟩ K L)
    (hx : e.fiber? id = some x)
    (cell : x.cell = none)
    (alive : c ≠ .free → id ∉ e.heap.orphans)
    (staying : c ≠ .free → id ∉ lost) :
    (e.embody id x).Sound c ⟨(id, e.heap.fresh) :: crew, lost⟩ ({e.heap.fresh} + K) L where
  indexed := ok.indexed
  consistent hc := (ok.consistent hc).embody hx cell (alive hc) (staying hc)
  accounts hc := by
    have extended : (e.heap.extend (ownCell id)).Accounts ({e.heap.fresh} + (K + e.held))
        (L + e.weakly) := by
      refine (ok.accounts hc).extend ?_ ?_
      · simp only [ownCell, Cell.refs, Option.elim_some, Value.refs_instance, Multiset.coe_nil,
          Multiset.replicate_one]
        abel
      · simp [ownCell]
    refine extended.cast ?_ ?_
    · have replaced :=
        Arena.total_set_of_eq (y := { x with cell := some e.heap.fresh }) Fiber.refs hx rfl
      change _ = {e.heap.fresh} + K + ((e.fibers.set id.id _).total Fiber.refs + _ + _)
      rw [replaced, add_assoc]
      rfl
    · have replaced :=
        Arena.total_set_of_eq (y := { x with cell := some e.heap.fresh }) Fiber.weakRefs hx rfl
      change _ = L + ((e.fibers.set id.id _).total Fiber.weakRefs + _)
      rw [replaced]
      rfl

/-! ## The variables of a fiber -/

/-- A fiber that exists may have variables. -/
lemma Consistent.own {xs : List (String × Ref)} (ok : e.Consistent scene)
    (present : (e.cellOf? id).isSome)
    (tidy : ({ e.heap with directory := e.heap.directory.insert (.fiber id) xs } : Heap).Tidy) :
    Consistent scene
      { e with heap := { e.heap with directory := e.heap.directory.insert (.fiber id) xs } } :=
  { ok with
    tidy := tidy
    owners := by
      intro g owner
      have owner' : (e.heap.directory.insert (.fiber id) xs).contains (.fiber g) := owner
      rw [Table.contains, Table.find?_insert] at owner'
      split at owner'
      case isTrue same =>
        cases same
        exact present
      case isFalse => exact ok.owners g owner' }

/-- A local variable is declared soundly. -/
lemma requests_declareLocal (member : id ∈ scene.crew.map (·.1)) (name : String)
    (type : VariableType) :
    Requests c (Sound c scene K L) (RequestM.onHeap (Heap.declare (.fiber id) name type.initial))
      (fun _ => Sound c scene K L) (Sound c scene K L) := by
  refine requests_ofFault fun e ok => ?_
  have plain := type.instance?_initial
  have heap : e.heap.Sound c (type.initial.refs + (K + e.held)) (L + e.weakly) := by
    refine ok.heap.cast ?_ rfl
    rw [type.refs_initial, Multiset.coe_nil, zero_add]
  have allocated := Heap.runs_alloc (.fiber id) (fun _ => plain) e.heap heap
  unfold EngineM.onHeap Heap.declare
  cases run : Heap.alloc (.fiber id) type.initial e.heap with
  | error fault h =>
    rw [run] at allocated
    exact ⟨.of_same rfl rfl rfl, allocated.2.1, ok.of_heap allocated.1 allocated.2.2⟩
  | ok r h =>
    rw [run] at allocated
    obtain ⟨related, heap', value⟩ := allocated
    have named := heap'.name (.fiber id) name value fun _ => plain
    refine ⟨.of_same rfl rfl rfl, ok.indexed, fun hc => ?_, named.accounts⟩
    have kept := (ok.consistent hc).of_keeps (related hc) (heap'.tidy hc)
    obtain ⟨y, hy, rfl⟩ := List.mem_map.1 member
    refine kept.own ?_ (named.tidy hc)
    rw [kept.crew y hy]
    rfl

lemma requests_declareLocals (member : id ∈ scene.crew.map (·.1)) (image : Image)
    (vs : List Variable) :
    Requests c (Sound c scene K L) (declareLocals id image vs) (fun _ => Sound c scene K L)
      (Sound c scene K L) := by
  induction vs with
  | nil => exact .pure fun _ ok => ok
  | cons v rest ih =>
    refine (requests_describe image v).bind fun d => ?_
    exact (requests_declareLocal member d.1 d.2).bind fun _ => ih

/-! ## Making a fiber -/

/-- A fiber that could not get a cell is an orphan, and still about to end. -/
lemma Sound.lose (ok : e.Sound c scene K L) (listed : id ∈ scene.lost) :
    Sound c scene K L { e with heap := e.heap.losing [id] } where
  indexed := ok.indexed
  consistent hc :=
    have before := ok.consistent hc
    { before with
      tidy := ⟨before.tidy.lives, before.tidy.issued, before.tidy.plain⟩
      celled := fun g r hg => (before.celled g r hg).imp_right fun state =>
        state.imp_right fun gone => ⟨gone.1, gone.2.imp_left (List.mem_append_left _)⟩
      orphans := by
        intro g ends
        refine before.orphans g ?_
        rcases ends with orphan | l
        · rcases List.mem_append.1 orphan with old | new
          · exact .inl old
          · rw [List.mem_singleton.1 new]
            exact .inr listed
        · exact .inr l }
  accounts hc := ⟨(ok.accounts hc).strong, (ok.accounts hc).weak⟩

/-- A fiber that has no cell yet can be ended. -/
lemma Sound.teardown_lost (ok : e.Sound c ⟨crew, [id]⟩ K L)
    (idle : c ≠ .free → ∀ y ∈ crew, y.1 ≠ id) :
    (e.teardown id).Sound c ⟨crew, []⟩ K L :=
  sound_teardown ok idle nofun fun _ listed different =>
    absurd (List.mem_singleton.1 listed) different

/-- A fiber that has got its cell can be ended. -/
lemma Sound.teardown_made (ok : e.Sound c ⟨(id, r) :: crew, []⟩ K L)
    (idle : c ≠ .free → ∀ y ∈ crew, y.1 ≠ id) :
    (e.teardown id).Sound c ⟨crew, []⟩ K L :=
  sound_teardown (ok.crew_subset fun _ hy => List.mem_cons_of_mem _ hy) idle nofun nofun

lemma onHeap_alloc_of_full (full : e.heap.isFull) :
    RequestM.onHeap (Heap.alloc (.fiber id) (.instance id)) e =
      .error (.fault .heapExhausted) { e with heap := e.heap.releaseValue (.instance id) } := by
  simp [RequestM.onHeap, RequestM.ofFault, EngineM.onHeap, Heap.alloc, full]

lemma onHeap_alloc_of_room (room : ¬ e.heap.isFull) :
    RequestM.onHeap (Heap.alloc (.fiber id) (.instance id)) e =
      .ok e.heap.fresh { e with heap := e.heap.extend (ownCell id) } := by
  simp [RequestM.onHeap, RequestM.ofFault, EngineM.onHeap, Heap.alloc, room, Heap.fresh,
    Heap.extend, ownCell]

/-- A fiber that gets its cell and its variables runs from then on; otherwise it can be ended. -/
lemma outcome_materialize (ok : e.Sound c ⟨crew, [id]⟩ K L)
    (hx : e.fiber? id = some x)
    (cell : x.cell = none)
    (alive : c ≠ .free → id ∉ e.heap.orphans)
    (idle : c ≠ .free → ∀ y ∈ crew, y.1 ≠ id)
    (image : Image) :
    Outcome (Precedes c) (EngineError.Allowed c)
      (fun r e' => e'.Sound c ⟨(id, r) :: crew, []⟩ ({r} + K) L)
      (fun e' => (e'.teardown id).Sound c ⟨crew, []⟩ K L) e (materialize id image e) := by
  unfold materialize
  by_cases full : e.heap.isFull
  · -- The instance that found no room is dropped, so the fiber is an orphan already.
    have shed := e.heap.sheds_releaseValue (.instance id)
    have lost := ok.lose List.mem_cons_self
    have given : Sound c ⟨crew, [id]⟩ K L
        { e with heap := e.heap.releaseValue (.instance id) } := by
      refine lost.of_heap (fun _ => shed.keeps) ⟨fun hc => ?_, fun hc => ?_⟩
      · exact shed.tidy (ok.consistent hc).tidy
      · exact shed.accounts _ _ ((ok.accounts hc).cast (zero_add _).symm rfl)
    rw [onHeap_alloc_of_full full]
    refine ⟨.of_same rfl rfl rfl, fun f same => ?_, given.teardown_lost idle⟩
    cases same
    exact fun _ => rfl
  · have found : ({ e with heap := e.heap.extend (ownCell id) } : Engine).fiber? id = some x := hx
    rw [onHeap_alloc_of_room full]
    simp only [found]
    have embodied := ok.embody hx cell alive fun _ => List.not_mem_nil
    have member : id ∈ (⟨(id, e.heap.fresh) :: crew, []⟩ : Scene).crew.map (·.1) :=
      List.mem_cons_self
    have related : Precedes c e (e.embody id x) := .of_same rfl rfl rfl
    have locals := requests_declareLocals member image image.locals _ embodied
    unfold embody at locals
    split
    case h_1 u e' run =>
      rw [run] at locals
      exact ⟨related.trans locals.1, locals.2⟩
    case h_2 err e' run =>
      rw [run] at locals
      obtain ⟨released, ok'⟩ := turns_release e.heap.fresh e' locals.2.2
      exact ⟨(related.trans locals.1).trans released, locals.2.1, ok'.teardown_made idle⟩

/-- What is known of an engine with a fiber that was made. -/
structure Spawned.Ready (c : Conduct) (crew : List (FiberId × Ref)) (K L : Multiset Ref)
    (s : Spawned) (e : Engine) : Prop where
  sound : e.Sound c ⟨(s.fiber, s.cell) :: crew, []⟩ ({s.cell} + K) L
  /-- The fiber was made after those that run already. -/
  latest : c ≠ .free → ∀ x ∈ crew, x.1.id < s.fiber.id
  rootless : c ≠ .free → e.roots.find? s.fiber = none

/-- A fiber that was added gets its cell and is ready to run from its entry, or is ended. -/
lemma outcome_enrol (ok : e.Sound c ⟨crew, [id]⟩ K L)
    (hx : e.fiber? id = some x)
    (cell : x.cell = none)
    (alive : c ≠ .free → id ∉ e.heap.orphans)
    (latest : c ≠ .free → ∀ y ∈ crew, y.1.id < id.id)
    (rootless : c ≠ .free → e.roots.find? id = none)
    (image : Image) :
    Outcome (Precedes c) (EngineError.Allowed c) (Spawned.Ready c crew K L)
      (Sound c ⟨crew, []⟩ K L) e
      (match materialize id image e with
      | .error err e => .error err (e.teardown id)
      | .ok cell e =>
        match image.entry? with
        | none => .error (.fault .unknownState) ((e.teardown id).release cell)
        | some entry => .ok ⟨id, cell, entry⟩ e) := by
  have idle : c ≠ .free → ∀ y ∈ crew, y.1 ≠ id := fun hc y hy same =>
    Nat.lt_irrefl _ (same ▸ latest hc y hy)
  have made := outcome_materialize ok hx cell alive idle image
  cases run : materialize id image e with
  | error err e' =>
    rw [run] at made
    exact ⟨made.1.trans (precedes_teardown e' id), made.2.1, made.2.2⟩
  | ok cell e' =>
    rw [run] at made
    obtain ⟨related, ok'⟩ := made
    cases image.entry? with
    | none =>
      obtain ⟨released, ended⟩ := turns_release cell _ (ok'.teardown_made idle)
      refine ⟨(related.trans (precedes_teardown e' id)).trans released, fun f same => ?_, ended⟩
      cases same
      exact fun _ => rfl
    | some entry =>
      refine ⟨related, ok', latest, fun hc => ?_⟩
      refine Option.eq_none_iff_forall_ne_some.2 fun r root => ?_
      have before := related.roots id r root
      rw [rootless hc] at before
      cases before

/-- A fiber that is made takes over its arguments; if it cannot be made, they are given up. -/
lemma requests_spawn (name : String) (arguments : List Ref) :
    Requests c (Sound c ⟨crew, []⟩ (arguments + K) L) (spawn name arguments)
      (Spawned.Ready c crew K L) (Sound c ⟨crew, []⟩ K L) := by
  intro e₀ ok₀
  have loaded := requests_load name e₀ ok₀
  unfold spawn
  cases run : load name e₀ with
  | error err e =>
    rw [run] at loaded
    obtain ⟨released, ok⟩ := turns_releaseAll arguments e loaded.2.2
    exact ⟨loaded.1.trans released, loaded.2.1, ok⟩
  | ok m e =>
    rw [run] at loaded
    obtain ⟨related, ok⟩ := loaded
    let x : Fiber := { machine := m.name, image := m.image, arguments }
    have refs : x.refs = arguments := by simp [x, Fiber.refs]
    have weak : x.weakRefs = 0 := rfl
    have builtin : x.IsBuiltin := by
      intro i t found
      cases found
    have inserted := (ok.cast (by rw [refs]) (by rw [weak, zero_add])).insertFiber rfl builtin
    have added : Precedes c e { e with fibers := e.fibers.insert x } := .of_same rfl rfl rfl
    refine .trans (related.trans added) (outcome_enrol inserted
      ((fiber?_insert _).trans (if_pos rfl)) rfl (fun hc orphan => ?_) (fun hc y hy => ?_)
      (fun hc => ?_) m.image)
    · exact Nat.lt_irrefl _ ((ok.consistent hc).orphans _ (.inl orphan)).1
    · exact lt_next_of_cellOf? ((ok.consistent hc).crew y hy)
    · refine Option.eq_none_iff_forall_ne_some.2 fun r root => ?_
      exact ne_next_of_cellOf? ((ok.consistent hc).rooted _ r root) rfl

end Engine

end FiberVM
