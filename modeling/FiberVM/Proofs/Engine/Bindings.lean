import FiberVM.Proofs.Engine.Recollection
import FiberVM.Proofs.Engine.Tables

/-!
# Fixed bindings

What a name denotes for a fiber depends on values in general: a segment is looked up in the value
that the one before it denotes, and `main` is whatever fiber was launched first. It does not where a
name has one segment other than `main`, or a second one that is looked up in a library
(`Lookup.Fixed`). Then the variables and the catalog of an engine say it (`Engine.Binds`), and a
search finds exactly that, with one more reference to it if it is a variable.

As engines develop, the variables of a machine and of a fiber stay as they are. So what such a name
denotes can change only by a global variable that is declared, or by a function or a library that is
registered (`Engine.Binds.develop`).
-/

namespace FiberVM

/-- A target that is no method of a value. -/
def Target.Plain (t : Target) : Prop := ∀ g r, t = .function g r → r = none

namespace Engine

/-! ## What segments denote -/

/-- What a segment denotes anywhere: a global variable, a library or a function without a
library. -/
def ambient? (e : Engine) (segment : String) : Option Target :=
  ((e.heap.lookup? .global (.name segment)).map .value).or
    (((e.catalog.library? segment).map fun _ => .library segment).or
      ((e.catalog.function? segment).map (.function · none)))

/-- What the first segment of a name denotes for a fiber of a machine, if it is not `main`. -/
def denotes? (e : Engine) (machine : String) (f : FiberId) (segment : String) : Option Target :=
  ((e.heap.lookup? (.machine machine) (.name segment)).map .value).or
    (((e.heap.lookup? (.fiber f) (.name segment)).map .value).or (e.ambient? segment))

/-- What a segment denotes in a library. -/
def member? (e : Engine) (library segment : String) : Option Target :=
  (((e.catalog.library? library).bind (·.function? segment)).map (.function · none)).or
    (e.ambient? segment)

/-- What a name denotes for a fiber of a machine, by variables and the catalog alone. -/
inductive Binds (e : Engine) (machine : String) (f : FiberId) : List String → Target → Prop
  | single {segment t} (other : segment ≠ "main")
      (denoted : e.denotes? machine f segment = some t) : Binds e machine f [segment] t
  | member {first segment library t} (other : first ≠ "main")
      (opened : e.denotes? machine f first = some (.library library))
      (denoted : e.member? library segment = some t) :
    Binds e machine f [first, segment] t

variable {e e' : Engine} {f : FiberId} {x y : Fiber} {t : Target} {machine library segment : String}
  {names : List String}

lemma plain_of_value {o : Option Ref} (denoted : o.map .value = some t) : t.Plain := by
  obtain ⟨r, -, rfl⟩ := Option.map_eq_some_iff.1 denoted
  rintro g r ⟨⟩

lemma plain_of_function {o : Option Native} (denoted : o.map (.function · none) = some t) :
    t.Plain := by
  obtain ⟨g, -, rfl⟩ := Option.map_eq_some_iff.1 denoted
  rintro g r ⟨⟩
  rfl

lemma plain_of_ambient? (denoted : e.ambient? segment = some t) : t.Plain := by
  rcases Option.or_eq_some_iff.1 denoted with global | ⟨-, denoted⟩
  · exact plain_of_value global
  rcases Option.or_eq_some_iff.1 denoted with library | ⟨-, function⟩
  · obtain ⟨l, -, rfl⟩ := Option.map_eq_some_iff.1 library
    rintro g r ⟨⟩
  · exact plain_of_function function

lemma plain_of_denotes? (denoted : e.denotes? machine f segment = some t) : t.Plain := by
  rcases Option.or_eq_some_iff.1 denoted with shared | ⟨-, denoted⟩
  · exact plain_of_value shared
  rcases Option.or_eq_some_iff.1 denoted with own | ⟨-, ambient⟩
  · exact plain_of_value own
  · exact plain_of_ambient? ambient

lemma plain_of_member? (denoted : e.member? library segment = some t) : t.Plain := by
  rcases Option.or_eq_some_iff.1 denoted with function | ⟨-, ambient⟩
  · exact plain_of_function function
  · exact plain_of_ambient? ambient

lemma Binds.plain (binds : e.Binds machine f names t) : t.Plain := by
  cases binds with
  | single _ denoted => exact plain_of_denotes? denoted
  | member _ _ denoted => exact plain_of_member? denoted

/-! ## Engines where names denote the same -/

/-- What a name denotes stays the same where the variables with its segments and the catalog stay
the same. -/
lemma Binds.congr (binds : e.Binds machine f names t) (catalog : e'.catalog = e.catalog)
    (shared : ∀ s, e'.heap.lookup? (.machine machine) (.name s) =
      e.heap.lookup? (.machine machine) (.name s))
    (own : ∀ s, e'.heap.lookup? (.fiber f) (.name s) = e.heap.lookup? (.fiber f) (.name s))
    (global : ∀ s ∈ names, e'.heap.lookup? .global (.name s) = e.heap.lookup? .global (.name s)) :
    e'.Binds machine f names t := by
  have ambient : ∀ s ∈ names, e'.ambient? s = e.ambient? s := by
    intro s inside
    rw [ambient?, ambient?, catalog, global s inside]
  have denotes : ∀ s ∈ names, e'.denotes? machine f s = e.denotes? machine f s := by
    intro s inside
    rw [denotes?, denotes?, shared, own, ambient s inside]
  cases binds with
  | @single segment _ other denoted =>
    apply Binds.single other
    rw [denotes segment List.mem_cons_self, denoted]
  | @member first segment library _ other opened denoted =>
    apply Binds.member other
    · rw [denotes first List.mem_cons_self, opened]
    · rw [member?, catalog, ambient segment (List.mem_cons_of_mem _ List.mem_cons_self)]
      exact denoted

/-- Variables stay, so only a new global variable or a change of the catalog makes a difference. -/
lemma Binds.develop (binds : e.Binds x.machine f names t) (ok : e.Orderly)
    (develops : e.Develops e') (before : e.fiber? f = some x) (after : e'.fiber? f = some y)
    (catalog : e'.catalog = e.catalog)
    (undeclared : ∀ s ∈ names, e.heap.lookup? .global (.name s) = none →
      e'.heap.lookup? .global (.name s) = none) :
    e'.Binds y.machine f names t := by
  obtain ⟨machine, -, own⟩ := develops.entries_fiber before after
  obtain ⟨m, loaded⟩ := ok.loaded before
  have shared := (develops.machine loaded).2
  -- The machine of a fiber is loaded, so it gets no more variables.
  rw [machine]
  apply binds.congr catalog
  · intro s
    rw [Heap.lookup?, shared, Heap.lookup?]
  · intro s
    rw [Heap.lookup?, own, Heap.lookup?]
  · intro s inside
    cases declared : e.heap.lookup? .global (.name s) with
    | some r => exact develops.lookup?_global declared
    | none => exact undeclared s inside declared

end Engine

namespace Lookup

open Engine

variable {e e' : Engine} {f : FiberId} {x : Fiber} {t : Target} {name segment library : String}
  {d d' : Option Target} {heap : Heap} {receiver : Receiver} {first : Bool}

/-! ## Searches -/

/-- What a search comes to that finds a target or nothing. A variable is found with one more
reference to it. -/
def deliver : Option Target → EngineM (Option Target)
  | some (.value r) => retained r
  | found => pure found

/-- A target that can be held is delivered. -/
lemma deliver_of_held (plain : t.Plain) (held : t.hold? e.heap = some heap) :
    deliver (some t) e = .ok (some t) { e with heap } := by
  cases t with
  | value r =>
    have taken : EngineM.onHeap (Heap.retain r) e = .ok () { e with heap } := by
      have kept : e.heap.retain? r = some heap := held
      simp [EngineM.onHeap, Heap.retain, kept]
    exact bind_of_ok taken
  | library l =>
    cases held
    rfl
  | function g r =>
    cases plain g r rfl
    cases held
    rfl

/-- Nothing else is delivered. -/
lemma eq_of_deliver (delivered : deliver d e = .ok d' e') : d' = d := by
  cases d with
  | none =>
    cases delivered
    rfl
  | some t =>
    cases t with
    | value r =>
      obtain ⟨_, e₁, _, returned⟩ := ok_of_bind delivered
      cases returned
      rfl
    | library l =>
      cases delivered
      rfl
    | function g r =>
      cases delivered
      rfl

/-- A search goes on in another place where the first one holds nothing. -/
private lemma deliver_or {m k} (near : m e = deliver d e) (far : k e = deliver d' e) :
    (do match ← m with | some t => return some t | none => k : EngineM (Option Target)) e = deliver
      (d.or d') e := by
  cases d with
  | none =>
    rw [bind_of_ok near]
    exact far
  | some t =>
    -- A variable that was freed is a fault, and the search does not go on then either.
    change _ = deliver (some t) e
    rw [← near]
    cases run : m e with
    | error fault e₁ => exact bind_of_error run
    | ok found e₁ =>
      cases eq_of_deliver (near.symm.trans run)
      exact bind_of_ok run

private lemma retained_map (o : Option Ref) :
    (match o with | some r => retained r | none => return none : EngineM (Option Target)) = deliver
      (o.map .value) := by
  cases o <;> rfl

/-- A search everywhere looks at globals and libraries. -/
lemma searchEverywhere_eq (segment : String) (e : Engine) :
    searchEverywhere segment e = deliver (e.ambient? segment) e := by
  unfold searchEverywhere ambient?
  rw [bind_of_ok (rfl : (get : EngineM Engine) e = .ok e e)]
  cases global : e.heap.lookup? .global (.name segment) with
  | some r => rfl
  | none =>
    simp only
    rw [bind_of_ok (rfl : (get : EngineM Engine) e = .ok e e)]
    cases library : e.catalog.library? segment with
    | some l => rfl
    | none =>
      simp only
      rw [bind_of_ok (rfl : (get : EngineM Engine) e = .ok e e)]
      cases function : e.catalog.function? segment <;> rfl

/-- The first segment of a name is looked up in the machine, in the fiber, and anywhere. -/
lemma search_first (found : e.fiber? f = some x) (other : segment ≠ "main") :
    search f (.fiber f) segment true e = deliver (e.denotes? x.machine f segment) e := by
  have looked : EngineM.fiber f e = .ok x e := by rw [EngineM.fiber, found]
  have shared : searchFirst f segment e =
      deliver ((e.heap.lookup? (.machine x.machine) (.name segment)).map .value) e := by
    unfold searchFirst
    rw [bind_of_ok (rfl : (get : EngineM Engine) e = .ok e e), if_neg other]
    simp only
    rw [bind_of_ok looked, bind_of_ok (rfl : (get : EngineM Engine) e = .ok e e)]
    exact congrFun (retained_map _) e
  have own : searchReceiver (.fiber f) segment e =
      deliver ((e.heap.lookup? (.fiber f) (.name segment)).map .value) e :=
    congrFun (retained_map (e.heap.lookup? (.fiber f) (.name segment))) e
  exact deliver_or shared (deliver_or own (searchEverywhere_eq segment e))

/-- A segment after a library is looked up in the library, and anywhere. -/
lemma search_member (f : FiberId) (library segment : String) (e : Engine) :
    search f (.library library) segment false e = deliver (e.member? library segment) e := by
  have nothing : (pure none : EngineM (Option Target)) e = deliver none e := rfl
  have inside : searchReceiver (.library library) segment e =
      deliver (((e.catalog.library? library).bind (·.function? segment)).map (.function · none))
        e := by
    have run : searchReceiver (.library library) segment e =
      .ok (((e.catalog.library? library).bind (·.function? segment)).map (.function · none)) e :=
        rfl
    rw [run]
    cases (e.catalog.library? library).bind (·.function? segment) <;> rfl
  have whole := deliver_or nothing (deliver_or inside (searchEverywhere_eq segment e))
  exact whole

/-- What is found is what a segment denotes. -/
lemma eq_of_find (searched : search f receiver segment first e = deliver d e)
    (found : find f name receiver segment first e = .ok t e') : d = some t := by
  obtain ⟨u, e₁, ensured, taken⟩ := ok_of_bind found
  obtain ⟨rfl, -⟩ := orFault_ok taken
  obtain ⟨e₂, run, -⟩ := ensure_ok ensured
  exact (eq_of_deliver (searched.symm.trans run)).symm

/-- What is found is held. -/
lemma find_of_held (still : ∀ e, leave receiver e = e) (plain : t.Plain)
    (held : t.hold? e.heap = some heap)
    (searched : search f receiver segment first e = deliver (some t) e) :
    find f name receiver segment first e = .ok t { e with heap } := by
  have run := searched.trans (deliver_of_held plain held)
  have ensured : (search f receiver segment first).ensure (leave receiver) e =
      .ok (some t) { e with heap } := by
    simp only [EngineM.ensure, run, still]
  exact bind_of_ok ensured

/-! ## Names -/

/-- To forget what was dropped leaves variables and the catalog alone. -/
lemma stays_forgotten {i} (unknown : ∀ t, ¬ e.Knows f i t) (forgotten : known f i e = .ok none e') :
    Stays e e' ∧ e'.catalog = e.catalog := by
  cases remembered : e.memo? f i with
  | none =>
    cases (known_of_none remembered).symm.trans forgotten
    exact ⟨.of_fibers rfl rfl rfl, rfl⟩
  | some t =>
    obtain ⟨r, target, dropped⟩ := Target.dropped fun lives => unknown t ⟨remembered, lives⟩
    obtain ⟨x, found, remembered⟩ := Option.bind_eq_some_iff.1 remembered
    cases (known_of_dropped found remembered target dropped).symm.trans forgotten
    have stays : Stays e (e.setFiber f { x with cache := x.cache.erase i }) :=
      .setFiber found rfl rfl
    exact ⟨⟨stays.fibers, stays.next, stays.machines, Heap.same_releaseWeak _ _⟩, rfl⟩

/-- The first segment of a name is not `main`, and the name has no other one, or one other one after
a library. -/
inductive Fixed (f : FiberId) (name : String) (e : Engine) : Prop
  | single {segment : String} (segments : Name.segments name = [segment]) (other : segment ≠ "main")
  | member {first segment library : String} {e' : Engine}
      (segments : Name.segments name = [first, segment])
      (other : first ≠ "main") (opened : find f name (.fiber f) first true e =
        .ok (.library library) e')

/-- After a library only one more segment is looked up. -/
private lemma follow_member (f : FiberId) (name library segment : String) :
    follow f name (.library library) [segment] = find f name (.library library) segment false := by
  change (find f name (.library library) segment false >>= pure) = _
  exact bind_pure _

/-- A library is found as it is. -/
private lemma find_opened (found : e.fiber? f = some x) (other : segment ≠ "main")
    (opened : e.denotes? x.machine f segment = some (.library library)) :
    find f name (.fiber f) segment true e = .ok (.library library) e := by
  apply find_of_held (fun _ => rfl) (plain_of_denotes? opened)
  · rfl
  · rw [search_first found other, opened]

/-- What is found is what the name denotes. -/
lemma binds_of_resolve (found : e.fiber? f = some x) (fixed : Fixed f name e)
    (resolved : resolve f name none e = .ok t e') : e.Binds x.machine f (Name.segments name) t := by
  let counted : Engine := { e with searches := e.searches + 1 }
  have there : counted.fiber? f = some x := found
  rw [resolve_eq] at resolved
  unfold seek at resolved
  cases fixed with
  | @single segment segments other =>
    simp only [segments] at resolved ⊢
    obtain ⟨u, e₁, sought, rest⟩ := ok_of_bind resolved
    cases rest
    have denoted : counted.denotes? x.machine f segment = some t :=
      eq_of_find (search_first there other) sought
    exact .single other denoted
  | @member first segment library e₀ segments other opened =>
    simp only [segments] at resolved ⊢
    have denoted := eq_of_find (search_first found other) opened
    have opened : find f name (.fiber f) first true counted = .ok (.library library) counted :=
      find_opened there other denoted
    rw [bind_of_ok opened, follow_member] at resolved
    exact .member other denoted (eq_of_find (search_member f library segment counted) resolved)

/-- What a name denotes is found, with one more reference to it, and that counts as one search. -/
lemma resolve_of_binds (found : e.fiber? f = some x)
    (binds : e.Binds x.machine f (Name.segments name) t) (held : t.hold? e.heap = some heap) :
    resolve f name none e = .ok t { e with heap, searches := e.searches + 1 } := by
  let counted : Engine := { e with searches := e.searches + 1 }
  have there : counted.fiber? f = some x := found
  have plain := binds.plain
  rw [resolve_eq]
  unfold seek
  generalize Name.segments name = names at binds
  cases binds with
  | @single segment _ other denoted =>
    have searched : search f (.fiber f) segment true counted = deliver (some t) counted := by
      rw [search_first there other]
      exact congrArg (deliver · counted) denoted
    exact bind_of_ok (find_of_held (fun _ => rfl) plain held searched)
  | @member first segment library _ other opened denoted =>
    have opened : find f name (.fiber f) first true counted = .ok (.library library) counted :=
      find_opened there other opened
    have searched : search f (.library library) segment false counted =
        deliver (some t) counted := by
      rw [search_member]
      exact congrArg (deliver · counted) denoted
    simp only
    rw [bind_of_ok opened, follow_member]
    exact find_of_held (fun _ => rfl) plain held searched

end Lookup

end FiberVM
