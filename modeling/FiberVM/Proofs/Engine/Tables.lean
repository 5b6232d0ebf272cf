import FiberVM.Proofs.Engine.Flight

/-!
# Variables and images

The variables of a machine are the shared ones of its image, and those of a fiber are the local ones
of its image, in the order of declaration (`Engine.Orderly`). So a name leads to the same variable
as the index of the first variable that is declared with it. On the way to a later engine machines
stay loaded, fibers keep their variables as long as they exist, and global variables are only added
(`Engine.Develops`).

Every change of an engine keeps and does this. Most changes leave variables alone (`Engine.Stays`);
these include the ones by which a machine is not loaded or a fiber is not made, since nothing of
them was there before.
-/

namespace FiberVM

/-! ## Names and indexes -/

/-- The first variable with a name stands at the index of its first declaration. -/
lemma Image.Lists.find? {image : Image} {vs entries} (lists : image.Lists vs entries)
    (name : String) :
    entries.find? (·.1 = name) = (image.variableIndex? vs name).bind fun i => entries[i]? := by
  unfold Image.variableIndex?
  induction lists with
  | nil => rfl
  | @cons v x vs entries named _ ih =>
    rw [List.find?_cons, List.findIdx?_cons]
    by_cases same : x.1 = name
    · simp [named, same]
    · simp [named, same, ih, Option.bind_map]

/-- Where the variables of an image are listed, a name leads where the index of its first
declaration leads. -/
lemma Image.Lists.lookup? {image : Image} {vs} {h : Heap} {owner}
    (lists : image.Lists vs (h.entries owner)) (name : String) :
    h.lookup? owner (.name name) = (image.variableIndex? vs name).bind fun i =>
      h.lookup? owner (.index i) := by
  rw [Heap.lookup?, lists.find?, Option.map_bind]
  rfl

namespace Engine

variable {P : Permit} {e e' e'' : Engine} {f : FiberId} {x y : Fiber}

/-! ## What variables there are -/

/-- The variables of an owner are those that its image declares. -/
inductive Conforms (e : Engine) : Owner → Prop
  /-- A machine has its shared variables, and refers to them. -/
  | machine {name m} (loaded : e.machines.find? name = some m) (named : m.name = name)
      (lists : m.image.Lists m.image.shared (e.heap.entries (.machine name)))
      (shared : m.shared = (e.heap.entries (.machine name)).map (·.2)) : Conforms e (.machine name)
  | unloaded {name} (missing : e.machines.find? name = none)
      (absent : e.heap.directory.find? (.machine name) = none) : Conforms e (.machine name)
  /-- A fiber has its local variables. Its image is the one of its machine. -/
  | fiber {f x m} (found : e.fiber? f = some x) (loaded : e.machines.find? x.machine = some m)
      (image : m.image = x.image)
      (lists : x.image.Lists x.image.locals (e.heap.entries (.fiber f))) : Conforms e (.fiber f)
  | gone {f : FiberId} (missing : e.fiber? f = none)
      (absent : e.heap.directory.find? (.fiber f) = none) :
    Conforms e (.fiber f)
  | global (distinct : (e.heap.names .global).Nodup) : Conforms e .global
  | temporary (absent : e.heap.directory.find? .temporary = none) : Conforms e .temporary

/-- The variables of all owners are those that images declare. -/
def Orderly (e : Engine) : Prop := ∀ owner, e.Conforms owner

/-- What a later engine has kept. -/
structure Develops (e e' : Engine) : Prop where
  /-- A machine stays loaded and keeps its variables. -/
  machine : ∀ {name m}, e.machines.find? name = some m →
    e'.machines.find? name = some m ∧
      e'.heap.entries (.machine name) = e.heap.entries (.machine name)
  next : e.fibers.next ≤ e'.fibers.next
  /-- A fiber that exists later, and is not a new one, existed before with the same variables. -/
  fiber : ∀ {f y}, e'.fiber? f = some y → f.id < e.fibers.next →
    ∃ x, e.fiber? f = some x ∧ y.machine = x.machine ∧ y.image = x.image ∧
      e'.heap.entries (.fiber f) = e.heap.entries (.fiber f)
  globals : e.heap.entries .global <+: e'.heap.entries .global

namespace Orderly

lemma shared (ok : Orderly e) {name : String} {m : Machine}
    (loaded : e.machines.find? name = some m) :
    m.name = name ∧ m.image.Lists m.image.shared (e.heap.entries (.machine name)) := by
  cases ok (.machine name) with
  | machine found named lists =>
    cases loaded.symm.trans found
    exact ⟨named, lists⟩
  | unloaded missing => cases loaded.symm.trans missing

/-- What a machine refers to are its shared variables. -/
lemma mem_shared (ok : Orderly e) {name : String} {m : Machine}
    (loaded : e.machines.find? name = some m) {r : Ref} (held : r ∈ m.shared) :
    ∃ entry ∈ e.heap.entries (.machine name), entry.2 = r := by
  cases ok (.machine name) with
  | machine found _ _ shared =>
    cases loaded.symm.trans found
    rw [shared] at held
    exact List.mem_map.1 held
  | unloaded missing => cases loaded.symm.trans missing

/-- A machine that is not loaded has no variables. -/
lemma unloaded (ok : Orderly e) {name : String} (missing : e.machines.find? name = none) :
    e.heap.directory.find? (.machine name) = none := by
  cases ok (.machine name) with
  | machine found => cases missing.symm.trans found
  | unloaded _ absent => exact absent

lemma locals (ok : Orderly e) (found : e.fiber? f = some x) :
    x.image.Lists x.image.locals (e.heap.entries (.fiber f)) := by
  cases ok (.fiber f) with
  | fiber found' _ _ lists =>
    cases found.symm.trans found'
    exact lists
  | gone missing => cases found.symm.trans missing

/-- The machine of a fiber is loaded. -/
lemma loaded (ok : Orderly e) (found : e.fiber? f = some x) :
    ∃ m, e.machines.find? x.machine = some m := by
  cases ok (.fiber f) with
  | @fiber _ _ m found' loaded =>
    cases found.symm.trans found'
    exact ⟨m, loaded⟩
  | gone missing => cases found.symm.trans missing

lemma gone (ok : Orderly e) (missing : e.fiber? f = none) :
    e.heap.directory.find? (.fiber f) = none := by
  cases ok (.fiber f) with
  | fiber found => cases missing.symm.trans found
  | gone _ absent => exact absent

lemma distinct (ok : Orderly e) : (e.heap.names .global).Nodup := by
  cases ok .global with
  | global distinct => exact distinct

end Orderly

namespace Develops

lemma refl (e : Engine) : Develops e e where
  machine found := ⟨found, rfl⟩
  next := le_rfl
  fiber {_ y} found _ := ⟨y, found, rfl, rfl, rfl⟩
  globals := List.prefix_rfl

lemma trans (first : Develops e e') (later : Develops e' e'') : Develops e e'' where
  machine found := by
    obtain ⟨found', same⟩ := first.machine found
    obtain ⟨found'', same'⟩ := later.machine found'
    exact ⟨found'', same'.trans same⟩
  next := first.next.trans later.next
  fiber found old := by
    obtain ⟨x', found', machine', image', same'⟩ := later.fiber found (old.trans_le first.next)
    obtain ⟨x, found, machine, image, same⟩ := first.fiber found' old
    exact ⟨x, found, machine'.trans machine, image'.trans image, same'.trans same⟩
  globals := first.globals.trans later.globals

/-- A global variable keeps its cell. -/
lemma lookup?_global (develops : Develops e e') {key r}
    (found : e.heap.lookup? .global key = some r) : e'.heap.lookup? .global key = some r := by
  obtain ⟨new, whole⟩ := develops.globals
  cases key with
  | index n =>
    obtain ⟨x, listed, rfl⟩ := Option.map_eq_some_iff.1 found
    rw [Heap.lookup?, ← whole, List.getElem?_append_left (List.getElem?_eq_some_iff.1 listed).1,
      listed]
    rfl
  | name s =>
    obtain ⟨x, listed, rfl⟩ := Option.map_eq_some_iff.1 found
    rw [Heap.lookup?, ← whole, List.find?_append, listed]
    rfl

/-- A fiber that exists before and after has the same variables. -/
lemma entries_fiber (develops : Develops e e') (before : e.fiber? f = some x)
    (after : e'.fiber? f = some y) :
    y.machine = x.machine ∧ y.image = x.image ∧ e'.heap.entries (.fiber f) = e.heap.entries
      (.fiber f) := by
  obtain ⟨x', found, same⟩ := develops.fiber after (lt_next_of_isSome (before ▸ rfl))
  cases found.symm.trans before
  exact same

end Develops

/-! ## Frames -/

/-- The machine and the image of a fiber. -/
def origin? (e : Engine) (f : FiberId) : Option (String × Image) :=
  (e.fiber? f).map fun x => (x.machine, x.image)

lemma fiber?_of_origin? (same : e'.origin? f = e.origin? f) (found : e.fiber? f = some x) :
    ∃ y, e'.fiber? f = some y ∧ y.machine = x.machine ∧ y.image = x.image := by
  rw [origin?, origin?, found] at same
  obtain ⟨y, found', origin⟩ := Option.map_eq_some_iff.1 same
  exact ⟨y, found', congrArg Prod.fst origin, congrArg Prod.snd origin⟩

/-- An owner whose variables and whose image are left alone. -/
lemma Conforms.frame {owner : Owner} (ok : e.Conforms owner)
    (find : e'.heap.directory.find? owner = e.heap.directory.find? owner)
    (machine : ∀ {name}, owner = .machine name → e'.machines.find? name = e.machines.find? name)
    (fiber : ∀ {f}, owner = .fiber f → e'.origin? f = e.origin? f)
    (loaded : ∀ {name m}, e.machines.find? name = some m → e'.machines.find? name = some m) :
    e'.Conforms owner := by
  have same : e'.heap.entries owner = e.heap.entries owner := congrArg (·.getD []) find
  cases ok with
  | machine found named lists shared =>
    exact .machine ((machine rfl).trans found) named (same ▸ lists) (same ▸ shared)
  | unloaded missing absent => exact .unloaded ((machine rfl).trans missing) (find.trans absent)
  | fiber found there image lists =>
    obtain ⟨y, found', machine', image'⟩ := fiber?_of_origin? (fiber rfl) found
    refine .fiber found' (machine'.symm ▸ loaded there) (image.trans image'.symm) ?_
    rw [image', same]
    exact lists
  | gone missing absent =>
    have missing' := fiber rfl
    rw [origin?, origin?, missing] at missing'
    exact .gone (Option.map_eq_none_iff.1 missing') (find.trans absent)
  | global distinct =>
    refine .global ?_
    rw [Heap.names, same]
    exact distinct
  | temporary absent => exact .temporary (find.trans absent)

/-- The variables of one owner may change, if it is none of those that are kept. -/
lemma Develops.frame {owner} (spares : e.heap.Spares owner e'.heap)
    (machine : ∀ {name m}, e.machines.find? name = some m → Owner.machine name ≠ owner ∧
      e'.machines.find? name = some m)
    (next : e.fibers.next ≤ e'.fibers.next)
    (fiber : ∀ {f y}, e'.fiber? f = some y → f.id < e.fibers.next → Owner.fiber f ≠ owner ∧
      ∃ x, e.fiber? f = some x ∧ y.machine = x.machine ∧ y.image = x.image)
    (globals : owner = .global → e.heap.entries .global <+: e'.heap.entries .global) :
    Develops e e' where
  machine found := ⟨(machine found).2, spares.entries (machine found).1⟩
  next := next
  fiber found old := by
    obtain ⟨other, x, found', machine, image⟩ := fiber found old
    exact ⟨x, found', machine, image, spares.entries other⟩
  globals := by
    by_cases same : owner = .global
    · exact globals same
    · refine ⟨[], ?_⟩
      rw [List.append_nil, spares.entries (Ne.symm same)]

/-- Machines and variables stay, and the fibers with their machines and images. -/
structure Stays (e e' : Engine) : Prop where
  fibers : ∀ f, e'.origin? f = e.origin? f
  next : e.fibers.next ≤ e'.fibers.next
  machines : e'.machines = e.machines
  same : e.heap.SameVariables e'.heap

namespace Stays

lemma of_fibers (fibers : e'.fibers = e.fibers) (machines : e'.machines = e.machines)
    (same : e.heap.SameVariables e'.heap) : Stays e e' :=
  ⟨fun f => congrArg _ (fiber?_congr fibers f), le_of_eq (congrArg _ fibers.symm), machines, same⟩

lemma orderly (stays : Stays e e') (ok : Orderly e) : Orderly e' := by
  intro owner
  refine (ok owner).frame (congrArg (·.find? owner) stays.same) (fun _ => ?_)
    (fun _ => stays.fibers _) fun found => ?_
  · rw [stays.machines]
  · rw [stays.machines, found]

lemma trans (first : Stays e e') (later : Stays e' e'') : Stays e e'' :=
  ⟨fun f => (later.fibers f).trans (first.fibers f), first.next.trans later.next,
    later.machines.trans first.machines, IsTrans.trans _ _ _ first.same later.same⟩

/-- A fiber is altered that keeps its machine and its image. -/
lemma setFiber (found : e.fiber? f = some x) (machine : y.machine = x.machine)
    (image : y.image = x.image) :
    Stays e (e.setFiber f y) := by
  refine ⟨fun g => ?_, le_of_eq (e.fibers.next_set f.id y).symm, rfl, rfl⟩
  rw [origin?, fiber?_setFiber found]
  split
  case isTrue same => rw [origin?, same, found, Option.map_some, Option.map_some, machine, image]
  case isFalse => rfl

lemma develops (stays : Stays e e') : Develops e e' := by
  have spares : e.heap.Spares .temporary e'.heap := .of_same stays.same
  refine .frame spares (fun found => ⟨nofun, ?_⟩) stays.next (fun {f y} found _ =>
    ⟨nofun, ?_⟩) nofun
  · rw [stays.machines, found]
  · obtain ⟨x, found', machine, image⟩ := fiber?_of_origin? (stays.fibers f).symm found
    exact ⟨x, found', machine.symm, image.symm⟩

end Stays

lemma Orderly.stays (ok : Orderly e) (stays : Stays e e') : Orderly e' ∧ Develops e e' :=
  ⟨stays.orderly ok, stays.develops⟩

/-! ## Changes of variables -/

/-- What is loaded stays so when another machine is loaded. -/
private lemma find?_load {m : Machine} {k name} (new : e.machines.find? m.name = none)
    (loaded : e.machines.find? name = some k) :
    name ≠ m.name ∧ (e.machines.insert m.name m).find? name = some k := by
  have other : name ≠ m.name := by
    rintro rfl
    cases new.symm.trans loaded
  exact ⟨other, by rw [Table.find?_insert, if_neg other, loaded]⟩

/-- A machine that is loaded has its shared variables and no others. -/
lemma Orderly.load {heap : Heap} {m : Machine} {entries : List (String × Ref)} (ok : Orderly e)
    (new : e.machines.find? m.name = none) (lists : m.image.Lists m.image.shared entries)
    (shared : m.shared = entries.map (·.2))
    (declared : e.heap.Extends (.machine m.name) entries heap) :
    Orderly { e with heap, machines := e.machines.insert m.name m } ∧
      Develops e { e with heap, machines := e.machines.insert m.name m } := by
  refine ⟨fun owner =>
    ?_, .frame declared.others (fun found => ?_) le_rfl (fun {_ y} found _ => ?_) nofun⟩
  · by_cases same : owner = .machine m.name
    · have own : heap.entries (.machine m.name) = entries := by
        rw [declared.own, Heap.entries_of_none (ok.unloaded new), List.nil_append]
      subst same
      exact .machine ((Table.find?_insert ..).trans (if_pos rfl)) rfl (own.symm ▸ lists)
        (own.symm ▸ shared)
    · refine (ok owner).frame (declared.others.find? same) (fun named => ?_) (fun _ => rfl)
        fun found =>
        (find?_load new found).2
      exact (Table.find?_insert ..).trans (if_neg fun same' =>
        same (named.trans (congrArg _ same')))
  · obtain ⟨other, found'⟩ := find?_load new found
    exact ⟨fun same => other (Owner.machine.inj same), found'⟩
  · exact ⟨nofun, y, found, rfl, rfl⟩

/-- A fiber that is made has its local variables and no others. -/
lemma Orderly.make {name : String} {m : Machine} {entries : List (String × Ref)} (ok : Orderly e)
    (loaded : e.machines.find? name = some m) (machine : x.machine = m.name)
    (image : x.image = m.image)
    (fibers : ∀ f, e'.fiber? f = if f = ⟨e.fibers.next⟩ then some x else e.fiber? f)
    (next : e'.fibers.next = e.fibers.next + 1) (machines : e'.machines = e.machines)
    (lists : x.image.Lists x.image.locals entries)
    (declared : e.heap.Extends (.fiber ⟨e.fibers.next⟩) entries e'.heap) :
    Orderly e' ∧ Develops e e' := by
  refine ⟨fun owner =>
    ?_, .frame declared.others (fun found => ⟨nofun, machines ▸ found⟩) (next ▸ Nat.le_succ _)
    (fun {f y} found old => ?_) nofun⟩
  · by_cases same : owner = .fiber ⟨e.fibers.next⟩
    -- The identity is a new one, and no fiber leaves variables behind for it.
    · have own : e'.heap.entries (.fiber ⟨e.fibers.next⟩) = entries := by
        rw [declared.own, Heap.entries_of_none (ok.gone e.fiber?_next), List.nil_append]
      have loaded' : e'.machines.find? x.machine = some m := by
        rw [machines, machine, (ok.shared loaded).1, loaded]
      subst same
      exact .fiber ((fibers _).trans (if_pos rfl)) loaded' image.symm (own.symm ▸ lists)
    · refine (ok owner).frame (declared.others.find? same) (fun _ => by rw [machines])
        (fun {f} named => ?_) fun found => machines ▸ found
      rw [origin?, fibers, if_neg fun same' => same (named.trans (congrArg _ same')), origin?]
  · have other : f ≠ ⟨e.fibers.next⟩ := by
      rintro rfl
      exact Nat.lt_irrefl _ old
    rw [fibers, if_neg other] at found
    exact ⟨fun same => other (Owner.fiber.inj same), y, found, rfl, rfl⟩

/-- A fiber that ends leaves no variables behind. -/
lemma Orderly.finish (ok : Orderly e)
    (fibers : ∀ g, e'.fiber? g = if g = f then none else e.fiber? g)
    (next : e'.fibers.next = e.fibers.next) (machines : e'.machines = e.machines)
    (forgotten : e'.heap.directory = e.heap.directory.erase (.fiber f)) :
    Orderly e' ∧ Develops e e' := by
  have spares : e.heap.Spares (.fiber f) e'.heap := .of_forgotten forgotten
  refine ⟨fun owner =>
    ?_, .frame spares (fun found => ⟨nofun, machines ▸ found⟩) (le_of_eq next.symm)
    (fun {g y} found _ => ?_) nofun⟩
  · by_cases same : owner = .fiber f
    · subst same
      refine .gone ((fibers f).trans (if_pos rfl)) ?_
      rw [forgotten, Table.find?_erase, if_pos rfl]
    · refine (ok owner).frame (spares.find? same) (fun _ => by rw [machines]) (fun {g} named => ?_)
        fun found => machines ▸ found
      rw [origin?, fibers, if_neg fun same' => same (named.trans (congrArg _ same')), origin?]
  · rw [fibers] at found
    split at found
    case isTrue => cases found
    case isFalse other => exact ⟨fun same => other (Owner.fiber.inj same), y, found, rfl, rfl⟩

/-- A global variable that is declared has a name of its own. -/
lemma Orderly.declare {heap : Heap} {name : String} {r : Ref} (ok : Orderly e)
    (new : e.heap.lookup? .global (.name name) = none)
    (declared : e.heap.Extends .global [(name, r)] heap) :
    Orderly { e with heap } ∧ Develops e { e with heap } := by
  refine ⟨fun owner => ?_, .frame declared.others (fun found => ⟨nofun, found⟩) le_rfl
    (fun {_ y} found _ => ⟨nofun, y, found, rfl, rfl⟩) fun _ => ⟨_, declared.own.symm⟩⟩
  by_cases same : owner = .global
  · have unused : name ∉ e.heap.names .global := by
      intro used
      obtain ⟨x, listed, rfl⟩ := List.mem_map.1 used
      have missing := List.find?_eq_none.1 (Option.map_eq_none_iff.1 new) x listed
      exact missing (decide_eq_true rfl)
    subst same
    refine .global ?_
    rw [Heap.names, declared.own, List.map_append]
    change (e.heap.names .global ++ [name]).Nodup
    rw [← List.concat_eq_append]
    exact ok.distinct.concat unused
  · exact (ok owner).frame (declared.others.find? same) (fun _ => rfl) (fun _ => rfl) fun found =>
      found

/-- Every change keeps variables and images together. -/
lemma Change.orderly (change : Change P e e') (ok : Orderly e) : Orderly e' ∧ Develops e e' := by
  cases change with
  | aside alike => exact ok.stays (.of_fibers alike.fibers alike.machines alike.same)
  | declare new declared => exact ok.declare new declared
  | load new lists shared declared => exact ok.load new lists shared declared
  | refuse new forgotten =>
    -- A machine that was not loaded had no variables before, so none are forgotten.
    refine ok.stays (.of_fibers rfl rfl ?_)
    exact forgotten.trans (Table.erase_of_find?_eq_none (ok.unloaded new))
  | alter found alters => exact ok.stays (.setFiber found alters.machine alters.image)
  | make loaded machine image _ fibers next _ _ machines lists declared =>
    exact ok.make loaded machine image fibers next machines lists declared
  | miss fibers next _ _ machines forgotten =>
    refine ok.stays ⟨fun f => congrArg _ (fibers f), next ▸ Nat.le_succ _, machines, ?_⟩
    exact forgotten.trans (Table.erase_of_find?_eq_none (ok.gone e.fiber?_next))
  | finish _ forgotten => exact ok.finish fiber?_erase rfl rfl forgotten
  | leave | look | register => exact ok.stays (.of_fibers rfl rfl rfl)

lemma Changes.orderly (changes : Changes P e e') (ok : Orderly e) : Orderly e' ∧ Develops e e' := by
  induction changes with
  | refl => exact ⟨ok, .refl e⟩
  | tail _ change ih =>
    obtain ⟨ok', develops⟩ := change.orderly ih.1
    exact ⟨ok', ih.2.trans develops⟩

lemma stays_settle (id : ContinuationId) (e : Engine) : Stays e (Session.settle id e) := by
  unfold Session.settle
  split
  · exact .of_fibers rfl rfl rfl
  · exact .of_fibers rfl rfl (Heap.same_releaseAll _ _)

lemma orderly_create (source : String → Option Image) (config : Config) :
    Orderly (create source config) := by
  intro owner
  cases owner with
  | global => exact .global List.nodup_nil
  | machine name => exact .unloaded rfl rfl
  | fiber f => exact .gone (Arena.get?_empty f.id) rfl
  | temporary => exact .temporary rfl

end Engine

open Engine

lemma Settles.orderly {P e e' id} (settles : Settles P id e e') (ok : e.Orderly) :
    e'.Orderly ∧ e.Develops e' := by
  rcases settles with changes | ⟨e₁, before, after⟩
  · exact changes.orderly ok
  · obtain ⟨ok₁, develops₁⟩ := before.orderly ok
    have stays := stays_settle id e₁
    obtain ⟨ok', develops'⟩ := after.orderly (stays.orderly ok₁)
    exact ⟨ok', (develops₁.trans stays.develops).trans develops'⟩

/-- A session that goes on keeps variables and images together. -/
lemma Flies.orderly {P e x p} (flies : Flies P e x p) (ok : e.Orderly) :
    p.engine.Orderly ∧ e.Develops p.engine := by
  cases flies with
  | on _ changes => exact changes.orderly ok
  | answer _ _ changes => exact changes.orderly ok
  | land _ _ settles => exact settles.orderly ok

end FiberVM
