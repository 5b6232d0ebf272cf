import FiberVM.Proofs.Heap.Changes

/-!
# Ownership

What heap operations do to a heap that is tidy and accounts for what is in the hands. How much of
this can be expected depends on the host (`Conduct`): one that does as it likes can break
everything, one that puts no instance into a variable leaves the heap tidy, and one that owns the
references that it hands over also leaves it accounted for. Then no operation meets a cell that was
dropped.

In the triples of this file the references that an operation takes over stand in front of the rest
of the hand, and so do those of its result.
-/

namespace FiberVM

/-- What can be relied on about the host. -/
inductive Conduct where
  /-- Nothing. -/
  | free
  /-- It puts no cell of a fiber into a variable, and adds no functions. -/
  | plain
  /-- Besides, it owns the references that it hands over or gives up. -/
  | owning
  deriving DecidableEq, Repr

namespace Fault

/-- Whether a fault is about something that was dropped. -/
def isDangling : Fault → Bool
  | valueFreed | fiberDestroyed => true
  | _ => false

/-- A fault that can occur: under a host that owns its references, nothing is used after it was
dropped. -/
def Allowed (c : Conduct) (f : Fault) : Prop := c = .owning → f.isDangling = false

end Fault

namespace Heap

variable {c : Conduct} {h h' : Heap} {r s : Ref} {cell : Cell} {v : Value} {rs : List Ref}
  {K K' L L' : Multiset Ref} {d : Table Owner (List (String × Ref))}

/-- What is known of a heap with strong references `K` and weak references `L` in the hands. -/
structure Sound (c : Conduct) (K L : Multiset Ref) (h : Heap) : Prop where
  tidy : c ≠ .free → h.Tidy
  accounts : c = .owning → h.Accounts K L

/-- What is known of an earlier and a later heap. -/
def Precedes (c : Conduct) (h h' : Heap) : Prop := c ≠ .free → Keeps h h'

instance : Std.Refl (Precedes c) := ⟨fun h _ => .refl h⟩

instance : IsTrans Heap (Precedes c) := ⟨fun _ _ _ k k' hc => (k hc).trans (k' hc)⟩

/-- A triple about a heap operation. -/
abbrev Runs {α : Type} (c : Conduct) (P : Heap → Prop) (m : HeapM α) (Q : α → Heap → Prop)
    (F : Heap → Prop) : Prop :=
  Triple (Precedes c) (Fault.Allowed c) P m Q F

/-- A cell that can be relied on to have its value. -/
def Live (c : Conduct) (r : Ref) (h : Heap) : Prop := c = .owning → 0 < h.strong r

lemma owning_ne_free : Conduct.owning ≠ .free := nofun

lemma Sound.cast (ok : Sound c K L h) (hand : K = K') (weakHand : L = L') : Sound c K' L' h := by
  subst hand
  subst weakHand
  exact ok

/-- Only a host that owns its references cares for hands. -/
lemma Sound.of_ne_owning (other : c ≠ .owning) (ok : Sound c K L h) : Sound c K' L' h where
  tidy := ok.tidy
  accounts hc := absurd hc other

/-- What is in the hand is live. -/
lemma Sound.live_of_mem (ok : Sound c K L h) (hr : r ∈ K) : Live c r h :=
  fun hc => (ok.accounts hc).strong_pos_of_mem hr

/-- What is owned by the value of a cell is live. -/
lemma Sound.live_of_get? (ok : Sound c K L h) (hv : h.get? s = some v) (hr : r ∈ v.refs) :
    Live c r h := by
  intro hc
  obtain ⟨cell, hcell, value⟩ := cell?_of_get? hv
  refine (ok.accounts hc).strong_pos_of_nested (refs_nested hcell ?_)
  rw [Cell.refs, value]
  exact hr

/-- What is named is live. -/
lemma Sound.live_of_entries (ok : Sound c K L h) {owner x} (hx : x ∈ h.entries owner) :
    Live c x.2 h := by
  intro hc
  refine (ok.accounts hc).strong_pos_of_named ?_
  rw [entries] at hx
  cases found : h.directory.find? owner with
  | none => simp [found] at hx
  | some entries =>
    rw [found] at hx
    exact Table.mem_total found (Multiset.mem_coe.2 (List.mem_map.2 ⟨x, hx, rfl⟩))

/-- A live cell has its value. -/
lemma Sound.get?_of_live (ok : Sound c K L h) (live : Live c r h) (hc : c = .owning) :
    ∃ v, h.get? r = some v := by
  subst hc
  exact (ok.tidy owning_ne_free).get?_of_strong_pos (live rfl)

/-- The cell that a key leads to is a variable of the owner. -/
lemma mem_entries_of_lookup? {owner key} (found : h.lookup? owner key = some r) :
    ∃ name, (name, r) ∈ h.entries owner := by
  cases key with
  | index n =>
    obtain ⟨x, hx, rfl⟩ := Option.map_eq_some_iff.1 found
    exact ⟨x.1, List.mem_of_getElem? hx⟩
  | name s =>
    obtain ⟨x, hx, rfl⟩ := Option.map_eq_some_iff.1 found
    exact ⟨x.1, List.mem_of_find?_eq_some hx⟩

/-- Variables are live. -/
lemma Sound.live_of_lookup? (ok : Sound c K L h) {owner key}
    (found : h.lookup? owner key = some r) : Live c r h := by
  obtain ⟨name, hx⟩ := mem_entries_of_lookup? found
  exact ok.live_of_entries hx

/-- Variables are no cells of fibers. -/
lemma Sound.plain_of_lookup? (ok : Sound c K L h) {owner key} (found : h.lookup? owner key = some r)
    (hc : c ≠ .free) (f : FiberId) :
    h.get? r ≠ some (.instance f) := by
  obtain ⟨name, hx⟩ := mem_entries_of_lookup? found
  exact (ok.tidy hc).plain owner (name, r) hx f

/-! ## Giving up references -/

/-- Giving up references takes them from the hand. -/
lemma turns_of_sheds {f : Heap → Heap} {given} (sheds : c ≠ .free → ∀ h, Sheds given [] h (f h)) :
    Turns (Precedes c) (Sound c (given + K) L) f (Sound c K L) := by
  intro h ok
  refine ⟨fun hc => ?_, fun hc => (sheds hc h).tidy (ok.tidy hc), fun hc => ?_⟩
  · simpa using (sheds hc h).keeps
  · subst hc
    exact (sheds owning_ne_free h).accounts K L (ok.accounts rfl)

lemma turns_release (r : Ref) :
    Turns (Precedes c) (Sound c ({r} + K) L) (·.release r) (Sound c K L) :=
  turns_of_sheds fun _ h => h.sheds_release r

lemma turns_releaseAll (rs : List Ref) :
    Turns (Precedes c) (Sound c (rs + K) L) (·.releaseAll rs) (Sound c K L) :=
  turns_of_sheds fun _ h => sheds_releaseAll rs h

lemma turns_releaseValue (other : c ≠ .free → v.instance? = none) :
    Turns (Precedes c) (Sound c (v.refs + K) L) (·.releaseValue v) (Sound c K L) :=
  turns_of_sheds fun hc h => h.sheds_releaseValue_of_none (other hc)

lemma turns_releaseValues {vs} (other : c ≠ .free → ∀ v ∈ vs, v.instance? = none) :
    Turns (Precedes c) (Sound c (Value.refsAll vs + K) L) (·.releaseValues vs) (Sound c K L) :=
  turns_of_sheds fun hc h => sheds_releaseValues vs (other hc) h

/-- Replacing a cell by one with other counts. -/
private lemma turns_count {new : Cell}
    (hcell : h.cell? r = some cell)
    (value : new.value = cell.value)
    (recounted : Recount h (h.setCell r new))
    (accounts : c = .owning → (h.setCell r new).Accounts K' L')
    (ok : Sound c K L h) :
    Precedes c h (h.setCell r new) ∧ Sound c K' L' (h.setCell r new) := by
  have keeps : Keeps h (h.setCell r new) :=
    .setCell hcell (fun f => by rw [value]) fun lost => value.trans lost
  refine ⟨fun _ => keeps, fun hc => ?_, accounts⟩
  exact (ok.tidy hc).of_keeps keeps (recounted.lives (ok.tidy hc).lives) fun _ _ hx => hx

/-- Giving up a weak reference takes it from the other hand. -/
lemma turns_releaseWeak (r : Ref) :
    Turns (Precedes c) (Sound c K ({r} + L)) (·.releaseWeak r) (Sound c K L) := by
  intro h ok
  change Precedes c h (h.releaseWeak r) ∧ Sound c K L (h.releaseWeak r)
  rw [releaseWeak]
  cases given : h.releaseWeak? r with
  | none =>
    refine ⟨fun _ => .refl h, ok.tidy, fun hc => ?_⟩
    have counted : 0 < h.weak r := by
      rw [(ok.accounts hc).weak, Multiset.count_pos]
      exact Multiset.mem_add.2 (.inl (Multiset.mem_singleton_self r))
    rw [releaseWeak?_eq_none.1 given] at counted
    cases counted
  | some h' =>
    have accounts : c = .owning → h'.Accounts K L := by
      rintro rfl
      exact (ok.accounts rfl).releaseWeak? given ((ok.tidy owning_ne_free).lives r)
    obtain ⟨cell, hcell, ⟨last, lost, rfl⟩ | ⟨counted, more, rfl⟩⟩ := releaseWeak?_eq_some given
    · have gone := fun hc => ((ok.tidy hc).lives r cell hcell).value_eq_none lost
      refine ⟨fun hc => .free hcell (gone hc), fun hc => ?_, accounts⟩
      exact (ok.tidy hc).of_keeps (.free hcell (gone hc)) (lives_free (ok.tidy hc).lives)
        fun _ _ hx => hx
    · exact turns_count hcell rfl (.releaseWeak given) accounts ok

/-- Giving up weak references takes them from the other hand. -/
lemma turns_releaseWeakAll (rs : List Ref) :
    Turns (Precedes c) (Sound c K (rs + L)) (fun h => rs.foldl releaseWeak h) (Sound c K L) := by
  induction rs with
  | nil => exact fun h ok => ⟨Std.Refl.refl h, ok.cast rfl (zero_add L)⟩
  | cons r rest ih =>
    intro h ok
    have given : ((r :: rest : List Ref) : Multiset Ref) + L = {r} + (rest + L) := by
      rw [← add_assoc]
      rfl
    exact (Turns.comp (turns_releaseWeak r) ih) h (ok.cast rfl given)

/-! ## Taking references -/

/-- A strong reference more. -/
lemma precedes_retain? (retained : h.retain? r = some h') (ok : Sound c K L h) :
    Precedes c h h' ∧ Sound c ({r} + K) L h' := by
  have accounts := fun hc => (ok.accounts hc).retain? retained
  obtain ⟨cell, hcell, valued, rfl⟩ := retain?_eq_some retained
  exact turns_count hcell rfl (.retain retained) accounts ok

/-- What is live stays so while references are taken. -/
lemma Live.of_retain? (retained : h.retain? r = some h') (live : Live c s h) : Live c s h' := by
  intro hc
  obtain ⟨cell, hcell, -, rfl⟩ := retain?_eq_some retained
  rw [strong, cell?_setCell hcell]
  split
  case isTrue => exact Nat.succ_pos _
  case isFalse => exact live hc

/-- Variables stay while references are taken. -/
lemma directory_retain? (retained : h.retain? r = some h') : h'.directory = h.directory := by
  obtain ⟨cell, -, -, rfl⟩ := retain?_eq_some retained
  rfl

/-- A reference to a live cell can be taken. -/
lemma Sound.retain?_of_live (ok : Sound c K L h) (live : Live c r h) (hc : c = .owning) :
    ∃ h', h.retain? r = some h' := by
  obtain ⟨v, hv⟩ := ok.get?_of_live live hc
  obtain ⟨cell, hcell, value⟩ := cell?_of_get? hv
  exact ⟨h.setCell r { cell with strong := cell.strong + 1 }, by simp [retain?, hcell, value]⟩

/-- A reference can be taken only to a cell that has its value. -/
lemma get?_of_retain? (retained : h.retain? r = some h') : ∃ v, h.get? r = some v := by
  obtain ⟨cell, hcell, valued, -⟩ := retain?_eq_some retained
  rw [get?_of_cell? hcell]
  exact Option.isSome_iff_exists.1 valued

/-- A failure to take a reference shows that the cell was not live. -/
private lemma Sound.allowed_of_retain?_eq_none (ok : Sound c K L h) (live : Live c r h)
    (refused : h.retain? r = none) : Fault.valueFreed.Allowed c := by
  intro hc
  obtain ⟨h', taken⟩ := ok.retain?_of_live live hc
  rw [refused] at taken
  cases taken

/-- A failure to read a cell shows that it was not live. -/
private lemma Sound.allowed_of_get?_eq_none (ok : Sound c K L h) (live : Live c r h)
    (refused : h.get? r = none) : Fault.valueFreed.Allowed c := by
  intro hc
  obtain ⟨v, hv⟩ := ok.get?_of_live live hc
  rw [refused] at hv
  cases hv

lemma runs_retain :
    Runs c (fun h => Sound c K L h ∧ Live c r h) (retain r) (fun _ => Sound c ({r} + K) L)
      (Sound c K L) := by
  rintro h ⟨ok, live⟩
  unfold retain
  cases retained : h.retain? r with
  | some h' => exact precedes_retain? retained ok
  | none => exact ⟨Std.Refl.refl h, ok.allowed_of_retain?_eq_none live retained, ok⟩

/-- References are taken in addition to those taken before. -/
private lemma runs_retainAll_taken (taken : List Ref) :
    Runs c (fun h => (Sound c (taken + K) L h ∧ h.directory = d) ∧ ∀ r ∈ rs, Live c r h)
      (retainAll taken rs)
      (fun _ h => Sound c (rs + (taken + K)) L h ∧ h.directory = d) (Sound c K L) := by
  induction rs generalizing taken with
  | nil =>
    rintro h ⟨⟨ok, same⟩, -⟩
    exact ⟨Std.Refl.refl h, ok.cast (zero_add _).symm rfl, same⟩
  | cons r rest ih =>
    rintro h ⟨⟨ok, same⟩, live⟩
    have live_r := live r List.mem_cons_self
    rw [retainAll]
    cases retained : h.retain? r with
    | some h' =>
      obtain ⟨related, ok'⟩ := precedes_retain? retained ok
      have front : {r} + ((taken : Multiset Ref) + K) =
          ((r :: taken : List Ref) : Multiset Ref) + K := by
        rw [← add_assoc]
        rfl
      have result := ih (r :: taken) h' ⟨⟨ok'.cast front rfl,
        (directory_retain? retained).trans same⟩,
        fun s hs => (live s (List.mem_cons_of_mem r hs)).of_retain? retained⟩
      refine (result.trans related).imp ?_ fun _ ok => ok
      rintro _ t ⟨last, same'⟩
      refine ⟨last.cast ?_ rfl, same'⟩
      rw [← Multiset.cons_coe, ← Multiset.cons_coe, ← Multiset.singleton_add,
        ← Multiset.singleton_add]
      abel
    | none =>
      have given : ((taken.reverse : List Ref) : Multiset Ref) = (taken : Multiset Ref) :=
        Multiset.coe_reverse taken
      obtain ⟨related, ok'⟩ :=
        turns_releaseAll (c := c) (K := K) (L := L) taken.reverse h (ok.cast (by rw [given]) rfl)
      exact ⟨related, ok.allowed_of_retain?_eq_none live_r retained, ok'⟩

/-- Taking references is all or nothing. -/
lemma runs_retainAll :
    Runs c (fun h => (Sound c K L h ∧ h.directory = d) ∧ ∀ r ∈ rs, Live c r h) (retainAll [] rs)
      (fun _ h => Sound c (rs + K) L h ∧ h.directory = d) (Sound c K L) := by
  refine (runs_retainAll_taken (d := d) []).conseq ?_ ?_ fun _ ok => ok
  · rintro h ⟨⟨ok, same⟩, live⟩
    exact ⟨⟨ok.cast (zero_add K).symm rfl, same⟩, live⟩
  · rintro _ h ⟨ok, same⟩
    exact ⟨ok.cast (by rw [Multiset.coe_nil, zero_add]) rfl, same⟩

/-- A weak reference to a live cell can be taken, so this fails only under a host that cares for no
hands. -/
lemma runs_downgrade :
    Runs c (fun h => Sound c K L h ∧ Live c r h) (downgrade r) (fun _ => Sound c K ({r} + L))
      (Sound c K' L) := by
  rintro h ⟨ok, live⟩
  unfold downgrade
  cases taken : h.retainWeak? r with
  | some h' =>
    have accounts := fun hc => (ok.accounts hc).retainWeak? taken
    obtain ⟨cell, hcell, rfl⟩ := retainWeak?_eq_some taken
    exact turns_count hcell rfl (.retainWeak taken) accounts ok
  | none =>
    have missing : h.get? r = none := by
      rw [get?, Option.map_eq_none_iff.1 taken]
      rfl
    have allowed := ok.allowed_of_get?_eq_none live missing
    refine ⟨Std.Refl.refl h, allowed, ok.of_ne_owning fun hc => ?_⟩
    cases allowed hc

lemma read_ok {r v h h'} (run : read r h = .ok v h') :
    h.get? r = some v ∧ h' = h := by
  unfold read at run
  cases holds : h.get? r <;> rw [holds] at run <;> cases run
  exact ⟨rfl, rfl⟩

lemma runs_read :
    Runs c (fun h => Sound c K L h ∧ Live c r h) (read r)
      (fun v h => Sound c K L h ∧ h.get? r = some v) (Sound c K L) := by
  rintro h ⟨ok, live⟩
  unfold read
  cases hv : h.get? r with
  | some v => exact ⟨Std.Refl.refl h, ok, hv⟩
  | none => exact ⟨Std.Refl.refl h, ok.allowed_of_get?_eq_none live hv, ok⟩

/-! ## Copies -/

/-- A copy owns references of its own. -/
lemma runs_copyValue :
    Runs c (fun h => (Sound c K L h ∧ h.directory = d) ∧ ∀ r ∈ v.refs, Live c r h) (copyValue v)
      (fun w h => (Sound c (w.refs + K) L h ∧ h.directory = d) ∧ w.instance? = none)
      (Sound c K L) := by
  have many : v.instance? = none →
      Runs c (fun h => (Sound c K L h ∧ h.directory = d) ∧ ∀ r ∈ v.refs, Live c r h)
        (do retainAll [] v.refs; return v : HeapM Value)
        (fun w h => (Sound c (w.refs + K) L h ∧ h.directory = d) ∧ w.instance? = none)
        (Sound c K L) := fun other =>
    runs_retainAll.bind fun _ => .pure fun h post => ⟨post, other⟩
  cases v with
  | «instance» f => exact .throw (fun _ => rfl) fun h hs => hs.1.1
  | _ => exact many rfl

/-- The copy of the value of a cell; that of a fiber's own cell is a reference to it. -/
lemma runs_copy :
    Runs c (fun h => (Sound c K L h ∧ h.directory = d) ∧ Live c r h) (copy r)
      (fun w h => (Sound c (w.refs + K) L h ∧ h.directory = d) ∧ w.instance? = none)
      (Sound c K L) := by
  rintro h ⟨⟨ok, same⟩, live⟩
  unfold copy
  split
  case h_1 gone => exact ⟨Std.Refl.refl h, ok.allowed_of_get?_eq_none live gone, ok⟩
  case h_2 f hv =>
    refine runs_copyValue h ⟨⟨ok, same⟩, ?_⟩
    intro s hs
    obtain rfl : s = r := List.mem_singleton.1 hs
    exact live
  case h_3 v _ hv => exact runs_copyValue h ⟨⟨ok, same⟩, fun s hs => ok.live_of_get? hv hs⟩

/-- Copies are made in addition to those made before. -/
private lemma runs_copyAll_copies (copies : List Value)
    (held : ∀ r ∈ rs, r ∈ K)
    (other : ∀ v ∈ copies, v.instance? = none) :
    Runs c (Sound c (Value.refsAll copies + K) L) (copyAll copies rs)
      (fun vs h => Sound c (Value.refsAll vs + K) L h ∧ ∀ v ∈ vs, v.instance? = none)
      (Sound c K L) := by
  have refsAll_reverse : ∀ vs : List Value, Value.refsAll vs.reverse = Value.refsAll vs := by
    intro vs
    rw [Value.refsAll, List.map_reverse, List.sum_reverse, Value.refsAll]
  induction rs generalizing copies with
  | nil =>
    intro h ok
    exact ⟨Std.Refl.refl h, by rwa [refsAll_reverse], fun v hv => other v (List.mem_reverse.1 hv)⟩
  | cons r rest ih =>
    intro h ok
    have live : Live c r h :=
      ok.live_of_mem (Multiset.mem_add.2 (.inr (held r List.mem_cons_self)))
    have copied := runs_copy (r := r) (d := h.directory) h ⟨⟨ok, rfl⟩, live⟩
    rw [copyAll]
    cases run : copy r h with
    | ok v h' =>
      rw [run] at copied
      obtain ⟨related, ⟨ok', -⟩, plain⟩ := copied
      have rest_runs := ih (v :: copies) (fun s hs => held s (List.mem_cons_of_mem r hs))
        (List.forall_mem_cons.2 ⟨plain, other⟩) h' (ok'.cast (add_assoc _ _ _).symm rfl)
      exact rest_runs.trans related
    | error fault h' =>
      rw [run] at copied
      obtain ⟨related, allowed, ok'⟩ := copied
      obtain ⟨related', ok''⟩ := turns_releaseValues (c := c) (K := K) (L := L)
        (fun _ v hv => other v (List.mem_reverse.1 hv)) h' (ok'.cast (by rw [refsAll_reverse]) rfl)
      exact ⟨IsTrans.trans _ _ _ related related', allowed, ok''⟩

/-- Copies of the values of cells in the hand, all or nothing. -/
lemma runs_copyAll (held : ∀ r ∈ rs, r ∈ K) :
    Runs c (Sound c K L) (copyAll [] rs)
      (fun vs h => Sound c (Value.refsAll vs + K) L h ∧ ∀ v ∈ vs, v.instance? = none)
      (Sound c K L) := by
  refine (runs_copyAll_copies [] held nofun).pre ?_
  intro h ok
  exact ok.cast (zero_add K).symm rfl

/-! ## New and changed cells -/

/-- A new cell takes over what its value owns. -/
lemma runs_alloc (owner : Owner) (other : c ≠ .free → v.instance? = none) :
    Runs c (Sound c (v.refs + K) L) (alloc owner v)
      (fun r h => Sound c ({r} + K) L h ∧ h.get? r = some v) (Sound c K L) := by
  intro h ok
  unfold alloc
  split
  case isTrue full =>
    obtain ⟨related, ok'⟩ := turns_releaseValue other h ok
    exact ⟨related, fun _ => rfl, ok'⟩
  case isFalse room =>
    change Precedes c h (h.extend ⟨some v, owner, 1, 0⟩) ∧
      Sound c ({h.fresh} + K) L (h.extend ⟨some v, owner, 1, 0⟩) ∧
      (h.extend ⟨some v, owner, 1, 0⟩).get? h.fresh = some v
    have keeps : c ≠ .free → Keeps h (h.extend ⟨some v, owner, 1, 0⟩) := by
      intro hc
      refine .extend fun f hf => ?_
      have := other hc
      rw [Option.some.inj hf] at this
      cases this
    refine ⟨keeps, ⟨fun hc => ?_, fun hc => ?_⟩, ?_⟩
    · refine (ok.tidy hc).of_keeps (keeps hc) (lives_extend (ok.tidy hc).lives ?_) fun _ _ hx => hx
      exact ⟨by simp, .inl Nat.one_pos⟩
    · exact (ok.accounts hc).add owner
    · rw [get?_extend, if_pos rfl]

/-- Replacing the value of a cell that is no fiber's own. The cell takes over what the new value
owns, and what the former value owns comes into the hand. -/
private lemma precedes_replace {former} (hcell : h.cell? r = some cell)
    (value : cell.value = some former) (plain : c ≠ .free → former.instance? = none)
    (other : c ≠ .free → v.instance? = none) (hand : K' + v.refs = K + former.refs)
    (ok : Sound c K L h) :
    Precedes c h (h.setCell r { cell with value := some v }) ∧
      Sound c K' L (h.setCell r { cell with value := some v }) := by
  have keeps : c ≠ .free → Keeps h (h.setCell r { cell with value := some v }) := by
    intro hc
    refine .setCell hcell (fun f => ⟨fun hf => ?_, fun hf => ?_⟩) fun lost => ?_
    · have := other hc
      rw [Option.some.inj hf] at this
      cases this
    · have := plain hc
      rw [value] at hf
      rw [Option.some.inj hf] at this
      cases this
    · rw [value] at lost
      cases lost
  refine ⟨keeps, fun hc => ?_, fun hc => ?_⟩
  · have live := (ok.tidy hc).lives r cell hcell
    refine (ok.tidy hc).of_keeps (keeps hc) (lives_setCell (ok.tidy hc).lives hcell ⟨?_, live.2⟩)
      fun _ _ hx => hx
    simpa [value] using live.1
  · exact (ok.accounts hc).replace hcell value hand

/-- A variable takes over what its new value owns. -/
lemma runs_store (other : c ≠ .free → v.instance? = none) :
    Runs c
      (fun h => (Sound c (v.refs + K) L h ∧ Live c r h) ∧
        (c ≠ .free → ∀ f, h.get? r ≠ some (.instance f)))
      (store r v) (fun _ => Sound c K L) (Sound c K L) := by
  rintro h ⟨⟨ok, live⟩, variable_cell⟩
  have refused : h.get? r = none → Precedes c h (h.releaseValue v) ∧
      Fault.valueFreed.Allowed c ∧ Sound c K L (h.releaseValue v) := by
    intro gone
    obtain ⟨related, ok'⟩ := turns_releaseValue other h ok
    exact ⟨related, ok.allowed_of_get?_eq_none live gone, ok'⟩
  unfold store
  cases hcell : h.cell? r with
  | none => exact refused (by rw [get?, hcell]; rfl)
  | some cell =>
    simp only
    cases value : cell.value with
    | none => exact refused ((get?_of_cell? hcell).trans value)
    | some former =>
      have plain : c ≠ .free → former.instance? = none := by
        intro hc
        refine Option.eq_none_iff_forall_ne_some.2 fun f hf => ?_
        rw [Value.instance?_eq_some.1 hf] at value
        exact variable_cell hc f ((get?_of_cell? hcell).trans value)
      have moved : former.refs + K + v.refs = v.refs + K + former.refs := by abel
      obtain ⟨related, ok'⟩ := precedes_replace hcell value plain other moved ok
      obtain ⟨related', ok''⟩ := turns_releaseValue plain _ ok'
      exact ⟨IsTrans.trans _ _ _ related related', ok''⟩

/-- Replacing an array by one that owns more takes the rest from the hand. -/
lemma precedes_overwrite {former} (value : h.get? r = some former) (plain : former.instance? = none)
    (other : v.instance? = none) (hand : K' + v.refs = K + former.refs) (ok : Sound c K L h) :
    Precedes c h (h.overwrite r v) ∧ Sound c K' L (h.overwrite r v) := by
  obtain ⟨cell, hcell, value⟩ := cell?_of_get? value
  simp only [overwrite, hcell, value, Option.isSome_some, if_true]
  exact precedes_replace hcell value (fun _ => plain) (fun _ => other) hand ok

/-! ## Variables -/

lemma entries_insert (owner owner' : Owner) (xs : List (String × Ref)) :
    ({ h with directory := h.directory.insert owner xs } : Heap).entries owner' =
      if owner' = owner then xs else h.entries owner' := by
  rw [entries, Table.find?_insert]
  split
  · rfl
  · rfl

/-- Naming a cell takes its reference from the hand. -/
lemma Sound.name (owner : Owner) (name : String)
    (ok : Sound c ({r} + K) L h)
    (value : h.get? r = some v)
    (other : c ≠ .free → v.instance? = none) :
    Sound c K L
      { h with directory := h.directory.insert owner (h.entries owner ++ [(name, r)]) } where
  tidy hc :=
    have old_or_new : ∀ owner' x,
        x ∈ ({ h with directory := h.directory.insert owner (h.entries owner ++ [(name, r)]) } :
          Heap).entries owner' →
        x ∈ h.entries owner' ∨ x = (name, r) := by
      intro owner' x hx
      rw [entries_insert] at hx
      split at hx
      case isFalse => exact .inl hx
      case isTrue same =>
        rw [same]
        exact (List.mem_append.1 hx).imp_right List.mem_singleton.1
    { lives := (ok.tidy hc).lives
      issued := by
        intro owner' x hx
        rcases old_or_new owner' x hx with old | rfl
        · exact (ok.tidy hc).issued owner' x old
        · exact lt_next_of_get? value
      plain := by
        intro owner' x hx f hf
        rcases old_or_new owner' x hx with old | rfl
        · exact (ok.tidy hc).plain owner' x old f hf
        · have same : v = .instance f := Option.some.inj (value.symm.trans hf)
          have := other hc
          rw [same] at this
          cases this }
  accounts hc := (ok.accounts hc).name owner name

/-- A variable of somebody who is not a fiber takes over what its value owns. -/
lemma runs_declare {owner} (name : String) (shared : ∀ f, owner ≠ .fiber f)
    (other : c ≠ .free → v.instance? = none) :
    Runs c (Sound c (v.refs + K) L) (declare owner name v)
      (fun r h => Sound c K L h ∧ Live c r h) (Sound c K L) := by
  intro h ok
  have allocated := runs_alloc owner other h ok
  unfold declare
  cases run : alloc owner v h with
  | error fault h' =>
    rw [run] at allocated
    exact allocated
  | ok r h' =>
    rw [run] at allocated
    obtain ⟨related, ok', value⟩ := allocated
    have named := ok'.name owner name value other
    refine ⟨fun hc => (related hc).trans (.directory fun f hf => ?_), named, ?_⟩
    · rw [Table.contains, Table.find?_insert, if_neg (fun e => shared f e.symm)] at hf
      exact hf
    · have listed : (name, r) ∈ ({ h' with
          directory := h'.directory.insert owner (h'.entries owner ++ [(name, r)]) } : Heap).entries
            owner := by
        rw [entries_insert, if_pos rfl]
        exact List.mem_append_right _ List.mem_cons_self
      exact named.live_of_entries listed

lemma entries_erase (owner owner' : Owner) :
    ({ h with directory := h.directory.erase owner } : Heap).entries owner' =
      if owner' = owner then [] else h.entries owner' := by
  rw [entries, Table.find?_erase]
  split
  · rfl
  · rfl

/-- Forgetting the variables of an owner gives up its references. -/
lemma turns_releaseOwner (owner : Owner) :
    Turns (Precedes c) (Sound c K L) (·.releaseOwner owner) (Sound c K L) := by
  intro h ok
  have keeps : Keeps h { h with directory := h.directory.erase owner } := by
    refine .directory fun f hf => ?_
    rw [Table.contains, Table.find?_erase] at hf
    split at hf
    · cases hf
    · exact hf
  have forgotten : Sound c (((h.entries owner).map (·.2) : List Ref) + K) L
      { h with directory := h.directory.erase owner } := by
    refine ⟨fun hc => (ok.tidy hc).of_keeps keeps (ok.tidy hc).lives fun owner' x hx => ?_,
      fun hc => (ok.accounts hc).forget owner⟩
    rw [entries_erase] at hx
    split at hx
    · cases hx
    · exact hx
  obtain ⟨related, ok'⟩ := turns_releaseAll _ _ forgotten
  exact ⟨fun hc => keeps.trans (related hc), ok'⟩

end Heap

end FiberVM
