import FiberVM.Proofs.Heap.Keeping

/-!
# Giving up references

Giving up a reference may drop a value, which gives up the references that it owns, and so on. While
this goes on, the dropped values wait (`Heap.Cascade`): what they own is still in somebody's hand,
and a waiting instance makes its fiber an orphan later. Every value that waits was the value of a
cell, so the number of cells with a value bounds the work, and nothing is left waiting at the end.

What remains is that a heap which accounted for the references given up accounts for the rest
(`Heap.Sheds`).
-/

namespace FiberVM

/-- The references that some values own. -/
def Value.refsAll (vs : List Value) : Multiset Ref := (vs.map fun v => (v.refs : Multiset Ref)).sum

@[simp] lemma Value.refsAll_nil : Value.refsAll [] = 0 := rfl

@[simp] lemma Value.refsAll_cons (v : Value) (vs : List Value) :
    Value.refsAll (v :: vs) = v.refs + Value.refsAll vs := rfl

/-- What one of the values owns is owned by all of them. -/
lemma Value.mem_refsAll {v vs r} (hv : v ∈ vs) (hr : r ∈ v.refs) :
    r ∈ Value.refsAll vs := by
  induction vs with
  | nil => cases hv
  | cons w rest ih =>
    rw [Value.refsAll_cons]
    rcases List.mem_cons.1 hv with rfl | later
    · exact Multiset.mem_add.2 (.inl hr)
    · exact Multiset.mem_add.2 (.inr (ih later))

/-- The fibers whose own cells held some of the values. -/
def Value.instances (vs : List Value) : List FiberId := vs.filterMap Value.instance?

@[simp] lemma Value.instances_nil : Value.instances [] = [] := rfl

@[simp] lemma Value.instances_instance (f : FiberId) (vs : List Value) :
    Value.instances (.instance f :: vs) = f :: Value.instances vs := rfl

lemma Value.instance?_eq_some {v : Value} {f} :
    v.instance? = some f ↔ v = .instance f := by
  cases v <;> simp [Value.instance?]

lemma Value.instances_cons_of_none {v : Value} (h : v.instance? = none) (vs : List Value) :
    Value.instances (v :: vs) = Value.instances vs :=
  List.filterMap_cons_none h

/-- An instance owns no references. -/
@[simp] lemma Value.refs_instance (f : FiberId) : (Value.instance f).refs = [] := rfl

namespace Heap

variable {h h' h'' : Heap} {r s : Ref} {c d : Cell} {v : Value} {K K' L : Multiset Ref}

/-- The number of cells that have a value. -/
def valued (h : Heap) : Nat := h.cells.total fun c => if c.value.isSome then 1 else 0

lemma valued_le_size (h : Heap) : h.valued ≤ h.size :=
  h.cells.total_le_size _ fun c => by split <;> omega

/-- The heap where some fibers more are orphans. -/
def losing (h : Heap) (fibers : List FiberId) : Heap := { h with orphans := h.orphans ++ fibers }

@[simp] lemma losing_nil (h : Heap) : h.losing [] = h := by
  rw [losing, List.append_nil]

/-- Every way in which one strong reference is given up. -/
lemma decrement?_eq_some {v? : Option Value} (hd : h.decrement? r = some (v?, h')) :
    ∃ c, h.cell? r = some c ∧
      (1 < c.strong ∧ v? = none ∧ h' = h.setCell r { c with strong := c.strong - 1 } ∨
        c.strong = 1 ∧ c.weak = 0 ∧ v? = c.value ∧ h' = h.free r ∨
        c.strong = 1 ∧ 0 < c.weak ∧ v? = c.value ∧
          h' = h.setCell r { c with value := none, strong := 0 }) := by
  unfold decrement? at hd
  cases hc : h.cell? r with
  | none => simp [hc] at hd
  | some c =>
    refine ⟨c, rfl, ?_⟩
    simp only [hc] at hd
    split at hd
    · cases hd
    · split at hd
      · cases hd
        exact .inl ⟨by assumption, rfl, rfl⟩
      · have last : c.strong = 1 := by omega
        split at hd
        · cases hd
          exact .inr (.inl ⟨last, by assumption, rfl, rfl⟩)
        · cases hd
          exact .inr (.inr ⟨last, by omega, rfl, rfl⟩)

/-- A reference can be given up as long as the cell is strongly referenced. -/
lemma decrement?_of_strong_pos (live : 0 < h.strong r) :
    ∃ v? h', h.decrement? r = some (v?, h') := by
  obtain ⟨c, hc, pos⟩ := cell?_of_strong_pos live
  unfold decrement?
  simp only [hc]
  split
  · omega
  · split
    · exact ⟨_, _, rfl⟩
    · split
      · exact ⟨_, _, rfl⟩
      · exact ⟨_, _, rfl⟩

/-! ## While values wait -/

/-- From a heap where some dropped values wait, references are given up until others wait. -/
structure Cascade (given : Multiset Ref) (pending : List Value) (h : Heap) (pending' : List Value)
    (h' : Heap) : Prop where
  directory : h'.directory = h.directory
  lives : (∀ r c, h.cell? r = some c → c.Lives) → ∀ r c, h'.cell? r = some c → c.Lives
  /-- Fibers keep their cells, or their instances wait. -/
  keeps : Keeps (h.losing (Value.instances pending)) (h'.losing (Value.instances pending'))
  /-- A value that waits has left a cell. -/
  size : pending'.length + h'.valued = pending.length + h.valued
  /-- What waiting values own is in the hand. -/
  accounts : ∀ K L, Accounts (given + Value.refsAll pending + K) L h →
    Accounts (Value.refsAll pending' + K) L h'

lemma Cascade.refl (pending : List Value) (h : Heap) : Cascade 0 pending h pending h where
  directory := rfl
  lives live := live
  keeps := .refl _
  size := rfl
  accounts K L ok := ok.cast (by abel) rfl

lemma Cascade.trans {given given' pending pending' pending''}
    (a : Cascade given pending h pending' h') (b : Cascade given' pending' h' pending'' h'') :
    Cascade (given + given') pending h pending'' h'' where
  directory := b.directory.trans a.directory
  lives live := b.lives (a.lives live)
  keeps := a.keeps.trans b.keeps
  size := b.size.trans a.size
  accounts K L ok := by
    have middle := a.accounts (given' + K) L (ok.cast (by abel) rfl)
    exact b.accounts K L (middle.cast (by abel) rfl)

lemma valued_setCell (hc : h.cell? r = some c) :
    (if c.value.isSome then 1 else 0) + (h.setCell r d).valued =
      (if d.value.isSome then 1 else 0) + h.valued :=
  Arena.total_set (fun c : Cell => if c.value.isSome then 1 else 0) hc

lemma valued_free (hc : h.cell? r = some c) :
    h.valued = (if c.value.isSome then 1 else 0) + (h.free r).valued :=
  Arena.total_erase _ hc

/-- One strong reference less, while others are left. -/
private lemma cascade_share (hc : h.cell? r = some c) (many : 1 < c.strong) (pending : List Value) :
    Cascade {r} pending h pending (h.setCell r { c with strong := c.strong - 1 }) where
  directory := rfl
  lives live := by
    obtain ⟨value, -⟩ := live r c hc
    refine lives_setCell live hc ⟨⟨fun _ => ?_, fun _ => value.2 (by omega)⟩, .inl ?_⟩
    · simp only
      omega
    · simp only
      omega
  keeps := Keeps.setCell (h := h.losing _) hc (fun _ => Iff.rfl) id
  size := by
    have := valued_setCell (d := { c with strong := c.strong - 1 }) hc
    simp only at this
    omega
  accounts K L ok := by
    refine ok.setCell hc ?_ rfl
    have one_more : c.strong = c.strong - 1 + 1 := by omega
    conv_lhs => rw [one_more, Multiset.replicate_succ, ← Multiset.singleton_add]
    simp only [Cell.refs]
    abel

/-- The last strong reference less: the cell loses its value, and is freed if nothing refers to
it. -/
private lemma cascade_last (hc : h.cell? r = some c) (pending : List Value)
    (now : ∀ s, h'.get? s = if s = r then none else h.get? s)
    (next : h'.cells.next = h.cells.next)
    (directory : h'.directory = h.directory)
    (orphans : h'.orphans = h.orphans)
    (lives : (∀ r c, h.cell? r = some c → c.Lives) → ∀ r c, h'.cell? r = some c → c.Lives)
    (size : (if c.value.isSome then 1 else 0) + h'.valued = h.valued)
    (accounts : ∀ K K' L, K' + {r} = K + c.refs → Accounts K L h → Accounts K' L h') :
    Cascade {r} pending h (c.value.toList ++ pending) h' where
  directory := directory
  lives := lives
  keeps := by
    cases hv : c.value with
    | none =>
      have gone : h.get? r = none := (get?_of_cell? hc).trans hv
      have same : ∀ s, h'.get? s = h.get? s := by
        intro s
        rw [now]
        split
        case isTrue e => rw [e, gone]
        case isFalse => rfl
      exact
        { next_le := Nat.le_of_eq next.symm
          owners := fun f hf => by simpa [losing, directory] using hf
          instance_of := fun s f hs => (same s).symm.trans hs
          kept := fun s f hs => .inl ((same s).trans hs)
          orphans := fun f hf => by simpa [losing, orphans] using hf
          orphan_of := fun f hf => .inl (by simpa [losing, orphans] using hf)
          dropped := fun s _ hs => (same s).trans hs }
    | some v =>
      refine Keeps.drop (r := r) (v := v) ((get?_of_cell? hc).trans hv) now next directory ?_
      intro f
      have found : f ∈ Value.instances [v] ↔ v = .instance f := by
        simp [Value.instances, Value.instance?_eq_some]
      have split : Value.instances (v :: pending) =
          Value.instances [v] ++ Value.instances pending :=
        List.filterMap_append (l := [v])
      simp only [losing, orphans, Option.toList_some, List.singleton_append, split, List.mem_append,
        found]
      tauto
  size := by
    cases hv : c.value with
    | none => simpa [hv] using size
    | some v =>
      simp only [hv, Option.isSome_some, if_true] at size
      simp only [Option.toList_some, List.singleton_append, List.length_cons]
      omega
  accounts K L ok := by
    refine accounts _ _ L ?_ ok
    cases hv : c.value with
    | none =>
      simp only [Cell.refs, hv, Option.elim_none, Option.toList_none, List.nil_append,
        Multiset.coe_nil]
      abel
    | some v =>
      simp only [Cell.refs, hv, Option.elim_some, Option.toList_some, List.singleton_append,
        Value.refsAll_cons]
      abel

/-- Giving up one strong reference puts the dropped value, if there is one, in front of those that
wait. -/
lemma cascade_decrement {v? : Option Value} (hd : h.decrement? r = some (v?, h'))
    (pending : List Value) :
    Cascade {r} pending h (v?.toList ++ pending) h' := by
  obtain ⟨c, hc, ⟨many, rfl, rfl⟩ | ⟨last, unseen, rfl, rfl⟩ | ⟨last, seen, rfl, rfl⟩⟩ :=
    decrement?_eq_some hd
  · exact cascade_share hc many pending
  · refine cascade_last hc pending (fun s => get?_free) rfl rfl rfl lives_free
      (valued_free hc).symm ?_
    intro K K' L hand ok
    refine ok.free hc ?_ ?_
    · rw [last, Multiset.replicate_one, hand]
    · rw [unseen, Multiset.replicate_zero, add_zero]
  · refine cascade_last hc pending (fun s => get?_setCell hc) next_setCell rfl rfl ?_ ?_ ?_
    · exact fun live => lives_setCell live hc ⟨by simp, .inr seen⟩
    · have := valued_setCell (d := { c with value := none, strong := 0 }) hc
      simpa using this
    · intro K K' L hand ok
      refine ok.setCell hc ?_ rfl
      rw [last, Multiset.replicate_one, Multiset.replicate_zero, hand]
      simp [Cell.refs]

/-- A reference that nobody holds is passed over, which is not accounted for. -/
private lemma cascade_skip (hd : h.decrement? r = none) (pending : List Value) :
    Cascade {r} pending h pending h where
  directory := rfl
  lives live := live
  keeps := .refl _
  size := rfl
  accounts K L ok := by
    have live : 0 < h.strong r := by
      refine ok.strong_pos_of_mem ?_
      simp only [Multiset.mem_add, Multiset.mem_singleton, true_or]
    obtain ⟨v?, h', found⟩ := decrement?_of_strong_pos live
    rw [hd] at found
    cases found

/-- Giving up references one after the other lets dropped values wait. -/
lemma cascade_decrementAll (rs : List Ref) (pending : List Value) (h : Heap) :
    Cascade rs pending h (decrementAll rs pending h).1 (decrementAll rs pending h).2 := by
  induction rs generalizing pending h with
  | nil => exact .refl pending h
  | cons r rest ih =>
    have given : ((r :: rest : List Ref) : Multiset Ref) = {r} + (rest : Multiset Ref) := rfl
    rw [given, decrementAll]
    split
    case h_1 v h' hd => exact (cascade_decrement hd pending).trans (ih _ _)
    case h_2 h' hd => exact (cascade_decrement hd pending).trans (ih _ _)
    case h_3 hd => exact (cascade_skip hd pending).trans (ih _ _)

/-! ## When nothing waits -/

/-- A later heap has given up references of an earlier one. Instances that were dropped before and
are given up now make their fibers orphans. -/
structure Sheds (given : Multiset Ref) (fibers : List FiberId) (h h' : Heap) : Prop where
  directory : h'.directory = h.directory
  lives : (∀ r c, h.cell? r = some c → c.Lives) → ∀ r c, h'.cell? r = some c → c.Lives
  keeps : Keeps (h.losing fibers) h'
  /-- The references given up leave the hand. -/
  accounts : ∀ K L, Accounts (given + K) L h → Accounts K L h'

lemma Sheds.refl (h : Heap) : Sheds 0 [] h h where
  directory := rfl
  lives live := live
  keeps := by
    rw [losing_nil]
    exact .refl h
  accounts K L ok := ok.cast (zero_add K) rfl

lemma Sheds.trans {given given' fibers} (a : Sheds given fibers h h') (b : Sheds given' [] h' h'') :
    Sheds (given + given') fibers h h'' where
  directory := b.directory.trans a.directory
  lives live := b.lives (a.lives live)
  keeps := a.keeps.trans (by simpa using b.keeps)
  accounts K L ok := by
    have middle := a.accounts (given' + K) L (ok.cast (by abel) rfl)
    exact b.accounts K L middle

/-- A tidy heap stays so. -/
lemma Sheds.tidy {given fibers} (a : Sheds given fibers h h') (t : Tidy h) : Tidy h' := by
  refine Tidy.of_keeps (h := h.losing fibers) ⟨t.lives, t.issued, t.plain⟩ a.keeps
    (a.lives t.lives) ?_
  intro owner x hx
  rw [entries, a.directory] at hx
  exact hx

/-- The value that waits in front is taken up. -/
lemma settle_succ (n : Nat) (v : Value) (pending : List Value) (h : Heap) :
    settle (n + 1) (v :: pending) h =
      settle n (decrementAll v.refs pending (h.losing v.instance?.toList)).1
        (decrementAll v.refs pending (h.losing v.instance?.toList)).2 := by
  cases fiber : v.instance? with
  | some f =>
    obtain rfl := Value.instance?_eq_some.1 fiber
    rfl
  | none =>
    rw [Option.toList_none, losing_nil]
    cases v with
    | «instance» f => cases fiber
    | _ => rfl

/-- Every value that waits left a cell, so a number of rounds that covers the waiting values and the
cells with a value lets nothing wait at the end. -/
private lemma sheds_settle (n : Nat) (pending : List Value) (h : Heap)
    (enough : pending.length + h.valued ≤ n) :
    Sheds (Value.refsAll pending) (Value.instances pending) h (settle n pending h) := by
  induction n generalizing pending h with
  | zero =>
    cases pending with
    | nil => exact .refl h
    | cons v pending => simp at enough
  | succ n ih =>
    cases pending with
    | nil => exact .refl h
    | cons v pending =>
      rw [List.length_cons] at enough
      cases hv : v.instance? with
      | some f =>
        -- An instance owns nothing: its fiber becomes an orphan, and one value less waits.
        obtain rfl := Value.instance?_eq_some.1 hv
        have rest := ih pending (h.losing [f]) (by change _ + h.valued ≤ n; omega)
        exact
          { directory := rest.directory
            lives := rest.lives
            keeps := by
              change Keeps _ (settle n pending (h.losing [f]))
              simpa [losing] using rest.keeps
            accounts := fun K L ok => by
              refine rest.accounts K L ?_
              have rest_ok : Accounts (Value.refsAll pending + K) L h := ok.cast (by simp) rfl
              exact ⟨rest_ok.strong, rest_ok.weak⟩ }
      | none =>
        -- Values that are dropped now wait in front, but each of them has left a cell for that.
        have opened := cascade_decrementAll v.refs pending h
        have rest := ih (decrementAll v.refs pending h).1 (decrementAll v.refs pending h).2
          (by have := opened.size; omega)
        rw [settle_succ, hv, Option.toList_none, losing_nil]
        exact
          { directory := rest.directory.trans opened.directory
            lives := fun live => rest.lives (opened.lives live)
            keeps := by
              rw [Value.instances_cons_of_none hv]
              exact opened.keeps.trans rest.keeps
            accounts := fun K L ok => rest.accounts K L (opened.accounts K L ok) }

/-- Giving up a value gives up what it owns. -/
lemma sheds_releaseValue (h : Heap) (v : Value) :
    Sheds v.refs v.instance?.toList h (h.releaseValue v) := by
  have enough : [v].length + h.valued ≤ h.size + 1 := by
    have := h.valued_le_size
    simp only [List.length_singleton]
    omega
  have all := sheds_settle (h.size + 1) [v] h enough
  have fibers : Value.instances [v] = v.instance?.toList := by
    cases hv : v.instance? <;> simp [Value.instances, hv]
  rw [releaseValue]
  simpa [fibers] using all

/-- Giving up a value that is no instance gives up what it owns. -/
lemma sheds_releaseValue_of_none (h : Heap) {v : Value} (hv : v.instance? = none) :
    Sheds v.refs [] h (h.releaseValue v) := by
  have all := h.sheds_releaseValue v
  rwa [hv] at all

/-- Giving up values gives up what they own. -/
lemma sheds_releaseValues (vs : List Value) (none_instance : ∀ v ∈ vs, v.instance? = none)
    (h : Heap) : Sheds (Value.refsAll vs) [] h (h.releaseValues vs) := by
  induction vs generalizing h with
  | nil => exact .refl h
  | cons v vs ih =>
    have first := h.sheds_releaseValue_of_none (none_instance v List.mem_cons_self)
    exact first.trans (ih (fun w hw => none_instance w (List.mem_cons_of_mem v hw)) _)

/-- Giving up a strong reference takes it from the hand. -/
lemma sheds_release (h : Heap) (r : Ref) : Sheds {r} [] h (h.release r) := by
  unfold release release?
  cases hd : h.decrement? r with
  | none =>
    have skipped := cascade_skip hd []
    exact
      { directory := rfl
        lives := fun live => live
        keeps := by simpa using skipped.keeps
        accounts := fun K L ok => by simpa using skipped.accounts K L (ok.cast (by simp) rfl) }
  | some result =>
    obtain ⟨v?, h'⟩ := result
    have given := cascade_decrement hd []
    cases v? with
    | none =>
      exact
        { directory := given.directory
          lives := given.lives
          keeps := by simpa using given.keeps
          accounts := fun K L ok => by simpa using given.accounts K L (ok.cast (by simp) rfl) }
    | some v =>
      have rest := h'.sheds_releaseValue v
      have fibers : Value.instances [v] = v.instance?.toList := by
        cases hv : v.instance? <;> simp [Value.instances, hv]
      exact
        { directory := rest.directory.trans given.directory
          lives := fun live => rest.lives (given.lives live)
          keeps := by
            have first : Keeps h (h'.losing v.instance?.toList) := by
              simpa [fibers] using given.keeps
            simpa using first.trans rest.keeps
          accounts := fun K L ok => by
            refine rest.accounts K L ?_
            simpa using given.accounts K L (ok.cast (by simp) rfl) }

/-- Giving up strong references takes them from the hand. -/
lemma sheds_releaseAll (rs : List Ref) (h : Heap) : Sheds rs [] h (h.releaseAll rs) := by
  induction rs generalizing h with
  | nil => exact .refl h
  | cons r rest ih =>
    have given : ((r :: rest : List Ref) : Multiset Ref) = {r} + (rest : Multiset Ref) := rfl
    rw [given]
    exact (h.sheds_release r).trans (ih _)

end Heap

end FiberVM
