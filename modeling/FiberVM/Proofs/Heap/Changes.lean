import FiberVM.Heap.Directory
import FiberVM.Proofs.Heap.Cascade
import FiberVM.Proofs.Triple
import Mathlib.Logic.Relation

/-!
# Single changes of a heap

Whatever is done to a heap comes down to a few single changes. Two of them put a value into a cell
(`Heap.Change`), and the others merely recount references (`Heap.Recount`). What every single change
keeps is kept by every operation, even in the midst of it and however the operation ends.
-/

namespace FiberVM.Heap

/-- A single change that puts no value into a cell. -/
inductive Recount : Heap → Heap → Prop
  | retain {h : Heap} {h' r} (taken : h.retain? r = some h') : Recount h h'
  | retainWeak {h : Heap} {h' r} (taken : h.retainWeak? r = some h') : Recount h h'
  | release {h : Heap} {h' r} {v? : Option Value} (given : h.decrement? r = some (v?, h')) :
      Recount h h'
  | releaseWeak {h : Heap} {h' r} (given : h.releaseWeak? r = some h') : Recount h h'
  | name {h} (directory : Table Owner (List (String × Ref))) : Recount h { h with directory }
  | orphan {h} (orphans : List FiberId) : Recount h { h with orphans }

/-- A single change of a heap. -/
inductive Change : Heap → Heap → Prop
  | recount {h h'} (recounted : Recount h h') : Change h h'
  | add {h : Heap} (owner : Owner) (v : Value) (room : ¬ h.isFull) :
      Change h (h.extend ⟨some v, owner, 1, 0⟩)
  | replace {h : Heap} {r c} (hc : h.cell? r = some c) (valued : c.value.isSome) (v : Value) :
    Change h (h.setCell r { c with value := some v })

variable {α : Type} {h h' : Heap} {r : Ref} {v : Value}

abbrev Recounts : Heap → Heap → Prop := Relation.ReflTransGen Recount

abbrev Changes : Heap → Heap → Prop := Relation.ReflTransGen Change

lemma Recounts.changes (recounted : Recounts h h') : Changes h h' :=
  Relation.ReflTransGen.mono (fun _ _ => .recount) h h' recounted

/-- An operation makes such changes, however it ends. -/
abbrev Makes (R : Heap → Heap → Prop) (m : HeapM α) : Prop :=
  Triple R (fun _ => True) (fun _ => True) m (fun _ _ => True) (fun _ => True)

/-- Changes of counts are changes. -/
lemma Makes.changes {m : HeapM α} (made : Makes Recounts m) : Makes Changes m := by
  intro h _
  have result := made h trivial
  cases run : m h with
  | ok a h' =>
    rw [run] at result
    exact ⟨Recounts.changes result.1, trivial⟩
  | error fault h' =>
    rw [run] at result
    exact ⟨Recounts.changes result.1, trivial, trivial⟩

/-! ## Giving up references -/

/-- Giving up references changes counts. -/
lemma recounts_decrementAll (rs : List Ref) (pending : List Value) (h : Heap) :
    Recounts h (decrementAll rs pending h).2 := by
  induction rs generalizing pending h with
  | nil => exact .refl
  | cons r rest ih =>
    rw [decrementAll]
    split
    case h_1 v h' given => exact .head (.release given) (ih _ _)
    case h_2 h' given => exact .head (.release given) (ih _ _)
    case h_3 => exact ih _ _

lemma recounts_settle (n : Nat) (pending : List Value) (h : Heap) :
    Recounts h (settle n pending h) := by
  induction n, pending, h using settle.induct with
  | case1 n h => rw [settle]
  | case2 v pending h => rw [settle]
  | case3 n f pending h ih =>
    rw [settle]
    exact .head (.orphan _) ih
  | case4 n v pending h other pending' h' opened ih =>
    rw [settle, opened]
    · have first := recounts_decrementAll v.refs pending h
      rw [opened] at first
      exact first.trans ih
    · exact other

lemma recounts_releaseValue (h : Heap) (v : Value) :
    Recounts h (h.releaseValue v) := recounts_settle _ _ h

lemma recounts_releaseValues (vs : List Value) (h : Heap) : Recounts h (h.releaseValues vs) := by
  induction vs generalizing h with
  | nil => exact .refl
  | cons v rest ih => exact (h.recounts_releaseValue v).trans (ih _)

/-- So does a release. -/
lemma recounts_release? (given : h.release? r = some h') : Recounts h h' := by
  unfold release? at given
  split at given
  case h_1 => cases given
  case h_2 dropped =>
    cases given
    exact .single (.release dropped)
  case h_3 v h' dropped =>
    cases given
    exact .head (.release dropped) (h'.recounts_releaseValue v)

lemma recounts_release (h : Heap) (r : Ref) : Recounts h (h.release r) := by
  rw [release]
  cases given : h.release? r with
  | none => exact .refl
  | some h' => exact recounts_release? given

lemma recounts_releaseAll (rs : List Ref) (h : Heap) : Recounts h (h.releaseAll rs) := by
  induction rs generalizing h with
  | nil => exact .refl
  | cons r rest ih => exact (h.recounts_release r).trans (ih _)

lemma recounts_releaseWeak (h : Heap) (r : Ref) : Recounts h (h.releaseWeak r) := by
  rw [releaseWeak]
  cases given : h.releaseWeak? r with
  | none => exact .refl
  | some h' => exact .single (.releaseWeak given)

lemma recounts_releaseOwner (h : Heap) (owner : Owner) : Recounts h (h.releaseOwner owner) :=
  .head (.name _) (recounts_releaseAll _ _)

/-! ## Taking references -/

lemma makes_retain (r : Ref) : Makes Recounts (retain r) := by
  intro h _
  rw [retain]
  cases taken : h.retain? r with
  | none => exact ⟨.refl, trivial, trivial⟩
  | some h' => exact ⟨.single (.retain taken), trivial⟩

lemma makes_downgrade (r : Ref) : Makes Recounts (downgrade r) := by
  intro h _
  rw [downgrade]
  cases taken : h.retainWeak? r with
  | none => exact ⟨.refl, trivial, trivial⟩
  | some h' => exact ⟨.single (.retainWeak taken), trivial⟩

/-- Also those references that are given up again because another one cannot be taken. -/
lemma makes_retainAll (taken rs : List Ref) : Makes Recounts (retainAll taken rs) := by
  induction rs generalizing taken with
  | nil => exact fun h _ => ⟨.refl, trivial⟩
  | cons r rest ih =>
    intro h _
    rw [retainAll]
    cases found : h.retain? r with
    | none => exact ⟨recounts_releaseAll _ h, trivial, trivial⟩
    | some h' => exact (ih (r :: taken) h' trivial).trans (.single (.retain found))

lemma makes_copyValue (v : Value) : Makes Recounts (copyValue v) := by
  cases v with
  | «instance» f => exact .throw trivial fun _ _ => trivial
  | _ => exact (makes_retainAll [] _).bind fun _ => .pure fun _ _ => trivial

lemma makes_copy (r : Ref) : Makes Recounts (copy r) := by
  intro h _
  rw [copy]
  split
  case h_1 => exact ⟨.refl, trivial, trivial⟩
  case h_2 => exact makes_copyValue _ h trivial
  case h_3 => exact makes_copyValue _ h trivial

/-! ## New values -/

lemma makes_alloc (owner : Owner) (v : Value) : Makes Changes (alloc owner v) := by
  intro h _
  rw [alloc]
  split
  case isTrue => exact ⟨(h.recounts_releaseValue v).changes, trivial, trivial⟩
  case isFalse room => exact ⟨.single (.add owner v room), trivial⟩

/-- A declaration adds a cell and names it. -/
lemma makes_declare (owner : Owner) (name : String) (v : Value) :
    Makes Changes (declare owner name v) := by
  intro h _
  have allocated := makes_alloc owner v h trivial
  rw [declare]
  cases run : alloc owner v h with
  | ok r h' =>
    rw [run] at allocated
    exact ⟨allocated.1.tail (.recount (.name _)), trivial⟩
  | error fault h' =>
    rw [run] at allocated
    exact allocated

/-- Storing replaces a value and gives up the former one. -/
lemma makes_store (r : Ref) (v : Value) : Makes Changes (store r v) := by
  intro h _
  have refused := (h.recounts_releaseValue v).changes
  rw [store]
  cases hc : h.cell? r with
  | none => exact ⟨refused, trivial, trivial⟩
  | some c =>
    cases value : c.value with
    | none =>
      simp only [value]
      exact ⟨refused, trivial, trivial⟩
    | some former =>
      simp only [value]
      refine ⟨.head (.replace hc ?_ v) (recounts_releaseValue _ former).changes, trivial⟩
      rw [value]
      rfl

/-! ## Cells are there for a reason -/

/-- Counts keep cells alive for a reason. -/
lemma Recount.lives (recounted : Recount h h') (lives : ∀ r c, h.cell? r = some c → c.Lives) :
    ∀ r c, h'.cell? r = some c → c.Lives := by
  cases recounted with
  | retain taken =>
    obtain ⟨c, hc, valued, rfl⟩ := retain?_eq_some taken
    exact lives_setCell lives hc ⟨⟨fun _ => Nat.succ_pos _, fun _ => valued⟩, .inl (Nat.succ_pos _)⟩
  | retainWeak taken =>
    obtain ⟨c, hc, rfl⟩ := retainWeak?_eq_some taken
    exact lives_setCell lives hc ⟨(lives _ c hc).1, .inr (Nat.succ_pos _)⟩
  | release given => exact (cascade_decrement given []).lives lives
  | releaseWeak given =>
    obtain ⟨c, hc, ⟨-, -, rfl⟩ | ⟨counted, more, rfl⟩⟩ := releaseWeak?_eq_some given
    · exact lives_free lives
    · have held : 0 < c.strong ∨ 0 < c.weak - 1 := by omega
      exact lives_setCell lives hc ⟨(lives _ c hc).1, held⟩
  | name | orphan => exact lives

lemma Change.lives (changed : Change h h') (lives : ∀ r c, h.cell? r = some c → c.Lives) :
    ∀ r c, h'.cell? r = some c → c.Lives := by
  cases changed with
  | recount recounted => exact recounted.lives lives
  | add owner v => exact lives_extend lives ⟨iff_of_true rfl Nat.one_pos, .inl Nat.one_pos⟩
  | replace hc valued v =>
    obtain ⟨value, referenced⟩ := lives _ _ hc
    exact lives_setCell lives hc ⟨iff_of_true rfl (value.1 valued), referenced⟩

lemma Changes.lives (changed : Changes h h') (lives : ∀ r c, h.cell? r = some c → c.Lives) :
    ∀ r c, h'.cell? r = some c → c.Lives := by
  induction changed with
  | refl => exact lives
  | tail _ last ih => exact last.lives ih

lemma lives_empty (capacity : Option Nat) :
    ∀ r c, ({ capacity } : Heap).cell? r = some c → c.Lives := by
  intro r c hc
  rw [cell?_empty] at hc
  cases hc

end FiberVM.Heap
