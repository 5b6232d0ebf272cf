import FiberVM.Proofs.Heap.LifeCycle
import Mathlib.Data.Multiset.AddSub
import Mathlib.Data.Multiset.UnionInter

/-!
# References in the hand of a client

A client of a heap has strong references in its hand, and among them those that the values in its
hand own. Calls take references from the hand (`Heap.Call.spends`) and put references into it
(`Heap.Call.earns`). A client is honest if every reference that a call takes is in the hand
(`Heap.Client.Honest`). Then the strong count of a cell is the number of references to it that are
in the hand, with owners or in values, so none of them dangles.
-/

namespace FiberVM.Heap

/-- What a call takes from the hand, even if it fails. A change in place takes what the new value
owns beyond the former one: if an element is pushed to an array, the reference to that element. -/
def Call.spends (h : Heap) : Call → Multiset Ref
  | alloc _ v | declare _ _ v | store _ v | releaseValue v => v.refs
  | releaseValues vs => Value.refsAll vs
  | release r => {r}
  | edit r change => (h.get? r).elim 0 fun v => (change v).refs - v.refs
  | _ => 0

/-- What a call that is answered puts into the hand. The reference to a variable is not for the
client, but for the owner. A change in place puts there what the former value owned beyond the new
one. -/
def Call.earns (h : Heap) : Call → Answer → Multiset Ref
  | alloc .., .cell r => {r}
  | retain r, _ => {r}
  | copyValue _, .value v | copy _, .value v => v.refs
  | edit r change, _ => (h.get? r).elim 0 fun v => v.refs - (change v).refs
  | _, _ => 0

/-- A heap and what its client has in the hand. -/
structure Client where
  heap : Heap
  hand : Multiset Ref := 0

namespace Client

/-- Makes a call. -/
def enter (x : Client) (call : Call) : Client :=
  match call.run x.heap with
  | .ok answer h => ⟨h, call.earns x.heap answer + (x.hand - call.spends x.heap)⟩
  | .error _ h => ⟨h, x.hand - call.spends x.heap⟩

/-- Every call takes only what is in the hand. -/
def Honest (x : Client) : List Call → Prop
  | [] => True
  | call :: rest => call.spends x.heap ≤ x.hand ∧ (x.enter call).Honest rest

instance decidableHonest : (x : Client) → (calls : List Call) → Decidable (x.Honest calls)
  | _, [] => .isTrue trivial
  | x, call :: rest =>
    have := decidableHonest (x.enter call) rest
    inferInstanceAs (Decidable (_ ∧ _))

end Client

variable {h h' : Heap} {r : Ref} {v : Value} {K K' L : Multiset Ref} {call : Call} {x : Client}

/-! ## Operations on several references -/

lemma Accounts.releaseValues (vs : List Value) (ok : Accounts (Value.refsAll vs + K) L h) :
    Accounts K L (h.releaseValues vs) := by
  induction vs generalizing h with
  | nil => exact ok.cast (zero_add K) rfl
  | cons v rest ih =>
    rw [Value.refsAll_cons, add_assoc] at ok
    exact ih ((h.sheds_releaseValue v).accounts _ L ok)

lemma Accounts.releaseOwner (ok : Accounts K L h) (owner : Owner) :
    Accounts K L (h.releaseOwner owner) :=
  (sheds_releaseAll _ _).accounts K L (ok.forget owner)

/-- Taking references is all or nothing. -/
private lemma trades_retainAll (taken rs : List Ref)
    (all : (rs : Multiset Ref) + (taken + K) = K') :
    Triple Recounts (fun _ => True) (Accounts (taken + K) L) (retainAll taken rs)
      (fun _ => Accounts K' L) (Accounts K L) := by
  induction rs generalizing taken with
  | nil => exact fun h ok => ⟨.refl, ok.cast ((zero_add _).symm.trans all) rfl⟩
  | cons r rest ih =>
    intro h ok
    rw [retainAll]
    cases found : h.retain? r with
    | none =>
      rw [← Multiset.coe_reverse] at ok
      exact ⟨recounts_releaseAll _ h, trivial, (sheds_releaseAll taken.reverse h).accounts K L ok⟩
    | some h' =>
      have more : Accounts ((r :: taken : List Ref) + K) L h' :=
        (ok.retain? found).cast (add_assoc _ _ _).symm rfl
      have total : (rest : Multiset Ref) + ((r :: taken : List Ref) + K) = K' := by
        rw [← all, ← Multiset.cons_coe, ← Multiset.cons_coe, Multiset.cons_add, Multiset.cons_add,
          Multiset.add_cons]
      exact (ih (r :: taken) total h' more).trans (.single (.retain found))

/-- A copy of a value is in the hand. -/
private lemma trades_copyValue (v : Value) :
    Triple Recounts (fun _ => True) (Accounts K L) (copyValue v) (fun w => Accounts (w.refs + K) L)
      (Accounts K L) := by
  have taken : ∀ rs : List Ref, Triple Recounts (fun _ => True) (Accounts K L) (retainAll [] rs)
      (fun _ => Accounts (rs + K) L) (Accounts K L) := fun rs =>
    (trades_retainAll [] rs (congrArg _ (zero_add K))).pre fun h ok => ok.cast (zero_add K).symm rfl
  cases v with
  | «instance» f => exact .throw trivial fun _ ok => ok
  | _ => exact (taken _).bind fun _ => .pure fun _ ok => ok

/-- So is a copy of a cell. -/
private lemma trades_copy (r : Ref) :
    Triple Recounts (fun _ => True) (Accounts K L) (copy r) (fun w => Accounts (w.refs + K) L)
      (Accounts K L) := by
  intro h ok
  unfold copy
  split
  case h_1 => exact ⟨.refl, trivial, ok⟩
  case h_2 => exact trades_copyValue _ h ok
  case h_3 => exact trades_copyValue _ h ok

/-! ## Single calls -/

/-- What a call takes leaves the hand, and what it gives comes into the hand. -/
lemma Call.accounts (call : Call) (lives : ∀ r c, h.cell? r = some c → c.Lives)
    (ok : Accounts (call.spends h + K) L h) :
    match call.run h with
    | .ok answer h' => ∃ L', Accounts (call.earns h answer + K) L' h'
    | .error _ h' => Accounts K L h' := by
  cases call with
  | alloc owner v =>
    rw [run_alloc]
    cases h.isFull with
    | true => exact (h.sheds_releaseValue v).accounts K L ok
    | false => exact ⟨L, ok.add owner⟩
  | declare owner name v =>
    rw [run_declare]
    cases h.isFull with
    | true => exact (h.sheds_releaseValue v).accounts K L ok
    | false => exact ⟨L, ((ok.add owner).name owner name).cast (zero_add K).symm rfl⟩
  | retain r =>
    have ok : Accounts K L h := ok.cast (zero_add K) rfl
    rw [run_retain, orFreed]
    cases taken : h.retain? r with
    | none => exact ok
    | some h' => exact ⟨L, ok.retain? taken⟩
  | retainWeak r =>
    have ok : Accounts K L h := ok.cast (zero_add K) rfl
    rw [run_retainWeak, orFreed]
    cases taken : h.retainWeak? r with
    | none => exact ok
    | some h' => exact ⟨{r} + L, (ok.retainWeak? taken).cast (zero_add K).symm rfl⟩
  | release r =>
    have rest := (h.sheds_release r).accounts K L ok
    rw [Heap.release] at rest
    rw [run, orFreed]
    cases given : h.release? r with
    | none =>
      rw [given] at rest
      exact rest
    | some h' =>
      rw [given] at rest
      exact ⟨L, rest.cast (zero_add K).symm rfl⟩
  | releaseWeak r =>
    have ok : Accounts K L h := ok.cast (zero_add K) rfl
    rw [run, orFreed]
    cases given : h.releaseWeak? r with
    | none => exact ok
    | some h' =>
      -- The weak reference need not be in any hand, but it is counted, and that is enough.
      have counted : r ∈ L := by
        rw [← Multiset.count_pos, ← ok.weak, Nat.pos_iff_ne_zero]
        intro none_counted
        rw [releaseWeak?_eq_none.2 none_counted] at given
        cases given
      have held : {r} + L.erase r = L := Multiset.cons_erase counted
      have rest := (ok.cast rfl held.symm).releaseWeak? given (lives r)
      exact ⟨L.erase r, rest.cast (zero_add K).symm rfl⟩
  | releaseValue v =>
    exact ⟨L, ((h.sheds_releaseValue v).accounts K L ok).cast (zero_add K).symm rfl⟩
  | releaseValues vs => exact ⟨L, (ok.releaseValues vs).cast (zero_add K).symm rfl⟩
  | copyValue v =>
    have ok : Accounts K L h := ok.cast (zero_add K) rfl
    have copied := trades_copyValue v h ok
    rw [run_copyValue]
    cases run : Heap.copyValue v h with
    | ok w h' =>
      rw [run] at copied
      exact ⟨L, copied.2⟩
    | error fault h' =>
      rw [run] at copied
      exact copied.2.2
  | copy r =>
    have ok : Accounts K L h := ok.cast (zero_add K) rfl
    have copied := trades_copy r h ok
    rw [run_copy]
    cases run : Heap.copy r h with
    | ok w h' =>
      rw [run] at copied
      exact ⟨L, copied.2⟩
    | error fault h' =>
      rw [run] at copied
      exact copied.2.2
  | store r v =>
    cases held : h.get? r with
    | none =>
      rw [run_store_of_none held]
      exact (h.sheds_releaseValue v).accounts K L ok
    | some former =>
      obtain ⟨c, hc, value⟩ := cell?_of_get? held
      rw [run_store hc value]
      have replaced : Accounts (former.refs + K) L (h.setCell r { c with value := some v }) := by
        refine ok.replace hc value ?_
        rw [spends]
        abel
      exact ⟨L, ((sheds_releaseValue _ former).accounts K L replaced).cast (zero_add K).symm rfl⟩
  | edit r change =>
    cases held : h.get? r with
    | none =>
      rw [run_edit_of_none held]
      rw [spends, held] at ok
      exact ok.cast (zero_add K) rfl
    | some former =>
      obtain ⟨c, hc, value⟩ := cell?_of_get? held
      rw [run_edit hc value]
      refine ⟨L, ok.replace hc value ?_⟩
      simp only [spends, earns, held, Option.elim_some]
      -- Either way the values own what at least one of them does, each as often as it does.
      have either : (former.refs : Multiset Ref) - (change former).refs + (change former).refs =
          (change former).refs - former.refs + former.refs :=
        Multiset.union_comm _ _
      rw [add_right_comm, either, add_right_comm]
  | releaseOwner owner => exact ⟨L, ok.releaseOwner owner⟩
  | takeOrphans => exact ⟨L, ok.strong, ok.weak⟩

/-! ## Honest clients -/

/-- The heap is in order and accounts for what the client has in its hand. -/
structure Client.Settled (x : Client) : Prop where
  lives : ∀ r c, x.heap.cell? r = some c → c.Lives
  accounts : ∃ weakHand, Accounts x.hand weakHand x.heap

lemma settled_empty (capacity : Option Nat) : Client.Settled { heap := { capacity } } where
  lives := lives_empty capacity
  accounts := ⟨0, accounts_empty capacity⟩

/-- A client that spends what it owns stays settled. -/
lemma Client.Settled.enter (ok : x.Settled) (owned : call.spends x.heap ≤ x.hand) :
    (x.enter call).Settled := by
  obtain ⟨lives, weakHand, accounts⟩ := ok
  have later := Changes.lives (call.changes x.heap) lives
  have split : x.hand = call.spends x.heap + (x.hand - call.spends x.heap) := by
    rw [add_comm, Multiset.add_sub_cancel owned]
  have result := call.accounts lives (accounts.cast split rfl)
  rw [Call.perform] at later
  rw [Client.enter]
  cases run : call.run x.heap with
  | ok answer h =>
    rw [run] at later result
    exact ⟨later, result⟩
  | error fault h =>
    rw [run] at later result
    exact ⟨later, weakHand, result⟩

lemma Client.Settled.enterAll (calls : List Call) (ok : x.Settled) (honest : x.Honest calls) :
    (calls.foldl Client.enter x).Settled := by
  induction calls generalizing x with
  | nil => exact ok
  | cons call rest ih => exact ih (ok.enter honest.1) honest.2

/-- As long as a client is honest, the strong count of every cell is the number of references to it
that are in the hand, with owners or in values. So a reference in the hand can be given up, and each
of them has a value to read. -/
theorem strong_eq_count_of_honest (capacity : Option Nat) (calls : List Call)
    (honest : Client.Honest { heap := { capacity } } calls) :
    let x := calls.foldl Client.enter { heap := { capacity } }
    (∀ r, x.heap.strong r = x.hand.count r + x.heap.named.count r + x.heap.nested.count r) ∧
      (∀ r ∈ x.hand, ∃ h, (Call.release r).run x.heap = .ok .done h) ∧
      ∀ r ∈ x.hand + x.heap.named + x.heap.nested, ∃ v, read r x.heap = .ok v x.heap := by
  intro x
  obtain ⟨lives, weakHand, accounts⟩ : x.Settled := (settled_empty capacity).enterAll calls honest
  refine ⟨fun r => ?_, fun r held => ?_, fun r known => ?_⟩
  · rw [accounts.strong, Multiset.count_add, Multiset.count_add]
  · obtain ⟨v?, h, given⟩ := decrement?_of_strong_pos (accounts.strong_pos_of_mem held)
    rw [Call.run, Call.orFreed, release?, given]
    cases v? with
    | none => exact ⟨h, rfl⟩
    | some v => exact ⟨h.releaseValue v, rfl⟩
  · have counted : 0 < x.heap.strong r := by
      rw [accounts.strong]
      exact Multiset.count_pos.2 known
    obtain ⟨v, value⟩ := Option.isSome_iff_exists.1 ((isSome_get?_iff lives).2 counted)
    refine ⟨v, ?_⟩
    rw [read, value]

/-- A variable is an array, to which a cell is pushed that is in another array, too. Then the
variable is copied, and the copy goes into a cell for which there is no room. -/
def sharedArrayCopied : List Call :=
  [.declare .global "list" (.array #[]), .alloc .temporary (.int 7), .retain ⟨1⟩,
    .edit ⟨0⟩ fun v => match v with
      | .array rs => .array (rs.push ⟨1⟩)
      | v => v,
    .alloc .temporary (.array #[⟨1⟩]), .copy ⟨0⟩, .alloc .temporary (.array #[⟨1⟩])]

/-- The copy is gone, and both arrays still own their element. -/
theorem strong_eq_count_of_honest_sharedArrayCopied :
    let x := sharedArrayCopied.foldl Client.enter { heap := { capacity := some 3 } }
    Client.Honest { heap := { capacity := some 3 } } sharedArrayCopied ∧ x.hand = {⟨2⟩} ∧
      x.heap.strong ⟨1⟩ = 2 ∧
      x.heap.strong ⟨1⟩ = x.hand.count ⟨1⟩ + x.heap.named.count ⟨1⟩ + x.heap.nested.count ⟨1⟩ ∧
      ∃ h, (Call.release ⟨2⟩).run x.heap = .ok .done h := by
  have honest : Client.Honest { heap := { capacity := some 3 } } sharedArrayCopied := by
    decide +kernel
  obtain ⟨counted, released, -⟩ := strong_eq_count_of_honest (some 3) sharedArrayCopied honest
  exact ⟨honest, by decide +kernel, by decide +kernel, counted ⟨1⟩,
    released ⟨2⟩ (by decide +kernel)⟩

end FiberVM.Heap
