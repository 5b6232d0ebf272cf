import FiberVM.Proofs.Agenda.Calls
import FiberVM.Proofs.Data.Total

/-!
# Who waits on the agenda

A continuation is bound to a fiber, whose cell it refers to (`Agenda.bond?`). Once it was
registered, its bond never changes until it is taken out, and then it is gone for good
(`Agenda.Persists`). The agenda knows the continuations of each fiber (`Agenda.Indexed`), so that
cancelling those of a fiber leaves none of them.

Taking continuations out hands back the references that they held (`Agenda.Sheds`).
-/

namespace FiberVM.Agenda

variable {a a' a'' : Agenda} {id other : ContinuationId} {f : FiberId} {r : Ref} {c : Continuation}

/-- The fiber of a continuation with the reference to its cell. -/
def bond? (a : Agenda) (id : ContinuationId) : Option (FiberId × Ref) :=
  (a.get? id).map fun c => (c.fiber, c.cell)

/-- The references that continuations hold. -/
def cells (a : Agenda) : Multiset Ref := a.continuations.total fun c => {c.cell}

/-- Every continuation is known to its fiber. -/
def Indexed (a : Agenda) : Prop := ∀ id f r, a.bond? id = some (f, r) → id ∈ a.ownedBy f

/-- What happens to bonds between an earlier and a later agenda. -/
structure Persists (a a' : Agenda) : Prop where
  next_le : a.continuations.next ≤ a'.continuations.next
  /-- A continuation keeps its bond until it is gone, and does not come back. -/
  bond : ∀ id, id.id < a.continuations.next → a'.bond? id = none ∨ a'.bond? id = a.bond? id

lemma Persists.refl (a : Agenda) : Persists a a where
  next_le := Nat.le_refl _
  bond _ _ := .inr rfl

lemma Persists.trans (x : Persists a a') (y : Persists a' a'') : Persists a a'' where
  next_le := Nat.le_trans x.next_le y.next_le
  bond id issued := by
    rcases y.bond id (Nat.lt_of_lt_of_le issued x.next_le) with gone | kept
    · exact .inl gone
    · rw [kept]
      exact x.bond id issued

lemma bond?_of_get? (hc : a.get? id = some c) : a.bond? id = some (c.fiber, c.cell) := by
  rw [bond?, hc]
  rfl

lemma bond?_eq_none : a.bond? id = none ↔ a.get? id = none := Option.map_eq_none_iff

/-- Only identifiers that were issued are bound. -/
lemma lt_next_of_bond? (hb : a.bond? id = some (f, r)) : id.id < a.continuations.next := by
  by_contra late
  have unknown : a.get? id = none := a.continuations.get?_of_next_le (Nat.le_of_not_lt late)
  rw [bond?_eq_none.2 unknown] at hb
  cases hb

/-- A reference that a bound continuation holds is one of the agenda. -/
lemma mem_cells (hb : a.bond? id = some (f, r)) : r ∈ a.cells := by
  obtain ⟨c, hc, same⟩ := Option.map_eq_some_iff.1 hb
  cases same
  exact Arena.mem_total hc (Multiset.mem_singleton_self c.cell)

lemma ContinuationId.eq_of_id_eq {x y : ContinuationId} (h : x.id = y.id) : x = y := by
  cases x
  cases y
  exact congrArg ContinuationId.mk h

/-! ## Taking continuations out -/

/-- A later agenda has handed back references of an earlier one. -/
structure Sheds (given : Multiset Ref) (a a' : Agenda) : Prop where
  next : a'.continuations.next = a.continuations.next
  bond : ∀ id, a'.bond? id = none ∨ a'.bond? id = a.bond? id
  /-- What is still bound to a fiber is still known to it. -/
  owned : ∀ id f r, a'.bond? id = some (f, r) → id ∈ a.ownedBy f → id ∈ a'.ownedBy f
  /-- What is handed back is what continuations held. -/
  cells : a.cells = given + a'.cells

namespace Sheds

variable {given given' : Multiset Ref}

lemma refl (a : Agenda) : Sheds 0 a a where
  next := rfl
  bond _ := .inr rfl
  owned _ _ _ _ h := h
  cells := (zero_add _).symm

/-- A bond that is left was there before. -/
lemma bond_of (x : Sheds given a a') (hb : a'.bond? id = some (f, r)) :
    a.bond? id = some (f, r) := by
  rcases x.bond id with gone | kept
  · rw [gone] at hb
    cases hb
  · exact kept.symm.trans hb

lemma trans (x : Sheds given a a') (y : Sheds given' a' a'') : Sheds (given + given') a a'' where
  next := y.next.trans x.next
  bond id := by
    rcases y.bond id with gone | kept
    · exact .inl gone
    · rw [kept]
      exact x.bond id
  owned id f r hb h := y.owned id f r hb (x.owned id f r (y.bond_of hb) h)
  cells := by rw [x.cells, y.cells, add_assoc]

/-- A change afterwards that hands nothing back. -/
lemma after (x : Sheds given a a') (y : Sheds 0 a' a'') : Sheds given a a'' := by
  have both := x.trans y
  rwa [add_zero] at both

lemma persists (x : Sheds given a a') : Persists a a' where
  next_le := Nat.le_of_eq x.next.symm
  bond id _ := x.bond id

/-- What is left is known to its fibers. -/
lemma indexed (x : Sheds given a a') (known : a.Indexed) : a'.Indexed :=
  fun id f r hb => x.owned id f r hb (known id f r (x.bond_of hb))

end Sheds

/-- A later agenda has the bonds of an earlier one. -/
private structure Keeps (a a' : Agenda) : Prop where
  next : a'.continuations.next = a.continuations.next
  bond : ∀ id, a'.bond? id = a.bond? id
  owned : a'.owned = a.owned
  cells : a'.cells = a.cells

private lemma Keeps.refl (a : Agenda) : Keeps a a := ⟨rfl, fun _ => rfl, rfl, rfl⟩

private lemma Keeps.trans (x : Keeps a a') (y : Keeps a' a'') : Keeps a a'' where
  next := y.next.trans x.next
  bond id := (y.bond id).trans (x.bond id)
  owned := y.owned.trans x.owned
  cells := y.cells.trans x.cells

private lemma Keeps.sheds (x : Keeps a a') : Sheds 0 a a' where
  next := x.next
  bond id := .inr (x.bond id)
  owned id f r _ known := by
    rw [ownedBy, x.owned]
    exact known
  cells := by rw [x.cells, zero_add]

/-- Changes of a continuation that leave its bond alone. -/
private lemma keeps_modify (change : Continuation → Continuation)
    (fiber : ∀ c, (change c).fiber = c.fiber)
    (cell : ∀ c, (change c).cell = c.cell) (a : Agenda) (id : ContinuationId) :
    Keeps a (a.modify id change) := by
  unfold Agenda.modify
  cases hc : a.get? id with
  | none => exact .refl a
  | some c =>
    refine ⟨a.continuations.next_set id.id (change c), fun other => ?_, rfl, ?_⟩
    · simp only [bond?, get?, set, Arena.get?_set]
      split
      case isTrue same =>
        have found : a.continuations.get? other.id = some c := same.1 ▸ hc
        rw [found]
        simp only [Option.map_some, fiber, cell]
      case isFalse => rfl
    · refine Arena.total_set_of_eq (fun c : Continuation => ({c.cell} : Multiset Ref)) hc ?_
      rw [cell]

/-- Changes of the lists leave the bonds alone. -/
private lemma keeps_lists (a : Agenda) (lists : List (String × WaitList)) (tick : Nat) :
    Keeps a { a with lists, tick } :=
  ⟨rfl, fun _ => rfl, rfl, rfl⟩

private lemma keeps_modifyList (a : Agenda) (name : String) (change : WaitList → WaitList) :
    Keeps a (a.modifyList name change) :=
  a.keeps_lists _ a.tick

/-- A continuation that is erased hands back its reference. -/
private lemma sheds_erase (hc : a.get? id = some c) :
    Sheds {c.cell} a { a with continuations := a.continuations.erase id.id } where
  next := rfl
  bond other := by
    simp only [bond?, get?, Arena.get?_erase]
    split
    · exact .inl rfl
    · exact .inr rfl
  owned _ _ _ _ h := h
  cells := Arena.total_erase _ hc

/-- A fiber need not know a continuation that is gone. -/
private lemma sheds_forget (gone : a.bond? id = none) (f : FiberId) :
    Sheds 0 a { a with
      owned :=
        if (a.ownedBy f).filter (· ≠ id) = [] then a.owned.erase f
        else a.owned.insert f ((a.ownedBy f).filter (· ≠ id)) } where
  next := rfl
  bond _ := .inr rfl
  owned other g s hb known := by
    have different : other ≠ id := by
      rintro rfl
      have bound : a.bond? other = some (g, s) := hb
      rw [gone] at bound
      cases bound
    have listed : g = f → other ∈ (a.ownedBy f).filter (· ≠ id) := by
      rintro rfl
      exact List.mem_filter.2 ⟨known, decide_eq_true different⟩
    change other ∈ ((if _ then _ else _ : Table FiberId (List ContinuationId)).find? g).getD []
    split
    case isTrue none_left =>
      rw [Table.find?_erase]
      split
      case isTrue e =>
        have kept := listed e
        rw [none_left] at kept
        cases kept
      case isFalse => exact known
    case isFalse =>
      rw [Table.find?_insert]
      split
      case isTrue e => exact listed e
      case isFalse => exact known
  cells := (zero_add _).symm

/-- Taking a continuation out hands back its reference. -/
lemma sheds_detach (detached : a.detach id = some (c, a')) :
    Sheds {c.cell} a a' ∧ a'.bond? id = none := by
  unfold detach at detached
  cases hc : a.get? id with
  | none => simp [hc] at detached
  | some found =>
    simp only [hc, Option.some.injEq, Prod.mk.injEq] at detached
    obtain ⟨rfl, rfl⟩ := detached
    have first := sheds_erase hc
    have unlisted := keeps_modifyList { a with continuations := a.continuations.erase id.id }
      found.list (·.remove id)
    have gone : ∀ {b : Agenda}, Sheds 0 { a with continuations := a.continuations.erase id.id } b →
        b.bond? id = none := by
      intro b rest
      rcases rest.bond id with gone | kept
      · exact gone
      · rw [kept, bond?_eq_none, get?, Arena.get?_erase, if_pos rfl]
    cases found.parent with
    | none =>
      have last := unlisted.sheds.after (sheds_forget (gone unlisted.sheds) found.fiber)
      exact ⟨first.after last, gone last⟩
    | some parent =>
      have freed := unlisted.trans (keeps_modify
        (fun p => { p with children := p.children.filter (· ≠ id) })
        (fun _ => rfl) (fun _ => rfl) _ parent)
      have last := freed.sheds.after (sheds_forget (gone freed.sheds) found.fiber)
      exact ⟨first.after last, gone last⟩

/-- A continuation that is retired hands its reference back. -/
lemma sheds_retire (a : Agenda) (id : ContinuationId) :
    Sheds ((a.retire id).1.toList : List Ref) a (a.retire id).2 := by
  unfold retire
  cases detached : a.detach id with
  | none => exact .refl a
  | some result =>
    obtain ⟨c, b⟩ := result
    have freed : ∀ (children : List ContinuationId) (b : Agenda),
        Keeps b (children.foldl (fun b child => b.modify child ({ · with parent := none })) b) := by
      intro children
      induction children with
      | nil => exact .refl
      | cons child rest ih =>
        intro b
        exact (keeps_modify ({ · with parent := none }) (fun _ => rfl) (fun _ => rfl) b child).trans
          (ih _)
    exact (sheds_detach detached).1.after (freed c.children b).sheds

/-- A continuation that has fired is armed again, or retired with its reference handed back. -/
lemma sheds_rearmOrRetire {cell} (settled : a.rearmOrRetire id = .ok (cell, a')) :
    Sheds (cell.toList : List Ref) a a' := by
  unfold rearmOrRetire at settled
  cases hc : a.get? id with
  | none => simp [hc] at settled
  | some c =>
    simp only [hc] at settled
    split at settled
    case isTrue =>
      have retired := a.sheds_retire id
      rw [Except.ok.inj settled] at retired
      exact retired
    case isFalse =>
      cases settled
      have fiber : ∀ c, (rearmed c).fiber = c.fiber := by
        intro c
        unfold rearmed
        dsimp only
        split <;> split <;> rfl
      have cell : ∀ c, (rearmed c).cell = c.cell := by
        intro c
        unfold rearmed
        dsimp only
        split <;> split <;> rfl
      have set_eq : a.set id (rearmed c) = a.modify id rearmed := by
        rw [Agenda.modify, hc]
      rw [set_eq]
      exact ((keeps_modify rearmed fiber cell a id).trans (keeps_modifyList _ _ _)).sheds

/-! ## Cancelling -/

/-- What is cancelled hands its references back. -/
lemma sheds_cancelAll (fuel : Nat) (pending : List ContinuationId) (a : Agenda) :
    Sheds ((cancelAll fuel pending a).1 : List Ref) a (cancelAll fuel pending a).2 := by
  induction fuel generalizing pending a with
  | zero =>
    unfold cancelAll
    exact .refl a
  | succ fuel ih =>
    unfold cancelAll
    split
    case h_1 _ _ id rest _ _ =>
      cases detached : a.detach id with
      | none => exact .refl a
      | some result =>
        obtain ⟨c, b⟩ := result
        rename_i same _
        cases same
        exact (sheds_detach detached).1.trans (ih _ b)
    case h_2 => exact .refl a

lemma sheds_cancel (a : Agenda) (id : ContinuationId) :
    Sheds ((a.cancel id).1 : List Ref) a (a.cancel id).2 :=
  sheds_cancelAll a.size [id] a

/-- A continuation that is cancelled is gone. -/
lemma bond?_cancel (a : Agenda) (id : ContinuationId) : (a.cancel id).2.bond? id = none := by
  cases hc : a.get? id with
  | none =>
    rcases (a.sheds_cancel id).bond id with gone | kept
    · exact gone
    · exact kept.trans (bond?_eq_none.2 hc)
  | some c =>
    have present : id.id ∈ a.continuations.cells :=
      Std.TreeMap.mem_iff_isSome_getElem?.2 (Option.isSome_iff_exists.2 ⟨c, hc⟩)
    have counted : a.size ≠ 0 := by
      intro zero
      have empty := Std.TreeMap.isEmpty_eq_size_eq_zero (t := a.continuations.cells)
      rw [show a.continuations.cells.size = 0 from zero] at empty
      exact Std.TreeMap.not_mem_of_isEmpty empty present
    obtain ⟨fuel, size⟩ := Nat.exists_eq_succ_of_ne_zero counted
    cases detached : a.detach id with
    | none => simp [detach, hc] at detached
    | some result =>
      obtain ⟨c, b⟩ := result
      have step : a.cancel id =
          (c.cell :: (cancelAll fuel (c.children.reverse ++ []) b).1,
            (cancelAll fuel (c.children.reverse ++ []) b).2) := by
        have waits : [id].dropWhile (fun id => (a.get? id).isNone) = [id] := by simp [hc]
        rw [cancel, size]
        conv_lhs => unfold cancelAll
        rw [waits]
        simp only [detached]
      rw [step]
      rcases (sheds_cancelAll fuel (c.children.reverse ++ []) b).bond id with gone | kept
      · exact gone
      · exact kept.trans (sheds_detach detached).2

lemma sheds_cancelEach (ids : List ContinuationId) (a : Agenda) :
    Sheds ((cancelEach ids a).1 : List Ref) a (cancelEach ids a).2 := by
  induction ids generalizing a with
  | nil => exact .refl a
  | cons id rest ih =>
    have both := (a.sheds_cancel id).trans (ih (a.cancel id).2)
    rw [Multiset.coe_add] at both
    exact both

/-- What is cancelled in turn is not bound any more. -/
lemma bond?_cancelEach {ids} (listed : id ∈ ids) (a : Agenda) :
    (cancelEach ids a).2.bond? id = none := by
  induction ids generalizing a with
  | nil => cases listed
  | cons first rest ih =>
    rcases List.mem_cons.1 listed with rfl | later
    · rcases (sheds_cancelEach rest (a.cancel id).2).bond id with gone | kept
      · exact gone
      · exact kept.trans (a.bond?_cancel id)
    · exact ih later (a.cancel first).2

/-- Cancelling the continuations of a fiber hands back their references. -/
lemma sheds_cancelFiber (a : Agenda) (f : FiberId) :
    Sheds ((a.cancelFiber f).1 : List Ref) a (a.cancelFiber f).2 := by
  have each := sheds_cancelEach (a.ownedBy f) { a with owned := a.owned.erase f }
  refine ⟨each.next, each.bond, fun id g r hb known => ?_, each.cells⟩
  by_cases e : g = f
  · subst e
    rw [cancelFiber, bond?_cancelEach known] at hb
    cases hb
  · refine each.owned id g r hb ?_
    rw [ownedBy, Table.find?_erase, if_neg e]
    exact known

/-- After the continuations of a fiber were cancelled, none of them is left. -/
lemma bond?_cancelFiber (known : a.Indexed) (f : FiberId) (id : ContinuationId) (r : Ref) :
    (a.cancelFiber f).2.bond? id ≠ some (f, r) := by
  intro hb
  have before := (a.sheds_cancelFiber f).bond_of hb
  rw [cancelFiber, bond?_cancelEach (known id f r before)] at hb
  cases hb

/-! ## Handing out what is due -/

lemma sheds_takeReady (a : Agenda) (now : Binary64) : Sheds 0 a (a.takeReady now).2 :=
  (a.keeps_lists _ _).sheds

lemma sheds_addList (a : Agenda) (name : String) (list : WaitList) :
    Sheds 0 a (a.addList name list) :=
  (a.keeps_lists _ a.tick).sheds

/-- An event changes no bond. -/
lemma sheds_post {list event} (posted : a.post list event = .ok a') : Sheds 0 a a' := by
  unfold post at posted
  split at posted
  case h_1 => cases posted
  case h_2 =>
    split at posted
    case h_1 => cases posted
    case h_2 =>
      cases posted
      exact (keeps_modifyList a _ _).sheds

/-! ## Registering -/

/-- An agenda with one continuation more. -/
structure Gains (f : FiberId) (r : Ref) (a a' : Agenda) : Prop where
  next : a'.continuations.next = a.continuations.next + 1
  bond : ∀ id, a'.bond? id = if id.id = a.continuations.next then some (f, r) else a.bond? id
  indexed : a.Indexed → a'.Indexed
  cells : a'.cells = {r} + a.cells

lemma Gains.persists (x : Gains f r a a') : Persists a a' where
  next_le := by
    rw [x.next]
    exact Nat.le_succ _
  bond id issued := by
    rw [x.bond, if_neg (Nat.ne_of_lt issued)]
    exact .inr rfl

/-- A continuation that is added is bound and known to its fiber. -/
private lemma Gains.of_keeps {issued linked : Agenda} {id : ContinuationId}
    (new : id.id = a.continuations.next)
    (issue : issued = { a with continuations := a.continuations.insert c })
    (linking : Keeps issued linked) :
    Gains c.fiber c.cell a
      { linked with owned := linked.owned.insert c.fiber (linked.ownedBy c.fiber ++ [id]) } := by
  subst issue
  have bond : ∀ other, linked.bond? other =
      if other.id = a.continuations.next then some (c.fiber, c.cell) else a.bond? other := by
    intro other
    rw [linking.bond]
    simp only [bond?, get?, Arena.get?_insert]
    split <;> rfl
  refine ⟨linking.next, bond, fun known other g s hb => ?_, ?_⟩
  · have hb' : linked.bond? other = some (g, s) := hb
    have owned_eq : linked.ownedBy g = a.ownedBy g := by rw [ownedBy, linking.owned, ownedBy]
    have listed : other ∈ linked.ownedBy g ∨ other = id ∧ g = c.fiber := by
      rw [bond] at hb'
      split at hb'
      case isTrue e =>
        cases hb'
        exact .inr ⟨ContinuationId.eq_of_id_eq (e.trans new.symm), rfl⟩
      case isFalse => exact .inl (owned_eq ▸ known other g s hb')
    rw [ownedBy, Table.find?_insert]
    split
    case isTrue e =>
      subst e
      rcases listed with old | ⟨rfl, -⟩
      · exact List.mem_append_left _ old
      · exact List.mem_append_right _ List.mem_cons_self
    case isFalse e =>
      rcases listed with old | ⟨-, same⟩
      · exact old
      · exact absurd same e
  · change linked.cells = _
    rw [linking.cells]
    exact a.continuations.total_insert c _

/-- Registering adds a continuation that is bound to its fiber. -/
lemma gains_insert (a : Agenda) (c : Continuation) : Gains c.fiber c.cell a (a.insert c).2 := by
  unfold Agenda.insert
  have listing := keeps_modifyList { a with continuations := a.continuations.insert c } c.list
    (·.insert ⟨a.continuations.next⟩ c.wake)
  cases c.parent with
  | none => exact .of_keeps rfl rfl listing
  | some parent =>
    exact .of_keeps rfl rfl (listing.trans (keeps_modify
      (fun p => { p with children := p.children ++ [⟨a.continuations.next⟩] })
      (fun _ => rfl) (fun _ => rfl) _ parent))

lemma gains_registerAt (a : Agenda) (parent : Option ContinuationId) (f : FiberId) (r : Ref)
    (expiry : Binary64) (pc : Nat) (recurrence : Int64) (delta : Binary64) :
    Gains f r a (a.registerAt parent f r expiry pc recurrence delta).2 :=
  a.gains_insert ⟨f, r, parent, [], pc, .at expiry, recurrence, delta, timeName⟩

/-- A continuation that is registered is bound to its fiber. -/
lemma gains_register {parent condition pc now}
    (registered : a.register parent f r condition pc now = .ok (id, a')) :
    Gains f r a a' := by
  cases condition with
  | time delay recurrence interval =>
    have gained := a.gains_registerAt parent f r (now.add delay) pc recurrence interval
    rw [Except.ok.inj registered] at gained
    exact gained
  | event list discriminator recurrence =>
    simp only [register, registerOn] at registered
    split at registered
    case h_1 => cases registered
    case h_2 =>
      have gained := a.gains_insert ⟨f, r, parent, [], pc, .on discriminator, recurrence, .zero,
        list⟩
      rw [Except.ok.inj registered] at gained
      exact gained

/-- Registering is refused only if there is no list to wait on. -/
lemma register_error {parent condition pc now err}
    (refused : a.register parent f r condition pc now = .error err) :
    ∃ list, err = .unknownList list := by
  cases condition with
  | time => cases refused
  | event list =>
    simp only [register, registerOn] at refused
    split at refused
    case h_1 =>
      cases refused
      exact ⟨list, rfl⟩
    case h_2 => cases refused

/-! ## Calls -/

/-- A call takes continuations out or adds one. -/
private lemma Effect.sheds_or_gains {parent} (effect : Effect parent a a') :
    (∃ given, Sheds given a a') ∨ ∃ f r, Gains f r a a' := by
  cases effect with
  | refused => exact .inl ⟨0, .refl a⟩
  | inserted k => exact .inr ⟨k.fiber, k.cell, a.gains_insert k⟩
  | posted posted => exact .inl ⟨0, sheds_post posted⟩
  | taken now => exact .inl ⟨0, a.sheds_takeReady now⟩
  | settled settled => exact .inl ⟨_, sheds_rearmOrRetire settled⟩
  | cancelled id => exact .inl ⟨_, a.sheds_cancel id⟩
  | ended f => exact .inl ⟨_, a.sheds_cancelFiber f⟩
  | listed name => exact .inl ⟨0, a.sheds_addList name _⟩

lemma Effect.indexed {parent} (effect : Effect parent a a') (known : a.Indexed) :
    a'.Indexed := by
  obtain ⟨given, shed⟩ | ⟨f, r, gained⟩ := effect.sheds_or_gains
  · exact shed.indexed known
  · exact gained.indexed known

lemma Evolves.persists (evolved : Evolves a a') : Persists a a' := by
  induction evolved with
  | refl => exact .refl a
  | tail _ called ih =>
    obtain ⟨call, rfl⟩ := called
    obtain ⟨given, shed⟩ | ⟨f, r, gained⟩ := (call.effect _).sheds_or_gains
    · exact ih.trans shed.persists
    · exact ih.trans gained.persists

lemma Evolves.next_le (evolved : Evolves a a') : a.continuations.next ≤ a'.continuations.next :=
  evolved.persists.next_le

lemma Evolves.bond (evolved : Evolves a a') (id : ContinuationId)
    (issued : id.id < a.continuations.next) : a'.bond? id = none ∨ a'.bond? id = a.bond? id :=
  evolved.persists.bond id issued

/-- A continuation that is gone stays so. -/
lemma Evolves.gone (evolved : Evolves a a') (issued : id.id < a.continuations.next)
    (gone : a.bond? id = none) : a'.bond? id = none := by
  rcases evolved.bond id issued with gone' | kept
  · exact gone'
  · exact kept.trans gone

/-! ## The agenda at first -/

lemma continuations_ofLists (names : List String) : (ofLists names).continuations = .empty := by
  have kept : ∀ (names : List String) (a : Agenda),
      (names.foldl addListeners a).continuations = a.continuations := by
    intro names
    induction names with
    | nil => exact fun _ => rfl
    | cons name rest ih => exact fun a => ih (a.addListeners name)
  exact kept names (addTimeline {})

lemma bond?_ofLists (names : List String) (id : ContinuationId) :
    (ofLists names).bond? id = none := by
  rw [bond?_eq_none, get?, continuations_ofLists, Arena.get?_empty]

lemma cells_ofLists (names : List String) : (ofLists names).cells = 0 := by
  rw [cells, continuations_ofLists, Arena.total_empty]

lemma indexed_ofLists (names : List String) : (ofLists names).Indexed := by
  intro id f r hb
  rw [bond?_ofLists] at hb
  cases hb

end FiberVM.Agenda
