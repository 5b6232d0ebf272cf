import FiberVM.Proofs.Engine.Session
import FiberVM.Proofs.Image.Layout

/-!
# Literals

A literal is written as the pushes of its parts; an array is an argument list. Executing its code
leaves one reference on the stack, from which the literal is read back (`Literal.Held`). For each
part of the literal there is one new cell, and nothing else changes (`Literal.evaluates`).
-/

namespace FiberVM

/-- A value that can be written down. -/
inductive Literal where
  | nil
  | int (n : Int64)
  | real (x : Binary64)
  | string (s : String)
  | array (elements : List Literal)

namespace Literal

variable {h : Heap} {e : Literal} {refs : List Ref}

mutual

/-- The statements that push a literal. -/
def code : Literal → List Stmt
  | .nil => [.plain .pushNil]
  | .int n => [.int n]
  | .real x => [.real x]
  | .string s => [.text s]
  | .array elements => Stmt.params (codeAll elements)

/-- The statements that push literals one after the other. -/
def codeAll : List Literal → List Stmt
  | [] => []
  | e :: rest => e.code ++ codeAll rest

end

mutual

/-- How many parts a literal has, itself included. -/
def nodes : Literal → Nat
  | .nil | .int _ | .real _ | .string _ => 1
  | .array elements => nodesAll elements + 1

/-- How many parts literals have. -/
def nodesAll : List Literal → Nat
  | [] => 0
  | e :: rest => e.nodes + nodesAll rest

end

mutual

/-- How many instructions push a literal. -/
def steps : Literal → Nat
  | .nil | .int _ | .real _ | .string _ => 1
  | .array elements => 1 + (stepsAll elements + 1)

/-- How many instructions push literals. -/
def stepsAll : List Literal → Nat
  | [] => 0
  | e :: rest => e.steps + stepsAll rest

end

/-! ## Reading -/

mutual

/-- A literal is read from a reference. -/
inductive Held (h : Heap) : Literal → Ref → Prop
  | nil {r : Ref} (value : h.get? r = some .nil) : Held h .nil r
  | int {r n} (value : h.get? r = some (.int n)) : Held h (.int n) r
  | real {r x} (value : h.get? r = some (.real x)) : Held h (.real x) r
  | string {r s} (value : h.get? r = some (.string s)) : Held h (.string s) r
  | array {r elements refs} (value : h.get? r = some (.array refs))
      (held : HeldAll h elements refs.toList) :
      Held h (.array elements) r

/-- Literals are read from references, in their order. -/
inductive HeldAll (h : Heap) : List Literal → List Ref → Prop
  | nil : HeldAll h [] []
  | cons {e r rest refs} (first : Held h e r) (later : HeldAll h rest refs) :
      HeldAll h (e :: rest) (r :: refs)

end

mutual

/-- What is read from a reference is one literal. -/
lemma Held.unique : ∀ {e e' : Literal} {r : Ref}, Held h e r → Held h e' r → e = e'
  | _, _, _, .nil value, other => by cases other <;> simp_all
  | _, _, _, .int value, other => by cases other <;> simp_all
  | _, _, _, .real value, other => by cases other <;> simp_all
  | _, _, _, .string value, other => by cases other <;> simp_all
  | _, _, _, .array value held, other => by
    cases other with
    | array value' held' =>
      rw [value] at value'
      cases value'
      rw [held.unique held']
    | _ => simp_all

lemma HeldAll.unique :
    ∀ {es es' : List Literal} {refs : List Ref}, HeldAll h es refs → HeldAll h es' refs → es = es'
  | _, _, _, .nil, other => by
    cases other
    rfl
  | _, _, _, .cons first later, other => by
    cases other with
    | cons first' later' => rw [first.unique first', later.unique later']

end

end Literal

/-! ## New cells -/

namespace Heap

variable {h h' h'' : Heap} {m n : Nat} {r : Ref} {v : Value}

/-- So many unnamed cells were allocated, with one strong reference to each. All else is as it
was. -/
structure Adds (h : Heap) (n : Nat) (h' : Heap) : Prop where
  rest : { h' with cells := h.cells } = h
  next : h'.cells.next = h.cells.next + n
  size : h'.size = h.size + n
  old : ∀ r : Ref, r.id < h.cells.next → h'.cell? r = h.cell? r
  new : ∀ r : Ref, h.cells.next ≤ r.id → r.id < h.cells.next + n →
    ∃ v, h'.cell? r = some ⟨some v, .temporary, 1, 0⟩

lemma Adds.zero (h : Heap) : h.Adds 0 h :=
  ⟨rfl, rfl, rfl, fun _ _ => rfl, fun _ above below => absurd above (Nat.not_le.2 below)⟩

lemma Adds.trans (first : h.Adds m h') (later : h'.Adds n h'') : h.Adds (m + n) h'' := by
  have next := first.next
  constructor
  case rest =>
    rw [← first.rest, ← later.rest]
  case next => rw [later.next, next, Nat.add_assoc]
  case size => rw [later.size, first.size, Nat.add_assoc]
  case old =>
    intro r below
    rw [later.old r (by omega), first.old r below]
  case new =>
    intro r above below
    rcases Nat.lt_or_ge r.id h'.cells.next with early | late
    · rw [later.old r early]
      exact first.new r above (next ▸ early)
    · exact later.new r late (by omega)

/-- A cell that has a value keeps it. -/
lemma Adds.get? (adds : h.Adds n h') (held : h.get? r = some v) : h'.get? r = some v := by
  have issued : r.id < h.cells.next := by
    apply Nat.lt_of_not_le
    intro later
    rw [Heap.get?, cell?, h.cells.get?_of_next_le later] at held
    cases held
  rw [Heap.get?, adds.old r issued]
  exact held

/-- A heap with room for one more cell. -/
lemma alloc_adds (room : h.isFull = false) (v : Value) :
    ∃ h', allocTemporary v h = .ok ⟨h.cells.next⟩ h' ∧ h.Adds 1 h' ∧
      h'.get? ⟨h.cells.next⟩ = some v := by
  refine ⟨{ h with cells := h.cells.insert ⟨some v, .temporary, 1, 0⟩ }, ?_, ?_, ?_⟩
  · rw [allocTemporary, alloc, room]
    rfl
  · constructor
    case rest => rfl
    case next => rfl
    case size => exact Arena.size_insert _ _
    case old =>
      intro r below
      exact (Arena.get?_insert _ _ _).trans (if_neg (Nat.ne_of_lt below))
    case new =>
      intro r above below
      exact ⟨v, (Arena.get?_insert _ _ _).trans
        (if_pos (Nat.le_antisymm (Nat.le_of_lt_succ below) above))⟩
  · rw [Heap.get?, cell?, Arena.get?_insert, if_pos rfl]
    rfl

end Heap

namespace Literal

variable {h h' : Heap} {n : Nat}

mutual

/-- A literal is still read when there are more cells. -/
lemma Held.adds (more : h.Adds n h') : ∀ {e : Literal} {r : Ref}, Held h e r → Held h' e r
  | _, _, .nil value => .nil (more.get? value)
  | _, _, .int value => .int (more.get? value)
  | _, _, .real value => .real (more.get? value)
  | _, _, .string value => .string (more.get? value)
  | _, _, .array value held => .array (more.get? value) (held.adds more)

lemma HeldAll.adds (more : h.Adds n h') :
    ∀ {es : List Literal} {refs : List Ref}, HeldAll h es refs → HeldAll h' es refs
  | _, _, .nil => .nil
  | _, _, .cons first later => .cons (first.adds more) (later.adds more)

end

end Literal

/-! ## Runs that only push -/

namespace Engine

variable {e e' e'' : Engine} {id : FiberId} {f : Fiber} {cells cells' : Nat}
  {stack stack' : List (Option Ref)}

/-- A fiber has another stack, and so many cells were allocated. All else is as it was. -/
structure Restacks (e : Engine) (id : FiberId) (f : Fiber) (cells : Nat) (stack : List (Option Ref))
    (e' : Engine) :
    Prop where
  rest : { e' with heap := e.heap, fibers := e.fibers } = e
  fiber : e'.fiber? id = some { f with stack }
  others : ∀ id', id' ≠ id → e'.fiber? id' = e.fiber? id'
  heap : e.heap.Adds cells e'.heap

lemma Restacks.trans (first : e.Restacks id f cells stack e')
    (later : e'.Restacks id { f with stack } cells' stack' e'') :
    e.Restacks id f (cells + cells') stack' e'' := by
  constructor
  case rest => rw [← first.rest, ← later.rest]
  case fiber => exact later.fiber
  case others =>
    intro id' other
    rw [later.others id' other, first.others id' other]
  case heap => exact first.heap.trans later.heap

/-- A fiber gets another stack, and cells are added. -/
lemma restacks_setFiber {h} (present : e.fiber? id = some f) (heap : e.heap.Adds cells h) :
    e.Restacks id f cells stack (({ e with heap := h } : Engine).setFiber id { f with stack }) := by
  constructor
  case rest => rfl
  case fiber =>
    refine (Arena.get?_set _ _ _ _).trans (if_pos ⟨rfl, ?_⟩)
    exact Option.isSome_iff_exists.2 ⟨f, present⟩
  case others =>
    intro id' other
    refine (Arena.get?_set _ _ _ _).trans (if_neg fun same => ?_)
    exact other (congrArg FiberId.mk same.1)
  case heap => exact heap

private lemma orFault_of_some {α : Type} {x : α} {o : Option α} (found : o = some x)
    (fault : Fault) :
    EngineM.orFault o fault e = .ok x e := by
  rw [found]
  rfl

/-- A value is pushed in a new cell. -/
lemma pushValue_restacks (present : e.fiber? id = some f) (room : e.heap.isFull = false)
    (v : Value) :
    ∃ e' r, Operand.pushValue id v e = .ok () e' ∧ e.Restacks id f 1 (some r :: f.stack) e' ∧
      e'.heap.get? r = some v := by
  obtain ⟨h, allocated, adds, holds⟩ := Heap.alloc_adds room v
  refine ⟨_, ⟨e.heap.cells.next⟩, ?_, restacks_setFiber present adds, holds⟩
  have first : EngineM.onHeap (Heap.allocTemporary v) e =
      .ok ⟨e.heap.cells.next⟩ { e with heap := h } := by
    rw [EngineM.onHeap, allocated]
  have second : Operand.push id ⟨e.heap.cells.next⟩ { e with heap := h } = .ok ()
      (({ e with heap := h } : Engine).setFiber id
        { f with stack := some ⟨e.heap.cells.next⟩ :: f.stack }) := by
    rw [Operand.push]
    exact bind_of_ok (fiber_of_some present)
  rw [Operand.pushValue, bind_of_ok first, EngineM.onFault, second]

/-- A marker is pushed. -/
lemma openList_restacks (present : e.fiber? id = some f) :
    ∃ e', Operand.openList id e = .ok () e' ∧ e.Restacks id f 0 (none :: f.stack) e' := by
  refine ⟨_, ?_, restacks_setFiber present (.zero _)⟩
  rw [Operand.openList]
  exact bind_of_ok (fiber_of_some present)

/-- Above the latest marker there are references. -/
lemma stack_pushed (refs : List Ref) (below : List (Option Ref)) :
    (refs.reverse.map some ++ none :: below).dropWhile Option.isSome = none :: below ∧
      ((refs.reverse.map some ++ none :: below).takeWhile Option.isSome).filterMap (·) =
        refs.reverse := by
  have above : ∀ x ∈ refs.reverse.map some, x.isSome := by
    intro x there
    obtain ⟨r, -, rfl⟩ := List.mem_map.1 there
    rfl
  constructor
  · rw [List.dropWhile_append_of_pos above]
    rfl
  · rw [List.takeWhile_append_of_pos above]
    simp

/-- What was pushed after a marker is collected in the order in which it was pushed. -/
lemma closeList_restacks {refs : List Ref} {below} (present : e.fiber? id = some f)
    (room : e.heap.isFull = false) (pushed : f.stack = refs.reverse.map some ++ none :: below) :
    ∃ e' r, Operand.closeList id e = .ok () e' ∧ e.Restacks id f 1 (some r :: below) e' ∧
      e'.heap.get? r = some (.array refs.toArray) := by
  obtain ⟨dropped, taken⟩ := stack_pushed refs below
  have cleared : e.Restacks id f 0 below (e.setFiber id { f with stack := below }) :=
    restacks_setFiber present (.zero _)
  obtain ⟨e', r, run, collected, holds⟩ :=
    pushValue_restacks cleared.fiber room (.array refs.reverse.reverse.toArray)
  rw [List.reverse_reverse] at holds
  refine ⟨e', r, ?_, cleared.trans collected, holds⟩
  rw [Operand.closeList, bind_of_ok (fiber_of_some present), pushed, dropped, taken]
  exact run

/-- Where there is no room for an array, what was pushed after a marker is given up. -/
lemma closeList_of_full {refs : List Ref} {below} (present : e.fiber? id = some f)
    (full : e.heap.isFull = true) (pushed : f.stack = refs.reverse.map some ++ none :: below) :
    Operand.closeList id e = .error .heapExhausted
      (({ e with heap := e.heap.releaseValue (.array refs.toArray) } : Engine).setFiber id
        { f with stack := below }) := by
  obtain ⟨dropped, taken⟩ := stack_pushed refs below
  have full' : (e.setFiber id { f with stack := below }).heap.isFull = true := full
  have failed : Operand.pushValue id (.array refs.reverse.reverse.toArray)
      (e.setFiber id { f with stack := below }) = .error .heapExhausted
        (({ e with heap := e.heap.releaseValue (.array refs.toArray) } : Engine).setFiber id
        { f with stack := below }) := by
    rw [List.reverse_reverse, Operand.pushValue]
    refine bind_of_error ?_
    rw [EngineM.onHeap, Heap.allocTemporary, Heap.alloc, if_pos full']
    rfl
  rw [Operand.closeList, bind_of_ok (fiber_of_some present), pushed, dropped, taken]
  exact failed

end Engine

/-- Steps are taken one after the other. -/
lemma Progress.run_add (m n : Nat) (p : Progress) : p.run (m + n) = (p.run m).run n := by
  induction m generalizing p with
  | zero =>
    rw [Nat.zero_add]
    cases p <;> rfl
  | succ m ih =>
    rw [Nat.succ_add]
    cases p with
    | running t => exact ih t.next
    | awaiting | done => cases n <;> rfl

namespace Session

variable {s s' s'' : Session} {i : Image} {f : Fiber} {here m n words words' cells cells' : Nat}
  {stack stack' : List (Option Ref)}

/-- A session is about to execute the instruction at an address of an image. It may execute so many,
and there is no limit to the heap. -/
structure Ready (s : Session) (i : Image) (here n : Nat) (f : Fiber) : Prop where
  image : s.current.image = i
  next : s.current.next = here
  fiber : s.engine.fiber? s.current.fiber = some f
  unlimited : s.engine.heap.capacity = none
  budget : ∀ b ∈ s.current.budget, n ≤ b

/-- A session has executed so many instructions one after the other, and they have so many words.
The fiber has another stack, and so many cells were allocated. All else is as it was. -/
structure Computes (s : Session) (f : Fiber) (n words cells : Nat) (stack : List (Option Ref))
    (s' : Session) :
    Prop where
  run : Progress.run n (.running (.run s)) = .running (.run s')
  callers : s'.callers = s.callers
  current : s'.current = { s.current with
    pc := s'.current.pc
    next := s.current.next + words
    budget := s.current.budget.map (· - n) }
  engine : s.engine.Restacks s.current.fiber f cells stack s'.engine

lemma Computes.fiber_eq (computes : s.Computes f n words cells stack s') :
    s'.current.fiber = s.current.fiber := by
  rw [computes.current]

lemma Computes.refl (present : s.engine.fiber? s.current.fiber = some f) :
    s.Computes f 0 0 0 f.stack s := by
  refine ⟨rfl, rfl, ?_, rfl, present, fun _ _ => rfl, .zero _⟩
  simp

lemma Computes.trans (first : s.Computes f m words cells stack s')
    (later : s'.Computes { f with stack } n words' cells' stack' s'') :
    s.Computes f (m + n) (words + words') (cells + cells') stack' s'' := by
  constructor
  case run => rw [Progress.run_add, first.run, later.run]
  case callers => rw [later.callers, first.callers]
  case current =>
    rw [later.current, first.current]
    simp [Nat.add_assoc, Nat.sub_sub, Function.comp_def]
  case engine => exact first.engine.trans (first.fiber_eq ▸ later.engine)

/-- What is left of the instructions can be executed after some were. -/
lemma Ready.after (ready : s.Ready i here (m + n) f)
    (computes : s.Computes f m words cells stack s') :
    s'.Ready i (here + words) n { f with stack } := by
  constructor
  case image => rw [computes.current, ← ready.image]
  case next => rw [computes.current, ← ready.next]
  case fiber =>
    rw [computes.fiber_eq]
    exact computes.engine.fiber
  case unlimited => rw [← ready.unlimited, ← computes.engine.heap.rest]
  case budget =>
    rw [computes.current]
    intro b left
    obtain ⟨b', given, rfl⟩ := Option.map_eq_some_iff.1 left
    have enough := ready.budget b' given
    omega

/-- Where there is no limit there is room. -/
lemma Ready.room (ready : s.Ready i here n f) : s.engine.heap.isFull = false := by
  rw [Heap.isFull, ready.unlimited, Option.any_none]

/-- The instruction at the address is fetched. -/
lemma Ready.fetch {w op} (ready : s.Ready i here (n + 1) f) (word : i.words[here]? = some w)
    (code : w.opcode? = some op) :
    s.current.fetch = .ok (op, w.inline, s.current.budget.map (· - 1)) := by
  rw [Activation.fetch, ready.image, ready.next, word]
  dsimp only
  rw [code]
  cases budget : s.current.budget with
  | none => rfl
  | some b =>
    have enough := ready.budget b budget
    cases b with
    | zero => exact absurd enough (Nat.not_succ_le_zero n)
    | succ b => rfl

/-- An instruction that changes the stack and allocates cells, and goes on with the next one. -/
lemma Ready.computes {w op e} (ready : s.Ready i here (n + 1) f) (word : i.words[here]? = some w)
    (code : w.opcode? = some op)
    (executes : (s.executing (s.current.budget.map (· - 1))).execute op w.inline s.engine =
      .ok .advance e)
    (restacks : s.engine.Restacks s.current.fiber f cells stack e) :
    ∃ s', s.Computes f 1 op.width cells stack s' ∧ s'.engine = e := by
  have step := step_of_fetch (ready.fetch word code)
  rw [executes] at step
  exact ⟨_, ⟨step, rfl, rfl, restacks⟩, rfl⟩

/-- The operand word of the instruction at the address. -/
lemma Ready.operand {w : Word} {budget : Option Nat} (ready : s.Ready i here n f)
    (word : i.words[here + 1]? = some w) :
    (s.executing budget).operand s.engine = .ok w s.engine := by
  rw [← ready.image, ← ready.next] at word
  exact Engine.orFault_of_some word _

/-- The string with an index. -/
lemma Ready.string {k : Nat} {text : String} {budget : Option Nat} (ready : s.Ready i here n f)
    (small : k < Word.indexCount) (reads : i.strings.Reads k text) :
    (s.executing budget).string k s.engine = .ok text s.engine := by
  have found : s.current.image.string? k = some text :=
    ready.image ▸ Strings.get?_eq_some_iff.2 reads
  exact Engine.orFault_of_some ((if_pos small).trans found) _

/-- An instruction that pushes a value. -/
lemma Ready.push {w op v} (ready : s.Ready i here (n + 1) f) (word : i.words[here]? = some w)
    (code : w.opcode? = some op)
    (executes : ∀ e, Operand.pushValue s.current.fiber v s.engine = .ok () e →
      (s.executing (s.current.budget.map (· - 1))).execute op w.inline s.engine = .ok .advance e) :
    ∃ s' r, s.Computes f 1 op.width 1 (some r :: f.stack) s' ∧ s'.engine.heap.get? r = some v := by
  obtain ⟨e, r, pushed, restacks, holds⟩ := Engine.pushValue_restacks ready.fiber ready.room v
  obtain ⟨s', computes, rfl⟩ := ready.computes word code (executes e pushed) restacks
  exact ⟨s', r, computes, holds⟩

/-- An argument list is opened. -/
lemma Ready.openList {w} (ready : s.Ready i here (n + 1) f) (word : i.words[here]? = some w)
    (code : w.opcode? = some .paramsStart) : ∃ s', s.Computes f 1 1 0 (none :: f.stack) s' := by
  obtain ⟨e, opened, restacks⟩ := Engine.openList_restacks ready.fiber
  obtain ⟨s', computes, -⟩ := ready.computes word code (bind_of_ok opened) restacks
  exact ⟨s', computes⟩

/-- An argument list is closed. -/
lemma Ready.closeList {w} {refs : List Ref} (ready : s.Ready i here (n + 1) f)
    (word : i.words[here]? = some w) (code : w.opcode? = some .paramsEnd)
    (pushed : f.stack = refs.reverse.map some ++ none :: stack) :
    ∃ s' r, s.Computes f 1 1 1 (some r :: stack) s' ∧ s'.engine.heap.get? r = some
      (.array refs.toArray) := by
  obtain ⟨e, r, closed, restacks, holds⟩ := Engine.closeList_restacks ready.fiber ready.room pushed
  obtain ⟨s', computes, rfl⟩ := ready.computes word code (bind_of_ok closed) restacks
  exact ⟨s', r, computes, holds⟩

end Session

/-! ## Evaluating literals -/

section

variable {program before after : List Stmt} {i : Image} {target : String → Nat}

/-- The word of an operation without an operand. -/
lemma Layout.plain {o} (layout : Layout program i target)
    (split : program = before ++ .plain o :: after) :
    ∃ w, i.words[Stmt.codeSize before]? = some w ∧ w.opcode? = some o := by
  have word : i.words[Stmt.codeSize before]? = _ := layout.word split (k := 0) Nat.one_pos
  rw [word, Stmt.plain, Stmt.words, Word.encode?, if_pos (Nat.zero_le _), Nat.zero_mul,
    Nat.zero_add]
  exact ⟨_, rfl, (Word.plain_opcode o).1⟩

/-- The word of an operation on a string. -/
lemma Layout.string {o text} (layout : Layout program i target)
    (split : program = before ++ .string o text :: after) :
    ∃ w, i.words[Stmt.codeSize before]? = some w ∧ w.opcode? = some o ∧ w.inline < Word.indexCount ∧
      i.strings.Reads w.inline text := by
  have word : i.words[Stmt.codeSize before]? = _ := layout.word split (k := 0) Nat.one_pos
  have listed : .string o text ∈ program := split ▸ List.mem_append_right _ List.mem_cons_self
  have length : ((Stmt.string o text).words i.strings.index target).length = 1 :=
    (layout.fits _ listed).length
  obtain ⟨few, reads⟩ := layout.reads listed (List.mem_singleton.2 rfl)
  rw [Stmt.words] at word length
  cases encoded : Word.encode? o (i.strings.index text) with
  | none =>
    rw [encoded] at length
    cases length
  | some w =>
    obtain ⟨known, same⟩ := Word.encode?_eq_some encoded
    rw [encoded] at word
    exact ⟨w, word, known, same ▸ few, same ▸ reads⟩

namespace Literal

private lemma codeSize_plain {o} :
    Stmt.codeSize (before ++ [.plain o]) = Stmt.codeSize before + 1 := by
  rw [Stmt.codeSize_append]
  rfl

private lemma codeSize_params :
    Stmt.codeSize (Stmt.params program) = 1 + (Stmt.codeSize program + 1) := by
  rw [Stmt.params, codeSize_plain, Stmt.codeSize_cons, Nat.add_assoc]
  rfl

mutual

/-- The code of a literal pushes it. -/
lemma runs (layout : Layout program i target) :
    ∀ (e : Literal) {before after : List Stmt} {s : Session} {f : Fiber}
    {n : Nat}, program = before ++ (e.code ++ after) → s.Ready i (Stmt.codeSize before)
      (e.steps + n) f →
      ∃ s' r, s.Computes f e.steps (Stmt.codeSize e.code) e.nodes (some r :: f.stack) s' ∧
        e.Held s'.engine.heap r
  | .nil, before, after, s, f, n, split, ready => by
    rw [code] at split
    rw [steps, Nat.add_comm] at ready
    obtain ⟨w, word, known⟩ := layout.plain split
    obtain ⟨s', r, computes, holds⟩ := ready.push word known fun _ pushed => bind_of_ok pushed
    exact ⟨s', r, computes, .nil holds⟩
  | .int m, before, after, s, f, n, split, ready => by
    rw [code] at split
    rw [steps, Nat.add_comm] at ready
    have word : i.words[Stmt.codeSize before]? = some (Word.plain .pushInt) :=
      layout.word split (k := 0) Nat.two_pos
    have operand : i.words[Stmt.codeSize before + 1]? = some m.toUInt64 :=
      layout.word split (k := 1) Nat.one_lt_two
    obtain ⟨s', r, computes, holds⟩ := ready.push word (Word.plain_opcode _).1 fun _ pushed =>
      (bind_of_ok (ready.operand operand)).trans (bind_of_ok pushed)
    exact ⟨s', r, computes, .int holds⟩
  | .real x, before, after, s, f, n, split, ready => by
    rw [code] at split
    rw [steps, Nat.add_comm] at ready
    have word : i.words[Stmt.codeSize before]? = some (Word.plain .pushReal) :=
      layout.word split (k := 0) Nat.two_pos
    have operand : i.words[Stmt.codeSize before + 1]? = some x.bits :=
      layout.word split (k := 1) Nat.one_lt_two
    obtain ⟨s', r, computes, holds⟩ := ready.push word (Word.plain_opcode _).1 fun _ pushed =>
      (bind_of_ok (ready.operand operand)).trans (bind_of_ok pushed)
    exact ⟨s', r, computes, .real holds⟩
  | .string text, before, after, s, f, n, split, ready => by
    rw [code] at split
    rw [steps, Nat.add_comm] at ready
    obtain ⟨w, word, known, few, reads⟩ := layout.string split
    obtain ⟨s', r, computes, holds⟩ := ready.push word known fun _ pushed =>
      (bind_of_ok (ready.string few reads)).trans (bind_of_ok pushed)
    exact ⟨s', r, computes, .string holds⟩
  | .array elements, before, after, s, f, n, split, ready => by
    rw [code, Stmt.params] at split
    rw [steps, Nat.add_assoc, Nat.add_assoc] at ready
    -- the marker, the elements and the end of the list, each with what stands before it
    have first : program =
        before ++ .plain .paramsStart :: (codeAll elements ++ .plain .paramsEnd :: after) := by
      simp [split]
    have inside : program =
        (before ++ [.plain .paramsStart]) ++ (codeAll elements ++ .plain .paramsEnd :: after) := by
      simp [split]
    have last : program =
        (before ++ [.plain .paramsStart] ++ codeAll elements) ++ .plain .paramsEnd :: after := by
      simp [split]
    obtain ⟨w, word, known⟩ := layout.plain first
    obtain ⟨s₁, opens⟩ := (Nat.add_comm 1 _ ▸ ready).openList word known
    have ready₁ := ready.after opens
    rw [← codeSize_plain] at ready₁
    obtain ⟨s₂, refs, pushes, held⟩ := runsAll layout elements inside ready₁
    have ready₂ := ready₁.after pushes
    rw [← Stmt.codeSize_append, Nat.add_comm] at ready₂
    obtain ⟨w', word', known'⟩ := layout.plain last
    obtain ⟨s₃, r, closes, holds⟩ := ready₂.closeList word' known' rfl
    refine ⟨s₃, r, ?_, .array holds (held.adds closes.engine.heap)⟩
    have whole := opens.trans (pushes.trans closes)
    rw [Nat.zero_add] at whole
    rwa [steps, code, nodes, codeSize_params]

/-- The code of literals pushes them one after the other. -/
lemma runsAll (layout : Layout program i target) :
    ∀ (es : List Literal) {before after : List Stmt} {s : Session}
    {f : Fiber} {n : Nat}, program = before ++ (codeAll es ++ after) →
      s.Ready i (Stmt.codeSize before) (stepsAll es + n) f →
      ∃ s' refs, s.Computes f (stepsAll es) (Stmt.codeSize (codeAll es)) (nodesAll es)
          (refs.reverse.map some ++ f.stack) s' ∧ HeldAll s'.engine.heap es refs
  | [], before, after, s, f, n, split, ready => ⟨s, [], .refl ready.fiber, .nil⟩
  | e :: es, before, after, s, f, n, split, ready => by
    rw [codeAll, List.append_assoc] at split
    rw [stepsAll, Nat.add_assoc] at ready
    obtain ⟨s₁, r, pushes, held⟩ := runs layout e split ready
    have split' : program = (before ++ e.code) ++ (codeAll es ++ after) := by
      rw [split, List.append_assoc]
    have ready₁ := ready.after pushes
    rw [← Stmt.codeSize_append] at ready₁
    obtain ⟨s₂, refs, pushes', held'⟩ := runsAll layout es split' ready₁
    refine ⟨s₂, r :: refs, ?_, .cons (held.adds pushes'.engine.heap) held'⟩
    have whole := pushes.trans pushes'
    rw [← Stmt.codeSize_append] at whole
    simpa [codeAll, stepsAll, nodesAll] using whole

end

mutual

/-- The code of a literal has no labels and no jumps. -/
lemma code_pushes : ∀ (e : Literal) {s : Stmt}, s ∈ e.code →
    (∃ o, s = .plain o) ∨ (∃ n, s = .int n) ∨ (∃ x, s = .real x) ∨ ∃ text, s = .text text
  | .nil, _, listed => .inl ⟨_, List.mem_singleton.1 listed⟩
  | .int _, _, listed => .inr (.inl ⟨_, List.mem_singleton.1 listed⟩)
  | .real _, _, listed => .inr (.inr (.inl ⟨_, List.mem_singleton.1 listed⟩))
  | .string _, _, listed => .inr (.inr (.inr ⟨_, List.mem_singleton.1 listed⟩))
  | .array elements, s, listed => by
    rw [code, Stmt.params] at listed
    rcases List.mem_append.1 listed with early | last
    · rcases List.mem_cons.1 early with first | inside
      · exact .inl ⟨_, first⟩
      · exact codeAll_pushes elements inside
    · exact .inl ⟨_, List.mem_singleton.1 last⟩

lemma codeAll_pushes : ∀ (es : List Literal) {s : Stmt}, s ∈ codeAll es →
    (∃ o, s = .plain o) ∨ (∃ n, s = .int n) ∨ (∃ x, s = .real x) ∨ ∃ text, s = .text text
  | [], _, listed => absurd listed List.not_mem_nil
  | e :: es, s, listed => by
    rw [codeAll] at listed
    rcases List.mem_append.1 listed with first | later
    · exact code_pushes e first
    · exact codeAll_pushes es later

end

/-- The code of a literal can be assembled if there is room for its strings. -/
lemma assemblable {e : Literal} (zero : ∀ s ∈ e.code, ∀ text ∈ s.texts, Char.ofNat 0 ∉ text.toList)
    (room : (e.code.map Stmt.bytes).sum < Word.indexCount) : Assemblable e.code := by
  refine ⟨zero, room, fun op n listed => ?_, fun test label listed => ?_, ?_,
    fun s listed label jumps => ?_⟩
  · rcases code_pushes e listed with ⟨o, same⟩ | ⟨n, same⟩ | ⟨x, same⟩ | ⟨text, same⟩ <;> cases same
    exact Nat.zero_le _
  · rcases code_pushes e listed with ⟨o, same⟩ | ⟨n, same⟩ | ⟨x, same⟩ | ⟨text, same⟩ <;> cases same
  · rw [List.filterMap_eq_nil_iff.2]
    · exact List.nodup_nil
    · intro s listed
      rcases code_pushes e listed with ⟨o, rfl⟩ | ⟨n, rfl⟩ | ⟨x, rfl⟩ | ⟨text, rfl⟩ <;> rfl
  · rcases code_pushes e listed with ⟨o, rfl⟩ | ⟨n, rfl⟩ | ⟨x, rfl⟩ | ⟨text, rfl⟩ <;> cases jumps

/-- The code of a literal can be assembled. Wherever it stands in a program, it pushes one
reference, from which that literal is read and no other. -/
theorem evaluates (name : String) (e : Literal) :
    ((∀ s ∈ e.code, ∀ text ∈ s.texts, Char.ofNat 0 ∉ text.toList) → (e.code.map Stmt.bytes).sum <
      Word.indexCount →
        ∃ i notes, assemble name e.code = .ok (i, notes)) ∧
      ∀ (before after : List Stmt) (i : Image) (notes : List Nat) (s : Session) (f : Fiber),
        assemble name (before ++ (e.code ++ after)) = .ok (i, notes) →
        s.Ready i (Stmt.codeSize before) e.steps f →
        ∃ s' r, s.Computes f e.steps (Stmt.codeSize e.code) e.nodes (some r :: f.stack) s' ∧
          ∀ e' : Literal, e'.Held s'.engine.heap r ↔ e' = e := by
  refine ⟨fun zero room => (assemblable zero room).assemble name,
    fun before after i notes s f assembled ready => ?_⟩
  obtain ⟨-, target, layout⟩ := exists_layout assembled
  obtain ⟨s', r, computes, held⟩ := runs layout e rfl (n := 0) ready
  exact ⟨s', r, computes, fun e' => ⟨fun other => other.unique held, fun same => same ▸ held⟩⟩

/-- Numbers of both kinds, a string, nil, and arrays in an array. -/
private def mixture : Literal :=
  .array [.int 7, .array [.string "a", .nil], .real ⟨0x8000000000000000⟩, .array []]

private def mixtureImage : Image where
  name := "mixture"
  words := #[14, 2, 7, 14, 65540, 1, 15, 3, 9223372036854775808, 14, 15, 15, 37]
  states := [⟨0, 0⟩]
  locals := []
  shared := []
  strings := ⟨#[103, 111, 0, 97, 0], #[0, 3]⟩

private def mixtureFiber : Fiber where
  machine := "mixture"
  image := mixtureImage
  stack := [none, some ⟨3⟩]

/-- A fiber with a stack, and as many instructions left as the literal needs. -/
private def mixtureSession : Session where
  engine := { Engine.create (fun _ => none) {} with fibers := Arena.empty.insert mixtureFiber }
  current :=
    { fiber := ⟨0⟩, machine := "mixture", image := mixtureImage, cell := ⟨0⟩, continuation := none
      frame := [], loops := [], base := 0, budget := some 10, pc := 0, next := 0 }
  callers := .resume

/-- A literal of nested lists is computed. -/
theorem mixture_evaluates : (∃ i notes, assemble "mixture" mixture.code = .ok (i, notes)) ∧
    assemble "mixture" ([.state "go"] ++ (mixture.code ++ [.plain .endState])) = .ok
      (mixtureImage, [0]) ∧
    mixtureSession.Ready mixtureImage 0 10 mixtureFiber ∧
    ∃ s' r, mixtureSession.Computes mixtureFiber 10 12 7 [some r, none, some ⟨3⟩] s' ∧
      ∀ e' : Literal, e'.Held s'.engine.heap r ↔ e' = mixture := by
  have assembled : assemble "mixture" ([.state "go"] ++ (mixture.code ++ [.plain .endState])) =
    .ok (mixtureImage, [0]) := by decide +kernel
  have present : mixtureSession.engine.fiber? mixtureSession.current.fiber = some mixtureFiber :=
    (Arena.get?_insert _ _ _).trans (if_pos rfl)
  have ready : mixtureSession.Ready mixtureImage 0 10 mixtureFiber := by
    refine ⟨rfl, rfl, present, rfl, fun b given => ?_⟩
    cases given
    exact Nat.le_refl 10
  obtain ⟨emits, runs⟩ := evaluates "mixture" mixture
  have emitted := emits (by decide) (by decide)
  exact ⟨emitted, assembled, ready, runs [.state "go"] [.plain .endState] _ _ _ _ assembled ready⟩

end Literal

end

end FiberVM
