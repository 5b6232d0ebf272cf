import FiberVM.Proofs.Engine.Stack

/-!
# Loops

A loop goes on with one element after the other (`Activation.Iterates`), and the element is the
frame while its body runs. The elements are those that a value has when the loop begins
(`Value.Visits`). A loop that is left gives up the element and the elements that are left, after the
loops inside of it have done so, and what remains is the run as it was outside of the loop
(`Activation.Within`).
-/

namespace FiberVM

open Engine

variable {e e' : Engine} {a : Activation} {l : Loop} {inner outer : List Loop} {r r' : Ref}
  {v : Value} {heap heap' : Heap} {rest rest' : Generator} {done : List Ref}

/-! ## Leaving loops -/

namespace Activation

/-- The frame outside of loops. -/
def frameOutside : List Loop → List Ref → List Ref
  | [], frame => frame
  | l :: loops, _ => frameOutside loops l.outer

lemma unwindLoops_fst (loops : List Loop) (frame : List Ref) (e : Engine) :
    (unwindLoops loops frame e).1 = frameOutside loops frame := by
  induction loops generalizing frame e with
  | nil => rfl
  | cons l loops ih => exact ih l.outer _

/-- Loops are left from the inside to the outside. -/
lemma unwindLoops_append (inner loops : List Loop) (frame : List Ref) (e : Engine) :
    unwindLoops (inner ++ loops) frame e =
      unwindLoops loops (frameOutside inner frame) (unwindLoops inner frame e).2 := by
  induction inner generalizing frame e with
  | nil => rfl
  | cons l inner ih => exact ih l.outer _

/-- Leaving loops changes nothing but the heap. -/
lemma unwindLoops_snd (loops : List Loop) (frame : List Ref) (e : Engine) :
    ∃ heap, (unwindLoops loops frame e).2 = { e with heap } := by
  induction loops generalizing frame e with
  | nil => exact ⟨e.heap, rfl⟩
  | cons l loops ih =>
    obtain ⟨heap, unwound⟩ := ih l.outer ((e.releaseAll frame).releaseAll l.rest.refs)
    exact ⟨heap, unwound⟩

/-- A run is in the body of a loop for an element, perhaps in further loops inside of it. -/
structure Within (a : Activation) (l : Loop) (r : Ref) (outer inner : List Loop) : Prop where
  loops : a.loops = inner ++ l :: outer
  frame : frameOutside inner a.frame = [r]

/-- The run outside of a loop. -/
def outside (a : Activation) (l : Loop) (outer : List Loop) : Activation :=
  { a with frame := l.outer, loops := outer }

end Activation

/-- The engine after a loop was left in the body for an element: the loops inside of it have given
up what they hold, then the element was given up, and then those that are left. -/
def Loop.leave (l : Loop) (r : Ref) (inner : List Loop) (frame : List Ref) (e : Engine) : Engine :=
  ((Activation.unwindLoops inner frame e).2.release r).releaseAll l.rest.refs

namespace Activation.Within

lemma unwindLoops (within : a.Within l r outer inner) (e : Engine) :
    unwindLoops a.loops a.frame e = Activation.unwindLoops outer l.outer
      (l.leave r inner a.frame e) := by
  rw [within.loops, unwindLoops_append, within.frame]
  rfl

/-- A run that ends in a loop ends as if the loop had been left before. -/
lemma finish (within : a.Within l r outer inner) (e : Engine) :
    a.finish e = (a.outside l outer).finish (l.leave r inner a.frame e) := by
  rw [Activation.finish, within.unwindLoops]
  rfl

/-- All loops are left as if the loop had been left before. -/
lemma leaveLoops (within : a.Within l r outer inner) (e : Engine) :
    a.leaveLoops e = (a.outside l outer).leaveLoops (l.leave r inner a.frame e) := by
  rw [Activation.leaveLoops, within.unwindLoops]
  rfl

/-- In the body of a loop a run holds a reference to the element and to each one that is left,
besides what it holds outside of the loop. -/
lemma refs_le (within : a.Within l r outer inner) :
    (a.outside l outer).refs + ({r} + (l.rest.refs : Multiset Ref)) ≤ a.refs := by
  have bound : ∀ frame : List Ref, frameOutside inner frame = [r] →
      (l.outer + loopRefs outer) + ({r} + (l.rest.refs : Multiset Ref)) ≤
        frame + loopRefs (inner ++ l :: outer) := by
    clear within
    induction inner with
    | nil =>
      rintro frame rfl
      refine le_of_eq ?_
      rw [List.nil_append, loopRefs_cons, Loop.refs, Multiset.coe_singleton]
      abel
    | cons l₁ inner ih =>
      intro frame outermost
      calc (l.outer + loopRefs outer) + ({r} + (l.rest.refs : Multiset Ref))
          ≤ l₁.outer + loopRefs (inner ++ l :: outer) := ih l₁.outer outermost
        _ ≤ (frame + l₁.rest.refs) + (l₁.outer + loopRefs (inner ++ l :: outer)) :=
          Multiset.le_add_left _ _
        _ = frame + loopRefs (l₁ :: inner ++ l :: outer) := by
          rw [List.cons_append, loopRefs_cons, Loop.refs]
          abel
  rw [Activation.refs, Activation.refs, within.loops, add_assoc]
  exact add_le_add_right (bound a.frame within.frame) _

end Activation.Within

/-! ## Elements -/

namespace Generator

/-- The number of elements that are left. -/
def size : Generator → Nat
  | elements refs => refs.length
  | count next limit => limit - next

/-- The next element is taken from those that are left. A number is put into a new cell. -/
inductive Yields (e : Engine) : Generator → Ref → Generator → Engine → Prop
  | element {r refs} : Yields e (.elements (r :: refs)) r (.elements refs) e
  | number {next limit : Nat} {r} {heap : Heap} (more : next < limit)
      (made : Heap.allocTemporary (.int (Int64.ofNat next)) e.heap = .ok r heap) :
    Yields e (.count next limit) r (.count (next + 1) limit) { e with heap }

/-- A loop cannot go on, and all elements that are left are given up, with the cell for a number if
there is one. -/
inductive Stops (e : Engine) : Generator → Engine → Prop
  | elements (refs : List Ref) : Stops e (.elements refs) (e.releaseAll refs)
  | full {next limit : Nat} {fault} {heap : Heap}
      (full : Heap.allocTemporary (.int (Int64.ofNat next)) e.heap = .error fault heap) :
    Stops e (.count next limit) { e with heap }
  | number {next limit : Nat} {r} {heap : Heap}
      (made : Heap.allocTemporary (.int (Int64.ofNat next)) e.heap = .ok r heap) :
    Stops e (.count next limit) (({ e with heap } : Engine).release r)

end Generator

namespace Activation

/-- What going on with a loop comes to. -/
inductive Iterates (a : Activation) (l : Loop) (e : Engine) :
    EStateM.Result Fault Engine Activation → Prop
  | past (exhausted : l.rest.size = 0) : Iterates a l e (.ok { a with next := l.exit } e)
  /-- The body begins for the next element. -/
  | body {r : Ref} {rest : Generator} {e' : Engine} (yields : l.rest.Yields e r rest e') :
    Iterates a l e
      (.ok { a with frame := [r], loops := { l with rest } :: a.loops, next := l.body } e')
  /-- There is no room for a number, or loops and launches are nested too deep. -/
  | stuck {fault : Fault} {e'} (left : l.rest.size ≠ 0) (stops : l.rest.Stops e e') :
    Iterates a l e (.error fault e')

/-- A loop without elements is passed over. -/
lemma iterate_of_exhausted (exhausted : l.rest.size = 0) :
    a.iterate l e = .ok { a with next := l.exit } e := by
  unfold iterate
  cases elements : l.rest with
  | elements refs =>
    rw [elements] at exhausted
    cases List.eq_nil_of_length_eq_zero exhausted
    rfl
  | count next limit =>
    rw [elements] at exhausted
    have done : ¬ next < limit := (Nat.le_of_sub_eq_zero exhausted).not_gt
    dsimp only
    rw [if_neg done]
    rfl

/-- A loop with another element begins with its body, unless it is nested too deep. -/
lemma iterate_of_yields (yields : l.rest.Yields e r rest e') :
    a.iterate l e =
      if e'.config.maxDepth ≤ a.depth then
        .error .stackOverflow ((e'.release r).releaseAll rest.refs)
      else .ok { a with frame := [r], loops := { l with rest } :: a.loops, next := l.body } e' := by
  -- however the element was obtained, the depth is checked before the body is entered
  have enter : (do
      if (← get).config.maxDepth ≤ a.depth then
        modify fun e => (e.release r).releaseAll rest.refs
        throw .stackOverflow
      return { a with frame := [r], loops := { l with rest } :: a.loops, next := l.body } :
        EngineM Activation) e' =
      if e'.config.maxDepth ≤ a.depth then
        .error .stackOverflow ((e'.release r).releaseAll rest.refs)
      else .ok { a with frame := [r], loops := { l with rest } :: a.loops, next := l.body } e' := by
    have seen : (get : EngineM Engine) e' = .ok e' e' := rfl
    rw [bind_of_ok seen]
    by_cases deep : e'.config.maxDepth ≤ a.depth
    · rw [if_pos deep, if_pos deep]
      rfl
    · rw [if_neg deep, if_neg deep]
      rfl
  rw [← enter]
  unfold iterate
  generalize l.rest = elements at yields
  cases yields with
  | element => rfl
  | @number next limit r heap more made =>
    have counted : EngineM.onHeap (Heap.allocTemporary (.int (Int64.ofNat next))) e =
        .ok r { e with heap } := by
      rw [EngineM.onHeap, made]
    dsimp only
    rw [if_pos more, bind_of_ok counted]

/-- A loop over numbers fails where there is no room for the next one. -/
lemma iterate_of_full {next limit fault} (counts : l.rest = .count next limit) (more : next < limit)
    (full : Heap.allocTemporary (.int (Int64.ofNat next)) e.heap = .error fault heap) :
    a.iterate l e = .error fault { e with heap } := by
  have counted : EngineM.onHeap (Heap.allocTemporary (.int (Int64.ofNat next))) e =
      .error fault { e with heap } := by
    rw [EngineM.onHeap, full]
  unfold iterate
  rw [counts]
  dsimp only
  rw [if_pos more, bind_of_error counted]

/-- Going on with a loop comes to one of these. -/
lemma iterates (a : Activation) (l : Loop) (e : Engine) : a.Iterates l e (a.iterate l e) := by
  have enter : ∀ {r : Ref} {rest : Generator} {e' : Engine}, l.rest.Yields e r rest e' →
      l.rest.size ≠ 0 → l.rest.Stops e ((e'.release r).releaseAll rest.refs) →
      a.Iterates l e (a.iterate l e) := by
    intro r rest e' yields left stops
    rw [iterate_of_yields yields]
    split
    · exact .stuck left stops
    · exact .body yields
  by_cases exhausted : l.rest.size = 0
  · rw [iterate_of_exhausted exhausted]
    exact .past exhausted
  · cases elements : l.rest with
    | elements refs =>
      cases refs with
      | nil => exact absurd (congrArg Generator.size elements) exhausted
      | cons r refs =>
        have yields : l.rest.Yields e r (.elements refs) e := elements ▸ .element
        exact enter yields exhausted (elements ▸ .elements (r :: refs))
    | count next limit =>
      have more : next < limit := by
        by_contra done
        exact exhausted (elements ▸ Nat.sub_eq_zero_of_le (Nat.le_of_not_lt done))
      cases made : Heap.allocTemporary (.int (Int64.ofNat next)) e.heap with
      | ok r heap =>
        have yields : l.rest.Yields e r (.count (next + 1) limit) { e with heap } :=
          elements ▸ .number more made
        exact enter yields exhausted (elements ▸ .number made)
      | error fault heap =>
        rw [iterate_of_full elements more made]
        exact .stuck exhausted (elements ▸ .full made)

end Activation

/-! ## What is looped over -/

namespace Value

/-- The number of elements that are looped over. -/
def loopSize : Value → Nat
  | array refs => refs.size
  | int n => n.toInt.toNat
  | _ => 0

/-- Where a value is looped over, some of its elements are done, another one is visited, and the
others are left. The elements of an array are its cells, and those of an integer are the numbers
below it, from zero on. -/
def Visits (heap : Heap) (done : List Ref) (r : Ref) (rest : Generator) : Value → Prop
  | array refs => ∃ left, refs.toList = done ++ r :: left ∧ rest = .elements left
  | int n => done.length < n.toInt ∧ rest = .count (done.length + 1) n.toInt.toNat ∧
      ∃ i : Int64, heap.get? r = some (.int i) ∧ i.toInt = done.length
  | _ => False

/-- All elements are done, or some are left. -/
lemma Visits.size (visits : v.Visits heap done r rest) :
    done.length + 1 + rest.size = v.loopSize := by
  cases v with
  | array refs =>
    obtain ⟨left, whole, rfl⟩ := visits
    rw [loopSize, ← Array.length_toList, whole, List.length_append, List.length_cons,
      Generator.size]
    omega
  | int n =>
    obtain ⟨more, rfl, -⟩ := visits
    rw [loopSize, Generator.size]
    omega
  | _ => exact visits.elim

end Value

/-- A new cell holds the value that it was made for. -/
lemma Heap.get?_of_allocTemporary (made : Heap.allocTemporary v heap = .ok r heap') :
    heap'.get? r = some v := by
  rw [allocTemporary, alloc] at made
  split at made
  · cases made
  · cases made
    rw [Heap.get?, cell?, Arena.get?_insert, if_pos rfl]
    rfl

/-- A number below an integer fits. -/
private lemma toInt_ofNat {n : Int64} {k : Nat} (below : k < n.toInt) :
    (Int64.ofNat k).toInt = k := by
  have small := n.toInt_lt
  rw [Int64.toInt_ofNat_of_lt]
  omega

namespace Value

/-- What is looped over are the elements that a value has, and a reference is taken to each. -/
lemma generator_ok {elements} (generates : Activation.generator v heap = .ok elements heap') :
    (∃ refs, v = .array refs ∧ Heap.retainAll [] refs.toList heap = .ok () heap' ∧
      elements = .elements refs.toList) ∨
      ∃ n, v = .int n ∧ heap' = heap ∧ elements = .count 0 n.toInt.toNat := by
  cases v with
  | array refs =>
    obtain ⟨_, h, retained, made⟩ := ok_of_bind generates
    cases made
    exact .inl ⟨refs, rfl, retained, rfl⟩
  | int n =>
    cases generates
    exact .inr ⟨n, rfl, rfl, rfl⟩
  | _ => cases generates

lemma size_of_generator {elements} (generates : Activation.generator v heap = .ok elements heap') :
    elements.size = v.loopSize := by
  rcases generator_ok generates with ⟨refs, rfl, -, rfl⟩ | ⟨n, rfl, -, rfl⟩
  · exact Array.length_toList
  · exact Nat.sub_zero _

/-- A loop begins with the first element. -/
lemma visits_first {elements} (generates : Activation.generator v heap = .ok elements heap')
    (yields : elements.Yields e r rest e') : v.Visits e'.heap [] r rest := by
  rcases generator_ok generates with ⟨refs, rfl, -, rfl⟩ | ⟨n, rfl, -, rfl⟩
  · generalize whole : refs.toList = list at yields
    cases yields with
    | element => exact ⟨_, whole, rfl⟩
  · cases yields with
    | number more made =>
      have below : ((0 : Nat) : Int) < n.toInt := by omega
      exact ⟨below, rfl, _, Heap.get?_of_allocTemporary made, toInt_ofNat below⟩

/-- A loop goes on with the element after the one that was visited. -/
lemma Visits.next (visits : v.Visits heap done r rest) (yields : rest.Yields e r' rest' e') :
    v.Visits e'.heap (done ++ [r]) r' rest' := by
  cases v with
  | array refs =>
    obtain ⟨left, whole, rfl⟩ := visits
    cases yields with
    | element => exact ⟨_, by rw [whole, List.append_assoc]; rfl, rfl⟩
  | int n =>
    obtain ⟨-, rfl, -⟩ := visits
    have counted : (done ++ [r]).length = done.length + 1 := List.length_append
    rw [Visits, counted]
    cases yields with
    | number more made =>
      have below : ((done.length + 1 : Nat) : Int) < n.toInt := by omega
      exact ⟨below, rfl, _, Heap.get?_of_allocTemporary made, toInt_ofNat below⟩
  | _ => exact visits.elim

end Value

namespace Activation

/-- A value is popped to be looped over. A reference is taken to each of its elements, and the one
to the value itself is given up. -/
inductive LoopsOver (a : Activation) (e : Engine) : Value → Generator → Nat → Engine → Prop
  | intro {x r stack v elements heap word} (found : e.fiber? a.fiber = some x)
      (top : x.stack = some r :: stack) (holds : e.heap.get? r = some v)
      (generates : generator v e.heap = .ok elements heap)
      (operand : a.image.words[a.pc + 1]? = some word) :
    LoopsOver a e v elements word.toNat
      ((({ e with heap } : Engine).setFiber a.fiber { x with stack }).release r)

/-- The value is that of the cell on top of the stack. -/
lemma LoopsOver.generates {elements exit} (loopsOver : a.LoopsOver e v elements exit e') :
    ∃ x r stack heap, e.fiber? a.fiber = some x ∧ x.stack = some r :: stack ∧
      e.heap.get? r = some v ∧ generator v e.heap = .ok elements heap := by
  cases loopsOver with
  | intro found top holds generates => exact ⟨_, _, _, _, found, top, holds, generates⟩

/-- A loop instruction loops over the value on top of the stack. -/
lemma loopsOver_of_forEach {inline control}
    (executed : a.execute .forEach inline e = .ok control e') :
    ∃ v elements exit, control = .loop elements exit ∧ a.LoopsOver e v elements exit e' := by
  obtain ⟨exit, e₁, addressing, looping⟩ := ok_of_bind executed
  obtain ⟨word, e₂, fetching, addressed⟩ := ok_of_bind addressing
  cases addressed
  obtain ⟨operand, rfl⟩ := orFault_ok fetching
  obtain ⟨elements, e₃, taking, looped⟩ := ok_of_bind looping
  cases looped
  obtain ⟨r, e₄, popped, ensured⟩ := ok_of_bind taking
  obtain ⟨x, stack, found, top, rfl⟩ := Operand.pop_ok popped
  obtain ⟨e₅, making, rfl⟩ := ensure_ok ensured
  obtain ⟨heap, made, rfl⟩ := onHeap_ok making
  obtain ⟨v, heap', read, generates⟩ := ok_of_bind made
  obtain ⟨holds, rfl⟩ := Heap.read_ok read
  exact ⟨v, elements, word.toNat, rfl, .intro found top holds generates operand⟩

end Activation

end FiberVM
