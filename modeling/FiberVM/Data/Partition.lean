/-!
# Partition points

A list is divided by a property if the elements with it come before those without it. The place
where it is divided is found by halving the part of the list that is left to look at. In a list that
is not divided the place has no meaning.
-/

namespace FiberVM

variable {α : Type}

/-- Narrows the places between two bounds down to one, in so many rounds at most. In each round the
element in the middle tells in which half to go on. -/
def narrow (p : α → Bool) (l : List α) : Nat → Nat → Nat → Nat
  | 0, low, _ => low
  | rounds + 1, low, high =>
    if low < high then
      let middle := (low + high) / 2
      if l[middle]?.any p then narrow p l rounds (middle + 1) high else narrow p l rounds low middle
    else low

/-- The number of elements that come before the place where a list is divided. Each round makes the
part that is left to look at smaller, so the length bounds the rounds. -/
def partitionPoint (p : α → Bool) (l : List α) : Nat := narrow p l l.length 0 l.length

end FiberVM
