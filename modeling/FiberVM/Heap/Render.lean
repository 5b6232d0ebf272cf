import FiberVM.Binary64.Decimal
import FiberVM.Heap.Basic

/-!
# The text of values

Strings are written as they are and arrays with their elements in brackets. Since an array may hold
itself, elements more than seventeen arrays deep are written as dots.
-/

namespace FiberVM.Heap

/-- The text of a value, with the given texts for the elements of an array. -/
def textWith (element : Ref → String) : Value → String
  | .nil => "nil"
  | .int n => toString n.toInt
  | .real x => x.text
  | .string s => s
  | .fiber _ => "<fiber>"
  | .instance _ => "<fiber>"
  | .library name => s!"<library {name}>"
  | .condition _ => "<condition>"
  | .array elements => "[" ++ ", ".intercalate (elements.toList.map element) ++ "]"

/-- The text of an element, whose value is written in the given way. -/
def elementText (h : Heap) (text : Value → String) (r : Ref) : String :=
  match h.get? r with
  | none => "<freed>"
  | some v => text v

/-- The text of a value, followed into arrays so many levels deep. -/
def renderTo (h : Heap) : Nat → Value → String
  | 0 => textWith (h.elementText fun _ => "...")
  | depth + 1 => textWith (h.elementText (h.renderTo depth))

/-- The text of a value. -/
def render (h : Heap) (v : Value) : String := h.renderTo 17 v

end FiberVM.Heap
