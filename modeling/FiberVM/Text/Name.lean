/-!
# Qualified names

Machines, variables, libraries and functions are named by plain strings. A name with dots is
qualified: its segments are looked up one after the other, each in what the one before it denotes.
-/

namespace FiberVM.Name

/-- The parts of a character list between its dots; without a dot, the list itself. -/
def splitDots (cs : List Char) : List (List Char) :=
  cs.foldr (fun c parts =>
    match c, parts with
    | '.', parts => [] :: parts
    | c, [] => [[c]]
    | c, part :: parts => (c :: part) :: parts) [[]]

/-- The segments of a name, in order. There is always at least one, and a segment may be empty. -/
def segments (name : String) : List String := (splitDots name.toList).map String.ofList

/-- Whether a name has a dot. -/
def isQualified (name : String) : Bool := name.toList.contains '.'

end FiberVM.Name
