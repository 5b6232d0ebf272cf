import FiberVM.Image.Strings
import FiberVM.Instruction.Word
import FiberVM.Value

/-!
# Images

The compiled description of one type of machine: its instruction words, its states with their entry
addresses, the variables of each instance, the variables that all instances share, and the strings
that the rest refers to by index. The first state is where an instance starts.
-/

namespace FiberVM

/-- A state of a machine. -/
structure StateEntry where
  /-- The index of the state's name. -/
  name : Nat
  /-- The address of the state's first instruction. -/
  address : Nat
  deriving DecidableEq, Repr, Inhabited

/-- A declared variable of a machine. -/
structure Variable where
  /-- The index of the variable's name. -/
  name : Nat
  /-- The index of the name of the variable's type. -/
  type : Nat
  deriving DecidableEq, Repr, Inhabited

/-- The declared type of a variable. -/
inductive VariableType where
  | int
  | real
  | string
  | array
  | fiber
  | any
  deriving DecidableEq, Repr, Inhabited

namespace VariableType

/-- Every type. -/
def all : List VariableType := [int, real, string, array, fiber, any]

/-- The written name of a type. -/
def name : VariableType → String
  | int => "int"
  | real => "real"
  | string => "string"
  | array => "array"
  | fiber => "fiber"
  | any => "any"

/-- The type with a written name. -/
def ofName? (s : String) : Option VariableType := all.find? (·.name = s)

/-- What a variable of the type holds at first. -/
def initial : VariableType → Value
  | int => .int 0
  | real => .real .zero
  | string => .string ""
  | array => .array #[]
  | fiber => .nil
  | any => .nil

end VariableType

/-- The compiled description of one type of machine. -/
structure Image where
  /-- The name of the machine type. -/
  name : String
  /-- The instruction and operand words. -/
  words : Array Word
  /-- The states, the entry state first. -/
  states : List StateEntry
  /-- The variables of each instance. -/
  locals : List Variable
  /-- The variables shared by all instances. -/
  shared : List Variable
  /-- The strings. -/
  strings : Strings
  deriving DecidableEq, Repr, Inhabited

namespace Image

/-- The string with an index. -/
def string? (i : Image) (index : Nat) : Option String := i.strings.get? index

/-- The index of the first of the given variables with a name. -/
def variableIndex? (i : Image) (declared : List Variable) (name : String) : Option Nat :=
  declared.findIdx? fun v => i.string? v.name = some name

/-- The index of the first instance variable with a name. -/
def localIndex? (i : Image) (name : String) : Option Nat := i.variableIndex? i.locals name

/-- The index of the first shared variable with a name. -/
def sharedIndex? (i : Image) (name : String) : Option Nat := i.variableIndex? i.shared name

/-- The index of the first state with a name. -/
def stateIndex? (i : Image) (name : String) : Option Nat :=
  i.states.findIdx? fun s => i.string? s.name = some name

/-- The entry address of the state with an index. -/
def stateAddress? (i : Image) (index : Nat) : Option Nat := i.states[index]?.map (·.address)

/-- The address where an instance starts. -/
def entry? (i : Image) : Option Nat := i.stateAddress? 0

end Image

end FiberVM
