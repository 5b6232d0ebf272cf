import FiberVM.Value

/-!
# Faults

What can go wrong while a fiber runs. A fault ends the run of one fiber and destroys that fiber; it
is recorded with the machine, the fiber and the address of the instruction.
-/

namespace FiberVM

/-- A reason for which a run fails. -/
inductive Fault where
  /-- The stack is empty above the open argument list. -/
  | stackUnderflow
  /-- Runs and loops are nested too deeply. -/
  | stackOverflow
  /-- A number was expected. -/
  | expectedNumber
  /-- An integer was expected. -/
  | expectedInteger
  /-- A string was expected. -/
  | expectedString
  /-- An array was expected. -/
  | expectedArray
  /-- A condition was expected. -/
  | expectedCondition
  /-- A fiber was expected. -/
  | expectedFiber
  /-- A name denotes nothing. -/
  | unknownIdentifier (name : String)
  /-- A key belongs to no variable. -/
  | unknownVariable
  /-- A key belongs to no state. -/
  | unknownState
  /-- There is no machine of the name. -/
  | unknownMachine (name : String)
  /-- The machine of the name has a defective image. -/
  | invalidMachine (name : String)
  /-- Something that is no function was called. -/
  | notAFunction
  /-- A function got or gave a wrong number of values. -/
  | incorrectNumberOfArguments
  /-- A function got or gave a value of a wrong kind. -/
  | unexpectedArgument
  /-- An integer was divided by zero. -/
  | divideByZero
  /-- A word has an unknown operation number. -/
  | invalidOpcode (code : Nat)
  /-- Execution left the program. -/
  | invalidInstructionAddress
  /-- The heap is full. -/
  | heapExhausted
  /-- A cell has lost its value. -/
  | valueFreed
  /-- The fiber no longer exists. -/
  | fiberDestroyed
  /-- A loop body tried to suspend. -/
  | suspendInLoop
  /-- A fiber was resumed that was not suspended. -/
  | notSuspended
  /-- The run has used up its steps. -/
  | noBudget
  /-- There is no list of the name to wait on. -/
  | unknownList (name : String)
  /-- An index is outside of an array. -/
  | outOfBounds
  deriving DecidableEq, Repr, Inhabited

namespace Fault

/-- The short name of a fault. -/
def kind : Fault → String
  | stackUnderflow => "underflow"
  | stackOverflow => "overflow"
  | expectedNumber => "expected_number"
  | expectedInteger => "expected_integer"
  | expectedString => "expected_string"
  | expectedArray => "expected_array"
  | expectedCondition => "expected_condition"
  | expectedFiber => "expected_fiber"
  | unknownIdentifier _ => "undefined"
  | unknownVariable => "unknown_variable"
  | unknownState => "unknown_state"
  | unknownMachine _ => "unknown_machine"
  | invalidMachine _ => "invalid_machine"
  | notAFunction => "not_invokable"
  | incorrectNumberOfArguments => "args"
  | unexpectedArgument => "unexpected_argument"
  | divideByZero => "divided_by_zero"
  | invalidOpcode _ => "invalid_opcode"
  | invalidInstructionAddress => "invalid_instruction"
  | heapExhausted => "out_of_memory"
  | valueFreed => "out_of_scope"
  | fiberDestroyed => "fiber_destroyed"
  | suspendInLoop => "suspend_in_loop"
  | notSuspended => "not_suspended"
  | noBudget => "no_budget"
  | unknownList _ => "unknown_list"
  | outOfBounds => "out_of_bounds"

/-- The description of a fault. -/
def message : Fault → String
  | unknownIdentifier name => s!"unknown identifier {name}"
  | unknownMachine name => s!"unknown machine {name}"
  | invalidMachine name => s!"machine {name} failed validation"
  | invalidOpcode code => s!"invalid opcode {code}"
  | unknownList name => s!"unknown continuation list {name}"
  | fault => fault.kind

end Fault

/-- A fault with the place where it happened. -/
structure ExecutionError where
  /-- The name of the fiber's machine. -/
  machine : String
  /-- The fiber. -/
  fiber : FiberId
  /-- The address of the instruction. -/
  pc : Nat
  /-- What went wrong. -/
  fault : Fault
  deriving DecidableEq, Repr, Inhabited

/-- The description of an execution error; the fiber itself has no written form. -/
def ExecutionError.message (e : ExecutionError) : String :=
  s!"{e.machine} (<fiber>) faulted at pc {e.pc}: {e.fault.message}"

end FiberVM
