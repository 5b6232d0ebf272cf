/-!
# Operation codes

The operations of the machine, in the order of their codes, with what each of them expects to find
in the instruction stream: operand words, a string, an address, or a jump that it may skip.
-/

namespace FiberVM

/-- An operation of the machine. -/
inductive Opcode where
  /-- Does nothing. -/
  | nop
  /-- Pushes nil. -/
  | pushNil
  /-- Pushes the integer in the operand word. -/
  | pushInt
  /-- Pushes the real whose bits are the operand word. -/
  | pushReal
  /-- Pushes the string with the inline index. -/
  | pushString
  /-- Discards the top of the stack. -/
  | pop
  /-- Pushes the top of the stack once more. -/
  | dup
  /-- Pops a key and pushes the fiber's variable. -/
  | getSelf
  /-- Pops a key and pushes the machine's shared variable. -/
  | getShared
  /-- Pops a key and pushes the global variable. -/
  | getGlobal
  /-- Pops a key and a value and stores a copy in the fiber's variable. -/
  | setSelf
  /-- Pops a key and a value and stores a copy in the machine's shared variable. -/
  | setShared
  /-- Pops a key and a value and stores a copy in the global variable, declaring it if needed. -/
  | setGlobal
  /-- Pushes the entry of the local frame with the inline index. -/
  | getFrame
  /-- Opens an argument list. -/
  | paramsStart
  /-- Collects the open argument list into an array. -/
  | paramsEnd
  /-- Pops an argument array and calls what the inline string names. -/
  | call
  /-- Moves the top of the stack to the receivers. -/
  | dot
  /-- Pops an argument array and calls what the inline string names on the latest receiver. -/
  | callDynamic
  /-- Pops two numbers and skips the following jump if they are equal. -/
  | ifEqual
  /-- Pops a number and skips the following jump if it is zero. -/
  | ifZero
  /-- Pops a number and skips the following jump if it is not zero. -/
  | ifNonzero
  /-- Pops a number and skips the following jump if it is negative. -/
  | ifNegative
  /-- Pops a number and skips the following jump if it is positive. -/
  | ifPositive
  /-- Pops a number and skips the following jump if it is at most zero. -/
  | ifAtMostZero
  /-- Pops a number and skips the following jump if it is at least zero. -/
  | ifAtLeastZero
  /-- Adds two numbers or joins two strings. -/
  | add
  /-- Subtracts two numbers. -/
  | sub
  /-- Multiplies two numbers. -/
  | mul
  /-- Divides two numbers. -/
  | div
  /-- Takes the remainder of two numbers. -/
  | mod
  /-- Changes the sign of a number. -/
  | neg
  /-- Pops a state key, cancels what the fiber waits for and enters the state. -/
  | gotoState
  /-- Jumps to the address in the operand word. -/
  | goto
  /-- Pops a generator and runs the body that follows for each element; the operand word is the
  address after the body. -/
  | forEach
  /-- Pops a condition and registers the body at the address in the operand word for it. -/
  | on
  /-- Pops a condition and suspends until it is met. -/
  | wait
  /-- Ends the state. -/
  | endState
  /-- Ends the body. -/
  | endBody
  /-- Suspends until the host resumes the fiber. -/
  | suspend
  /-- Pops a machine name and an argument array and launches a fiber. -/
  | launch
  deriving DecidableEq, Repr, Inhabited

namespace Opcode

/-- Every operation, in the order of the codes. -/
def all : List Opcode :=
  [nop, pushNil, pushInt, pushReal, pushString, pop, dup, getSelf, getShared, getGlobal, setSelf,
    setShared, setGlobal, getFrame, paramsStart, paramsEnd, call, dot, callDynamic, ifEqual, ifZero,
    ifNonzero, ifNegative, ifPositive, ifAtMostZero, ifAtLeastZero, add, sub, mul, div, mod, neg,
    gotoState, goto, forEach, on, wait, endState, endBody, suspend, launch]

/-- The number of an operation. -/
def code (op : Opcode) : Nat := op.ctorIdx

/-- The operation with a number. -/
def ofCode? (n : Nat) : Option Opcode := all[n]?

/-- The written name of an operation. -/
def mnemonic : Opcode → String
  | nop => "nop"
  | pushNil => "push.nil"
  | pushInt => "push.int"
  | pushReal => "push.real"
  | pushString => "push.str"
  | pop => "pop"
  | dup => "dup"
  | getSelf => "get.self"
  | getShared => "get.shared"
  | getGlobal => "get.global"
  | setSelf => "set.self"
  | setShared => "set.shared"
  | setGlobal => "set.global"
  | getFrame => "get.frame"
  | paramsStart => "params.start"
  | paramsEnd => "params.end"
  | call => "call"
  | dot => "dot"
  | callDynamic => "call.dyn"
  | ifEqual => "if.eq"
  | ifZero => "if.eq0"
  | ifNonzero => "if.ne0"
  | ifNegative => "if.lt0"
  | ifPositive => "if.gt0"
  | ifAtMostZero => "if.lte0"
  | ifAtLeastZero => "if.gte0"
  | add => "add"
  | sub => "sub"
  | mul => "mul"
  | div => "div"
  | mod => "mod"
  | neg => "neg"
  | gotoState => "goto.state"
  | goto => "goto"
  | forEach => "foreach"
  | on => "on"
  | wait => "wait"
  | endState => "end"
  | endBody => "end.sub"
  | suspend => "suspend"
  | launch => "launch"

/-- The operation with a written name. -/
def ofMnemonic? (s : String) : Option Opcode := all.find? (·.mnemonic = s)

/-- The number of operand words after the instruction word. -/
def operands : Opcode → Nat
  | pushInt | pushReal | goto | forEach | on => 1
  | _ => 0

/-- The number of words of an instruction. -/
def width (op : Opcode) : Nat := 1 + op.operands

/-- Whether the inline operand is a string index. -/
def takesString : Opcode → Bool
  | pushString | call | callDynamic => true
  | _ => false

/-- Whether the operand word is an address. -/
def takesAddress : Opcode → Bool
  | goto | forEach | on => true
  | _ => false

/-- Whether the operation is a test, which stands before a jump and may skip it. -/
def isConditional : Opcode → Bool
  | ifEqual | ifZero | ifNonzero | ifNegative | ifPositive | ifAtMostZero | ifAtLeastZero => true
  | _ => false

/-- The number of an operation leads back to it. -/
@[simp] theorem ofCode?_code (op : Opcode) : ofCode? op.code = some op := by
  cases op <;> rfl

theorem code_lt (op : Opcode) : op.code < 41 := by
  cases op <;> decide

end Opcode

end FiberVM
