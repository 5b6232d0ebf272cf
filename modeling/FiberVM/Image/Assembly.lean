import FiberVM.Data.Table
import FiberVM.Image.Basic

/-!
# Assembly

A program is written as a list of statements with labels by name and strings in place. Assembling
emits the words in order, interns each string where it is first used, and at the end puts the
address of each label where it is jumped to.
-/

namespace FiberVM

/-- Why a program cannot be assembled. -/
inductive AssemblyError where
  /-- A string holds a zero byte. -/
  | zeroByte
  /-- There are too many strings. -/
  | stringsTooLarge
  /-- An inline operand does not fit. -/
  | inlineTooLarge
  /-- A label stands in two places. -/
  | labelBoundTwice
  /-- A label is jumped to and stands nowhere. -/
  | labelNeverBound
  /-- A branch is written with an operation that is no test. -/
  | notConditional (op : Opcode)
  deriving DecidableEq, Repr

/-- The description of an assembly error. -/
def AssemblyError.message : AssemblyError → String
  | zeroByte => "strings may not contain NUL"
  | stringsTooLarge => "string table too large"
  | inlineTooLarge => "inline operand too large"
  | labelBoundTwice => "label bound twice"
  | labelNeverBound => "label never bound"
  | notConditional op => s!"{op.mnemonic} is not a conditional"

/-- A statement of an assembly program. -/
inductive Stmt where
  /-- Starts a state here. -/
  | state (name : String)
  /-- Declares an instance variable. -/
  | declareLocal (name type : String)
  /-- Declares a shared variable. -/
  | declareShared (name type : String)
  /-- Puts a string into the table without using it. -/
  | intern (s : String)
  /-- Asks for the address reached so far. -/
  | address
  /-- Puts a label here. -/
  | label (name : String)
  /-- An operation with an inline operand. -/
  | op (op : Opcode) (inline : Nat)
  /-- A word as it is. -/
  | word (w : Word)
  /-- Pushes an integer. -/
  | int (n : Int64)
  /-- Pushes a real. -/
  | real (x : Binary64)
  /-- An operation whose inline operand is the index of a string. -/
  | string (op : Opcode) (s : String)
  /-- An operation whose operand word is the address of a label. -/
  | jump (op : Opcode) (label : String)
  /-- A test whose false branch jumps to a label. -/
  | branch (test : Opcode) (label : String)
  deriving DecidableEq, Repr

namespace Stmt

/-- An operation without an operand. -/
def plain (op : Opcode) : Stmt := .op op 0

/-- Pushes a string. -/
def text (s : String) : Stmt := .string .pushString s

/-- An operation on the variable, state or machine with a name. -/
def named (op : Opcode) (name : String) : List Stmt := [text name, plain op]

/-- An argument list. -/
def params (arguments : List Stmt) : List Stmt :=
  plain .paramsStart :: arguments ++ [plain .paramsEnd]

/-- A call with an argument list. -/
def callWith (name : String) (arguments : List Stmt) : List Stmt :=
  params arguments ++ [.string .call name]

/-- A launch with an argument list. -/
def launch (machine : String) (arguments : List Stmt) : List Stmt :=
  params arguments ++ named .launch machine

end Stmt

/-- A program being assembled. -/
structure Draft where
  /-- The words so far; an address that is not known yet is zero. -/
  words : Array Word := #[]
  /-- The strings so far. -/
  strings : Strings := {}
  /-- The states so far. -/
  states : List StateEntry := []
  /-- The instance variables so far. -/
  locals : List Variable := []
  /-- The shared variables so far. -/
  shared : List Variable := []
  /-- The addresses of the labels so far. -/
  labels : Table String Nat := .empty
  /-- Where the address of a label is to be put, the latest first. -/
  fixups : List (Nat × String) := []
  /-- What the declarations and questions were answered with, the latest first. -/
  notes : List Nat := []
  deriving Inhabited

namespace Draft

/-- The address of the next word. -/
def address (d : Draft) : Nat := d.words.size

/-- Emits a word. -/
def emit (d : Draft) (w : Word) : Draft := { d with words := d.words.push w }

/-- Emits an operation with an inline operand. -/
def emitOp (d : Draft) (op : Opcode) (inline : Nat) : Except AssemblyError Draft :=
  match Word.encode? op inline with
  | none => .error .inlineTooLarge
  | some w => .ok (d.emit w)

/-- The index of a string. -/
def intern (d : Draft) (s : String) : Except AssemblyError (Nat × Draft) :=
  match d.strings.intern? s with
  | none => .error (if s.toList.contains (Char.ofNat 0) then .zeroByte else .stringsTooLarge)
  | some (index, strings) => .ok (index, { d with strings })

/-- The declaration of a variable. -/
def declaration (d : Draft) (name type : String) : Except AssemblyError (Variable × Draft) := do
  let (name, d) ← d.intern name
  let (type, d) ← d.intern type
  return (⟨name, type⟩, d)

/-- Answers a declaration or a question. -/
def note (d : Draft) (n : Nat) : Draft := { d with notes := n :: d.notes }

/-- Emits an operation whose operand word is the address of a label. -/
def emitJump (d : Draft) (op : Opcode) (label : String) : Draft :=
  let d := d.emit (Word.plain op)
  { d with fixups := (d.address, label) :: d.fixups }.emit 0

/-- Assembles one statement. -/
def stmt (d : Draft) : Stmt → Except AssemblyError Draft
  | .state name => do
    let (name, d) ← d.intern name
    let entry : StateEntry := ⟨name, d.address⟩
    return { d with states := d.states ++ [entry] }.note d.states.length
  | .declareLocal name type => do
    let (v, d) ← d.declaration name type
    return { d with locals := d.locals ++ [v] }.note d.locals.length
  | .declareShared name type => do
    let (v, d) ← d.declaration name type
    return { d with shared := d.shared ++ [v] }.note d.shared.length
  | .intern s => do
    let (index, d) ← d.intern s
    return d.note index
  | .address => .ok (d.note d.address)
  | .label name =>
    if d.labels.contains name then .error .labelBoundTwice
    else .ok { d with labels := d.labels.insert name d.address }
  | .op op inline => d.emitOp op inline
  | .word w => .ok (d.emit w)
  | .int n => .ok ((d.emit (Word.plain .pushInt)).emit n.toUInt64)
  | .real x => .ok ((d.emit (Word.plain .pushReal)).emit x.bits)
  | .string op s => do
    let (index, d) ← d.intern s
    d.emitOp op index
  | .jump op label => .ok (d.emitJump op label)
  | .branch test label =>
    if test.isConditional then .ok ((d.emit (Word.plain test)).emitJump .goto label)
    else .error (.notConditional test)

/-- Assembles statements one after the other. -/
def stmts (d : Draft) : List Stmt → Except AssemblyError Draft
  | [] => .ok d
  | s :: rest => do stmts (← d.stmt s) rest

/-- Puts the addresses of labels where they are jumped to. -/
def resolve (labels : Table String Nat) :
    List (Nat × String) → Array Word → Except AssemblyError (Array Word)
  | [], words => .ok words
  | (place, label) :: rest, words =>
    match labels.find? label with
    | none => .error .labelNeverBound
    | some address => resolve labels rest (words.setIfInBounds place (UInt64.ofNat address))

/-- The image of a finished draft. -/
def finish (d : Draft) (name : String) : Except AssemblyError Image := do
  let words ← resolve d.labels d.fixups.reverse d.words
  return ⟨name, words, d.states, d.locals, d.shared, d.strings⟩

end Draft

/-- The image of a program, with the answers to its declarations and questions in order. -/
def assemble (name : String) (program : List Stmt) : Except AssemblyError (Image × List Nat) := do
  let d ← Draft.stmts {} program
  return (← d.finish name, d.notes.reverse)

end FiberVM
