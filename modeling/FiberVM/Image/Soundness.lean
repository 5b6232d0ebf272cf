import FiberVM.Image.Basic

/-!
# Soundness of images

An image that comes from outside is checked before it is run. The words are decoded one instruction
after the other from address zero; then the states and the variables are looked at. The check
reports the first defect in that order.
-/

namespace FiberVM

/-- What can be wrong with an image. -/
inductive Defect where
  /-- An instruction's address operand is past the last word. -/
  | addressOutOfRange (pc target : Nat)
  /-- A state starts past the last word. -/
  | stateOutOfRange (state : String) (address : Nat)
  /-- An instruction lacks its operand word, or a test is not followed by a jump. -/
  | truncatedInstruction (pc : Nat) (op : Opcode)
  /-- A word that should be an instruction has an unknown operation number. -/
  | invalidOpcode (pc code : Nat)
  /-- A string cannot be read. -/
  | invalidString (index : Nat)
  /-- A variable's type is not the name of a type. -/
  | unknownType (variableName type : String)
  /-- A state has the name of an earlier one. -/
  | duplicateState (state : String)
  deriving DecidableEq, Repr

namespace Defect

/-- The short name of a defect. -/
def kind : Defect → String
  | addressOutOfRange .. => "address_out_of_range"
  | stateOutOfRange .. => "state_out_of_range"
  | truncatedInstruction .. => "truncated_instruction"
  | invalidOpcode .. => "invalid_opcode"
  | invalidString _ => "invalid_string"
  | unknownType .. => "unknown_type"
  | duplicateState _ => "duplicate_state"

/-- The description of a defect. -/
def message : Defect → String
  | addressOutOfRange pc target => s!"instruction at {pc} targets out-of-range address {target}"
  | stateOutOfRange state address => s!"state {state} starts at out-of-range address {address}"
  | truncatedInstruction pc op => s!"instruction {op.mnemonic} at {pc} is incomplete"
  | invalidOpcode pc code => s!"invalid opcode {code} at {pc}"
  | invalidString index => s!"invalid string index {index}"
  | unknownType variableName type => s!"variable {variableName} has unknown type {type}"
  | duplicateState state => s!"state {state} is declared twice"

end Defect

/-- A decoded instruction. -/
structure Instruction where
  /-- The address of the instruction word. -/
  address : Nat
  /-- The operation. -/
  op : Opcode
  /-- The inline operand. -/
  inline : Nat
  /-- The operand word of an operation that has one. -/
  operand : Option Word
  deriving DecidableEq, Repr, Inhabited

namespace Image

/-- Decodes words as instructions that follow each other from an address on, up to the end or to a
word that cannot be decoded; that word's defect is returned with the instructions before it. -/
def decode (pc : Nat) : List Word → List Instruction × Option Defect
  | [] => ([], none)
  | w :: rest =>
    match w.opcode? with
    | none => ([], some (.invalidOpcode pc w.code))
    | some op =>
      if op.operands = 0 then
        let (instructions, stop) := decode (pc + 1) rest
        (⟨pc, op, w.inline, none⟩ :: instructions, stop)
      else
        match rest with
        | [] => ([], some (.truncatedInstruction pc op))
        | operand :: rest =>
          let (instructions, stop) := decode (pc + 2) rest
          (⟨pc, op, w.inline, some operand⟩ :: instructions, stop)

/-- The instructions of an image, in order, up to the first word that cannot be decoded. -/
def instructions (i : Image) : List Instruction := (decode 0 i.words.toList).1

/-- The name and the type of a declared variable. -/
def describe (i : Image) (v : Variable) : Except Defect (String × VariableType) :=
  match i.string? v.name, i.string? v.type with
  | none, _ => .error (.invalidString v.name)
  | some _, none => .error (.invalidString v.type)
  | some name, some type =>
    match VariableType.ofName? type with
    | none => .error (.unknownType name type)
    | some t => .ok (name, t)

/-- What is wrong with the operands of an instruction. An inline operand that is no 32-bit index is
reported as the largest one. -/
def instructionDefect? (i : Image) (ins : Instruction) : Option Defect :=
  let next := (i.words[ins.address + 1]?).bind Word.opcode?
  let target := (ins.operand.getD 0).toNat
  if ins.op.takesString ∧ Word.indexCount ≤ ins.inline then
    some (.invalidString (Word.indexCount - 1))
  else if ins.op.takesString ∧ (i.string? ins.inline).isNone then some (.invalidString ins.inline)
  else if ins.op.takesAddress ∧ i.words.size ≤ target then
    some (.addressOutOfRange ins.address target)
  else if ins.op.isConditional ∧ next ≠ some .goto then
    some (.truncatedInstruction ins.address ins.op)
  else none

/-- What is wrong with the state that has the given index. -/
def stateDefect? (i : Image) (s : StateEntry) (index : Nat) : Option Defect :=
  match i.string? s.name with
  | none => some (.invalidString s.name)
  | some name =>
    if i.words.size ≤ s.address then some (.stateOutOfRange name s.address)
    else if i.stateIndex? name ≠ some index then some (.duplicateState name)
    else none

/-- What is wrong with a declared variable. -/
def variableDefect? (i : Image) (v : Variable) : Option Defect :=
  match i.describe v with
  | .error d => some d
  | .ok _ => none

/-- The first defect of an image: of its instructions, its states, its instance variables and its
shared variables, in this order. -/
def defect? (i : Image) : Option Defect :=
  let (instructions, stop) := decode 0 i.words.toList
  instructions.findSome? i.instructionDefect?
    <|> stop
    <|> i.states.zipIdx.findSome? (fun (s, index) => i.stateDefect? s index)
    <|> (i.locals ++ i.shared).findSome? i.variableDefect?

end Image

end FiberVM
