import FiberVM.Instruction.Opcode

/-!
# Instruction words

An instruction is one 64-bit word, perhaps followed by operand words. Its low 16 bits are the number
of the operation and its high 48 bits an inline operand.
-/

namespace FiberVM

/-- A word of a program: an instruction word or an operand word. -/
abbrev Word := UInt64

namespace Word

/-- The width of the operation number. -/
def codeBits : Nat := 16

/-- The number of operation numbers that fit, which is the place value of the inline operand. -/
def codeCount : Nat := 0x10000

/-- The largest inline operand. -/
def maxInline : Nat := 0xffffffffffff

/-- How many strings a 32-bit index can name. -/
def indexCount : Nat := 0x100000000

/-- The operation number. -/
def code (w : Word) : Nat := w.toNat % codeCount

/-- The inline operand. -/
def inline (w : Word) : Nat := w.toNat / codeCount

/-- The operation, if the number belongs to one. -/
def opcode? (w : Word) : Option Opcode := Opcode.ofCode? w.code

/-- The word of an operation with an inline operand, if the operand fits. -/
def encode? (op : Opcode) (inline : Nat) : Option Word :=
  if inline ≤ maxInline then some (UInt64.ofNat (inline * codeCount + op.code)) else none

/-- The word of an operation without an operand. -/
def plain (op : Opcode) : Word := UInt64.ofNat op.code

private theorem toNat_word (op : Opcode) {i : Nat} (h : i ≤ maxInline) :
    (UInt64.ofNat (i * codeCount + op.code)).toNat = i * codeCount + op.code := by
  have hc := op.code_lt
  simp only [maxInline] at h
  rw [UInt64.toNat_ofNat']
  simp only [codeCount]
  omega

/-- Encoding keeps the operation and the operand. -/
theorem encode?_eq_some {op : Opcode} {i : Nat} {w : Word} (h : encode? op i = some w) :
    w.opcode? = some op ∧ w.inline = i := by
  unfold encode? at h
  split at h
  case isFalse => cases h
  case isTrue hi =>
    cases h
    have hw := toNat_word op hi
    have hc := op.code_lt
    constructor
    · have : code (UInt64.ofNat (i * codeCount + op.code)) = op.code := by
        rw [code, hw]
        simp only [codeCount]
        omega
      rw [opcode?, this, Opcode.ofCode?_code]
    · rw [inline, hw]
      simp only [codeCount]
      omega

end Word

end FiberVM
