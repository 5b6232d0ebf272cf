import FiberVM.Fault
import FiberVM.Text.Quoted

/-!
# Signatures

The values that a native function takes and gives are described by a text of type codes, one letter
for each value; a star at the end lets the last code occur any number of times.
-/

namespace FiberVM

/-- The kinds that one value may have. -/
inductive TypeCode where
  | int
  | real
  | number
  | string
  | array
  | fiber
  | condition
  | any
  deriving DecidableEq, Repr, Inhabited

namespace TypeCode

/-- The code with a letter. -/
def ofChar? : Char → Option TypeCode
  | 'i' => some int
  | 'r' => some real
  | 'n' => some number
  | 's' => some string
  | 'a' => some array
  | 'f' => some fiber
  | 'c' => some condition
  | '?' => some any
  | _ => none

/-- The written name of a code. -/
def name : TypeCode → String
  | int => "Int"
  | real => "Real"
  | number => "Number"
  | string => "String"
  | array => "Array"
  | fiber => "Fiber"
  | condition => "Condition"
  | any => "Any"

/-- Whether a value of a kind is accepted. -/
def accepts : TypeCode → Kind → Bool
  | int, k => k = .int
  | real, k => k = .real
  | number, k => k = .int || k = .real
  | string, k => k = .string
  | array, k => k = .array
  | fiber, k => k = .fiber
  | condition, k => k = .condition
  | any, _ => true

end TypeCode

/-- The number and the kinds of the values that a function takes or gives. -/
structure Signature where
  /-- The codes, one for each value. -/
  codes : List TypeCode
  /-- Whether the last code may occur any number of times. -/
  variadic : Bool
  deriving DecidableEq, Repr, Inhabited

/-- Why a text is no signature. -/
inductive SignatureError where
  /-- A star is not at the end, or nothing stands before it. -/
  | misplacedStar (signature : String)
  /-- A letter is no code. -/
  | invalidCode (letter : Char) (signature : String)
  deriving DecidableEq, Repr

/-- The description of a signature error. -/
def SignatureError.message : SignatureError → String
  | misplacedStar signature => "misplaced * in signature " ++ Text.quoted signature
  | invalidCode letter signature =>
    "invalid type code " ++ Text.quotedChar letter ++ " in " ++ Text.quoted signature

/-- Why a number of values cannot be judged. -/
inductive CountError where
  /-- The number is the largest machine word, and one more does not fit. -/
  | noSuccessor
  deriving DecidableEq, Repr

/-- The description of a count error. -/
def CountError.message : CountError → String
  | noSuccessor => "attempt to add with overflow"

namespace Signature

/-- Reads the rest of a signature after the given codes. -/
def parseFrom (signature : String) (codes : List TypeCode) :
    List Char → Except SignatureError Signature
  | [] => .ok ⟨codes, false⟩
  | c :: rest =>
    if c = '*' then
      if rest = [] ∧ codes ≠ [] then .ok ⟨codes, true⟩ else .error (.misplacedStar signature)
    else
      match TypeCode.ofChar? c with
      | none => .error (.invalidCode c signature)
      | some code => parseFrom signature (codes ++ [code]) rest

/-- Reads a signature. -/
def parse (signature : String) : Except SignatureError Signature :=
  parseFrom signature [] signature.toList

/-- Whether a list may have so many values. -/
def fits (s : Signature) (n : Nat) : Bool :=
  if s.variadic then s.codes.length ≤ n + 1 else n = s.codes.length

/-- Whether so many values may be given, for a count in a machine word. With a star the successor of
the count is compared, and the largest word has none. -/
def acceptsCount (s : Signature) (n : UInt64) : Except CountError Bool :=
  if s.variadic ∧ n + 1 = 0 then .error .noSuccessor else .ok (s.fits n.toNat)

/-- The code for the value with an index; beyond the last code it is the last one. -/
def codeAt? (s : Signature) (index : Nat) : Option TypeCode :=
  s.codes[index]? <|> s.codes.getLast?

/-- What is wrong with the values: their number, or else the kind of one of them. -/
def fault? (s : Signature) (values : List Value) : Option Fault :=
  if !s.fits values.length then some .incorrectNumberOfArguments
  else
    values.zipIdx.findSome? fun (v, index) =>
      match s.codeAt? index with
      | none => some .incorrectNumberOfArguments
      | some code => if code.accepts v.kind then none else some .unexpectedArgument

/-- The description of a signature. -/
def describe (s : Signature) : String :=
  "Signature \x7b codes: [" ++ ", ".intercalate (s.codes.map (·.name)) ++ "], variadic: "
    ++ (if s.variadic then "true" else "false") ++ " \x7d"

end Signature

end FiberVM
