import FiberVM.Native.Builtin
import FiberVM.Native.Signature

/-!
# Native functions and their catalog

A native function has a name, the signatures of its arguments and results, and a body: a built-in
function, or one that the host carries out. The catalog of an engine holds libraries of functions,
the methods of each kind of value and functions that belong to no library.
-/

namespace FiberVM

/-- What a native function does. -/
inductive Body where
  /-- A built-in function. -/
  | builtin (b : Builtin)
  /-- A function of the host, under the number that the host knows it by. -/
  | host (number : Nat)
  deriving DecidableEq, Repr

/-- A function that is not written in instructions. -/
structure Native where
  /-- The name. -/
  name : String
  /-- What it takes. -/
  args : Signature
  /-- What it gives. -/
  results : Signature
  /-- What it does. -/
  body : Body
  deriving DecidableEq, Repr

/-- The description of a native function. -/
def Native.describe (f : Native) : String :=
  "NativeFunction \x7b name: " ++ Text.quoted f.name ++ ", args: " ++ f.args.describe
    ++ ", results: " ++ f.results.describe ++ ", .. \x7d"

/-- Passes results on that fit the signature; others are given up. -/
def Native.checkResults (f : Native) (results : List Value) : HeapM (List Value) :=
  match f.results.fault? results with
  | none => return results
  | some fault => do
    modify (·.releaseValues results)
    throw fault

/-- Runs a built-in function under the signatures of a native function. -/
def Native.runBuiltin (f : Native) (b : Builtin) (context : CallContext) (args : List Value) :
    HeapM (List Value × Option String) := do
  match f.args.fault? args with
  | some fault => throw fault
  | none =>
    let (results, line) ← b.run context args
    return (← f.checkResults results, line)

/-- A collection of native functions. -/
structure Library where
  /-- The name. -/
  name : String
  /-- The functions by name. -/
  functions : Table String Native := .empty
  deriving DecidableEq, Repr, Inhabited

namespace Library

/-- The function with a name. -/
def function? (l : Library) (name : String) : Option Native := l.functions.find? name

/-- The number of functions. -/
def size (l : Library) : Nat := l.functions.size

/-- Adds a function in place of the one with its name. -/
def insert (l : Library) (f : Native) : Library :=
  { l with functions := l.functions.insert f.name f }

/-- Adds a function under several names. -/
def add (l : Library) (names : List String) (args results : Signature) (body : Body) : Library :=
  names.foldl (fun l name => l.insert ⟨name, args, results, body⟩) l

end Library

/-- The native functions that an engine knows. -/
structure Catalog where
  /-- The libraries by name. -/
  libraries : Table String Library := .empty
  /-- The functions that belong to no library, by name. -/
  functions : Table String Native := .empty
  /-- The methods of each kind of value. -/
  methods : Table Kind Library := .empty
  deriving DecidableEq, Repr, Inhabited

namespace Catalog

/-- The library with a name. -/
def library? (c : Catalog) (name : String) : Option Library := c.libraries.find? name

/-- The function with a name that belongs to no library. -/
def function? (c : Catalog) (name : String) : Option Native := c.functions.find? name

/-- The method with a name of a kind of value. -/
def method? (c : Catalog) (kind : Kind) (name : String) : Option Native :=
  (c.methods.find? kind).bind (·.function? name)

/-- Adds a library in place of the one with its name. -/
def addLibrary (c : Catalog) (l : Library) : Catalog :=
  { c with libraries := c.libraries.insert l.name l }

/-- Adds a function in place of the one with its name. -/
def addFunction (c : Catalog) (f : Native) : Catalog :=
  { c with functions := c.functions.insert f.name f }

/-- Sets the methods of a kind of value. -/
def addMethods (c : Catalog) (kind : Kind) (l : Library) : Catalog :=
  { c with methods := c.methods.insert kind l }

/-- The library for output. -/
def io : Library :=
  ({ name := "io" } : Library).add ["print"] ⟨[.any], true⟩ ⟨[], false⟩ (.builtin .print)

/-- The library for conditions of time. -/
def time : Library :=
  ({ name := "time" } : Library)
    |>.add ["after"] ⟨[.number], false⟩ ⟨[.condition], false⟩ (.builtin .timeAfter)
    |>.add ["every"] ⟨[.number], false⟩ ⟨[.condition], false⟩ (.builtin .timeEvery)
    |>.add ["recur"] ⟨[.number, .int], false⟩ ⟨[.condition], false⟩ (.builtin .timeRecur)
    |>.add ["now"] ⟨[], false⟩ ⟨[.real], false⟩ (.builtin .timeNow)

/-- The library for conditions of the pointer. -/
def pointer : Library :=
  let events := ["down", "up", "move", "drag"].foldl
    (fun l event => l.add [event] ⟨[], false⟩ ⟨[.condition], false⟩ (.builtin (.pointerNext event)))
    ({ name := "pointer" } : Library)
  events.add ["every"] ⟨[.string], false⟩ ⟨[.condition], false⟩ (.builtin .pointerEvery)

/-- The library for arithmetic. -/
def math : Library :=
  ({ name := "math" } : Library)
    |>.add ["abs"] ⟨[.number], false⟩ ⟨[.number], false⟩ (.builtin .abs)
    |>.add ["min"] ⟨[.number, .number], true⟩ ⟨[.number], false⟩ (.builtin .min)
    |>.add ["max"] ⟨[.number, .number], true⟩ ⟨[.number], false⟩ (.builtin .max)
    |>.add ["floor"] ⟨[.number], false⟩ ⟨[.int], false⟩ (.builtin .floor)
    |>.add ["sqrt"] ⟨[.number], false⟩ ⟨[.real], false⟩ (.builtin .sqrt)

/-- The methods of arrays. -/
def arrayMethods : Library :=
  ({ name := "array" } : Library)
    |>.add ["len"] ⟨[], false⟩ ⟨[.int], false⟩ (.builtin .arrayLength)
    |>.add ["get", "nth"] ⟨[.int], false⟩ ⟨[.any], false⟩ (.builtin .arrayElement)
    |>.add ["push"] ⟨[.any], false⟩ ⟨[], false⟩ (.builtin .arrayPush)

/-- The methods of strings. -/
def stringMethods : Library :=
  ({ name := "string" } : Library).add ["len"] ⟨[], false⟩ ⟨[.int], false⟩ (.builtin .stringLength)

/-- The catalog of the built-in functions. -/
def builtins : Catalog :=
  (([io, time, pointer, math].foldl addLibrary {}).addMethods .array arrayMethods).addMethods
    .string stringMethods

end Catalog

end FiberVM
