import UnitAssembly.Library.Requirements

/-!
Contract: the description of one unit to be compiled.

Owns:
- `CompilationUnit` and its kinds;
- the names of the unit's static variables.

A unit does not change once work on it has begun.

Does not own: the symbols and declarations that the work on it produces.
-/

namespace UnitAssembly

inductive UnitKind where
  /-- A program, which knows its own name. -/
  | program
  /-- An object for a library, which has none. -/
  | object
deriving DecidableEq, Repr

/-- One unit to be compiled. -/
structure CompilationUnit where
  template : String
  sourcePath : String
  /-- What the names of all static variables begin with. -/
  staticStem : String := ""
  kind : UnitKind := .program
  required : Requirements := .empty
deriving DecidableEq, Repr

namespace CompilationUnit

def staticName (unit : CompilationUnit) (name : String) : String :=
  unit.staticStem ++ name

def symbolsName (unit : CompilationUnit) : String :=
  unit.staticName "symbols"

def withStaticStem (unit : CompilationUnit) (stem : String) : CompilationUnit :=
  { unit with staticStem := stem }

def asObject (unit : CompilationUnit) : CompilationUnit :=
  { unit with kind := .object }

def requiring (unit : CompilationUnit) (name path : String) : CompilationUnit :=
  { unit with required := unit.required.insert name path }

end CompilationUnit

end UnitAssembly
