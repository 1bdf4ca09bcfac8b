import Std.Data.HashMap
import UnitAssembly.StringLiteral
import UnitAssembly.Trace

/-!
Contract: the symbols of one unit, each with a fixed slot of an array.

Owns:
- `SymbolTable.intern`, which gives a name its slot on first sight and the same
  slot ever after;
- the declaration of the array and the statements that fill it.

The slots are handed out in order from zero.  `names` lists the names by slot, and
`slots` is the same relation read the other way, so that a name is found at once.

Does not own: the name of the array.
-/

namespace UnitAssembly

/-- Names and their slots. -/
structure SymbolTable where
  names : Array String
  slots : Std.HashMap String Nat

namespace SymbolTable

def empty : SymbolTable := ⟨#[], ∅⟩

def size (table : SymbolTable) : Nat :=
  table.names.size

def isEmpty (table : SymbolTable) : Bool :=
  table.names.isEmpty

def slot? (table : SymbolTable) (name : String) : Option Nat :=
  table.slots[name]?

def append (table : SymbolTable) (name : String) : SymbolTable :=
  ⟨table.names.push name, table.slots.insert name table.size⟩

/-- The slot of a name.  A new name takes the next slot, which is recorded; a known
one leaves the table as it is. -/
def intern (table : SymbolTable) (name : String) : Traced (Nat × SymbolTable) :=
  match table.slot? name with
  | some slot => pure (slot, table)
  | none => do
      Traced.record (.symbolInterned name table.size)
      return (table.size, table.append name)

def toList (table : SymbolTable) : List (Nat × String) :=
  table.names.toList.mapIdx fun slot name => (slot, name)

def element (array : String) (slot : Nat) : String :=
  array ++ "[" ++ Nat.repr slot ++ "]"

def arrayDeclaration (table : SymbolTable) (array : String) : String :=
  "static SymbolObject *" ++ element array table.size ++ " = \x7b\x7d;"

/-- The statement that fills one element.  The length stands beside the literal
because a name may hold the byte zero. -/
def initStatement (array : String) (slot : Nat) (name : String) : String :=
  element array slot ++ " = SymbolObject::intern(" ++ StringLiteral.write name ++ ", " ++
    Nat.repr name.utf8ByteSize ++ ");"

def initStatements (table : SymbolTable) (array : String) : List String :=
  table.names.toList.mapIdx (initStatement array)

end SymbolTable

end UnitAssembly
