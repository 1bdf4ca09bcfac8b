import UnitAssembly.Library.ModuleName

/-!
Contract: the order in which the modules of a unit are declared and initialized.

Owns:
- the designated module, which every unit links and which comes first;
- `LinkOrder.ofParts`, the order of the modules found on disk and of the required
  ones, each module once;
- the initializer calls in that order.

Does not own: how modules are found or required.
-/

namespace UnitAssembly

/-- Names sorted by code point, which is the order of their UTF-8 bytes. -/
def sortNames (names : List String) : List String :=
  names.mergeSort fun left right => decide (left ≤ right)

/-- The modules of a unit, in the order in which they are linked. -/
structure LinkOrder where
  names : List String
deriving DecidableEq, Repr

namespace LinkOrder

def designated : String := "exception"

/-- The designated module, then those found on disk by code point, then the
required ones as they were asked for.  A module that would come a second time is
left out. -/
def ofParts (discovered required : List String) : LinkOrder :=
  ⟨(designated :: (sortNames discovered ++ required)).eraseDups⟩

def size (order : LinkOrder) : Nat :=
  order.names.length

def isEmpty (order : LinkOrder) : Bool :=
  order.names.isEmpty

def contains (order : LinkOrder) (name : String) : Bool :=
  order.names.contains name

def initPrototypes (order : LinkOrder) : List String :=
  order.names.map ModuleName.initPrototype

def initCalls (order : LinkOrder) : List String :=
  order.names.map ModuleName.initCall

end LinkOrder

end UnitAssembly
