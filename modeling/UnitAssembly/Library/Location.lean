/-!
Contract: where the library modules of a unit lie.

Owns:
- `LibraryLocation`, a root directory and a file extension, with their defaults;
- the environment variable that names the root.

Does not own: the search of the root.
-/

namespace UnitAssembly

/-- A directory of library modules and the extension of their files. -/
structure LibraryLocation where
  root : String
  extension : String := "rb"
deriving DecidableEq, Repr

namespace LibraryLocation

def rootVariable : String := "GARNET_LIB_ROOT"

def default : LibraryLocation where
  root := "src"

/-- The location for a value of the environment variable, which counts only when it
is set and not empty. -/
def ofEnvironment : Option String → LibraryLocation
  | none => default
  | some root => if root.isEmpty then default else { root := root }

end LibraryLocation

end UnitAssembly
