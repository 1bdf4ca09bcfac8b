/-!
Contract: the modules that a unit asks for by name.

Owns:
- `Requirements`, a map from module name to path that keeps its entries in the
  order in which their names were first asked for;
- the reading of a request written as `name=path`.

Does not own: the order in which modules are linked.
-/

namespace UnitAssembly

/-- Required modules with their paths, by first request. -/
structure Requirements where
  entries : List (String × String)
deriving DecidableEq, Repr

namespace Requirements

def empty : Requirements := ⟨[]⟩

/-- Entries with one more request: a known name keeps its place and takes the new
path, an unknown one goes to the end. -/
def request (name path : String) : List (String × String) → List (String × String)
  | [] => [(name, path)]
  | entry :: rest =>
      if entry.1 = name then (name, path) :: rest else entry :: request name path rest

def insert (requirements : Requirements) (name path : String) : Requirements :=
  ⟨request name path requirements.entries⟩

def ofList (requests : List (String × String)) : Requirements :=
  requests.foldl (fun requirements entry => requirements.insert entry.1 entry.2) empty

def names (requirements : Requirements) : List String :=
  requirements.entries.map Prod.fst

def path? (requirements : Requirements) (name : String) : Option String :=
  requirements.entries.lookup name

def size (requirements : Requirements) : Nat :=
  requirements.entries.length

def isEmpty (requirements : Requirements) : Bool :=
  requirements.entries.isEmpty

/-- Read a request written as `name=path`.  The first equals sign divides the two,
so a path may hold more of them; neither part may be empty. -/
def parseRequest? (text : String) : Option (String × String) :=
  let name := text.toList.takeWhile (· != '=')
  match text.toList.dropWhile (· != '=') with
  | _ :: path =>
      if name.isEmpty || path.isEmpty then
        none
      else
        some (String.ofList name, String.ofList path)
  | [] => none

end Requirements

end UnitAssembly
