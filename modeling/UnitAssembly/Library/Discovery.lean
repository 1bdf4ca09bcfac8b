import UnitAssembly.FileSystem.Basic
import UnitAssembly.Library.LinkOrder
import UnitAssembly.Library.Location
import UnitAssembly.Trace

/-!
Contract: the search for library modules.

Owns:
- `discover`, the names of the modules below a library root;
- `enumerate`, the link order of the modules found and of the required ones.

A module is a file with the extension of the library, directly in the root or in a
group, a directory directly in the root.  Deeper directories are never opened.  What
cannot be listed holds no modules.

Does not own: the file system, or the names that are required.
-/

namespace UnitAssembly.Discovery

def moduleStem? (extension : String) (entry : DirectoryEntry) : Option String :=
  if entry.isDirectory then none
  else entry.name.text?.bind (ModuleName.stem? extension)

def group? (entry : DirectoryEntry) : Option String :=
  if entry.isDirectory then entry.name.text?.filter ModuleName.isSegment
  else none

def stemsIn (files : FileSystem) (extension path : String) : List String :=
  ((files.list? path).getD []).filterMap (moduleStem? extension)

/-- The modules that an entry of the root stands for: those of a group, or the
module itself, or none. -/
def modulesAt (files : FileSystem) (location : LibraryLocation) (entry : DirectoryEntry) :
    List String :=
  match group? entry with
  | some group =>
      (stemsIn files location.extension (joinPath location.root group)).map
        (ModuleName.inGroup group)
  | none => (moduleStem? location.extension entry).toList

/-- The modules of a library, in the order in which their directories list them. -/
def discover (files : FileSystem) (location : LibraryLocation) : List String :=
  ((files.list? location.root).getD []).flatMap (modulesAt files location)

def enumerate
    (files : FileSystem)
    (location : LibraryLocation)
    (required : List String) :
    Traced LinkOrder := do
  Traced.record (.enumerationStarted location.root)
  let discovered := discover files location
  Traced.record (.modulesDiscovered discovered.length)
  return .ofParts discovered required

end UnitAssembly.Discovery
