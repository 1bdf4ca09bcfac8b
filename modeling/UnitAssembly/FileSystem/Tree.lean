import UnitAssembly.FileSystem.Basic

/-!
Contract: a file system held in memory, with directories, files and links.

Owns:
- `FileTree` and the placing of nodes in it;
- `FileTree.resolve`, which follows a path to the place it leads to, or says why it
  leads nowhere;
- `FileTree.fileSystem`, the observations that can be made of a tree.

A path is followed one name at a time, from the top.  `..` goes to the parent of
the place reached so far, so that `a/..` leads somewhere only if `a` does, and
after a link it is the parent of what the link leads to.  The target of a link is a
path like any other: it is followed from the top too, and not from the directory that
holds the link, so that links are written as seen from the top.  The limits on the length
of a path and on the number of links hold for each path that is asked about as a
whole, also when it is the path of a directory with the name of an entry behind it.

Does not own: what the files mean.
-/

namespace UnitAssembly

/-- A place that a path can lead to. -/
inductive Place where
  /-- The way from the top of the tree, by name. -/
  | inside (names : List FileName)
  /-- Above the top, where there are directories of which nothing else is known. -/
  | outside
deriving DecidableEq, Repr

namespace Place

def top : Place := .inside []

def parent : Place → Place
  | .inside [] => .outside
  | .inside names => .inside names.dropLast
  | .outside => .outside

def child (name : FileName) : Place → Place
  | .inside names => .inside (names ++ [name])
  | .outside => .outside

end Place

inductive FileNode where
  | file (content : ByteArray)
  | directory
  /-- A link to a path, which is followed from the top of the tree and not from the directory
  that holds the link. -/
  | link (target : List UInt8)

/-- The nodes below the top, which is itself a directory, each with the names that
lead to it. -/
structure FileTree where
  nodes : List (List FileName × FileNode)

namespace FileTree

def empty : FileTree := ⟨[]⟩

/-! ## Paths -/

def maxNameLength : Nat := 255

/-- The length in bytes from which a path is refused. -/
def pathLengthLimit : Nat := 4096

def maxLinks : Nat := 40

def slash : UInt8 := 0x2F

def selfName : FileName := .ofText "."

def parentName : FileName := .ofText ".."

def namesOf (path : List UInt8) : List FileName :=
  (path.splitOn slash).map FileName.mk

/-- The place from which the names of a path are followed. -/
def origin (path : List UInt8) : Place :=
  if path.head? == some slash then .outside else .top

/-- The path of an entry of the directory at `path`. -/
def entryPath (path : List UInt8) (name : FileName) : List UInt8 :=
  if path.isEmpty || path.getLast? == some slash then path ++ name.bytes
  else path ++ slash :: name.bytes

/-! ## Following a path -/

def node? (tree : FileTree) : Place → Option FileNode
  | .inside [] => some .directory
  | .inside names => tree.nodes.lookup names
  | .outside => some .directory

def childNode? (tree : FileTree) (name : FileName) : Place → Option FileNode
  | .inside names => tree.nodes.lookup (names ++ [name])
  | .outside => none

def isDirectory (tree : FileTree) (place : Place) : Bool :=
  match tree.node? place with
  | some .directory => true
  | _ => false

/-- Follow names from a place that has been reached.  At a link the names of its
target take the place of the link, and `jump` follows them from where they begin.
`missing` says what to do when nothing stands behind the last name. -/
def walk
    (tree : FileTree)
    (missing : Place → Except ReadFault Place)
    (jump : Place → List FileName → Except ReadFault Place)
    (place : Place) :
    List FileName → Except ReadFault Place
  | [] => .ok place
  | name :: rest =>
      if !tree.isDirectory place then
        .error .notDirectory
      else if name.bytes.isEmpty ∨ name = selfName then
        walk tree missing jump place rest
      else if name = parentName then
        walk tree missing jump place.parent rest
      else if maxNameLength < name.bytes.length then
        .error .nameTooLong
      else
        match tree.childNode? name place with
        | none => if rest.isEmpty then missing (place.child name) else .error .notFound
        | some (.link target) => jump (origin target) (namesOf target ++ rest)
        | some _ => walk tree missing jump (place.child name) rest

/-- Follow names from a place that has been reached, over at most `links` links. -/
def follow (tree : FileTree) (missing : Place → Except ReadFault Place) :
    (links : Nat) → Place → List FileName → Except ReadFault Place
  | 0 => tree.walk missing fun _ _ => .error .tooManyLinks
  | links + 1 => tree.walk missing (tree.follow missing links)

def notThere (_ : Place) : Except ReadFault Place :=
  .error .notFound

def resolve (tree : FileTree) (path : List UInt8) : Except ReadFault Place :=
  if path.contains 0 then .error .nulInPath
  else if pathLengthLimit ≤ path.length then .error .nameTooLong
  else if path.isEmpty then .error .notFound
  else tree.follow notThere maxLinks (origin path) (namesOf path)

def leadsToDirectory (tree : FileTree) (path : List UInt8) : Bool :=
  match tree.resolve path with
  | .ok place => tree.isDirectory place
  | .error _ => false

/-! ## Observations -/

def namesIn (tree : FileTree) : Place → List FileName
  | .inside directory =>
      tree.nodes.filterMap fun (names, _) =>
        if names.dropLast = directory then names.getLast? else none
  | .outside => []

/-- The entries of the directory at a path.  Whether an entry is a directory is asked
by the path of the entry, so an entry whose path is too long is none. -/
def list? (tree : FileTree) (path : String) : Option (List DirectoryEntry) :=
  let bytes := Text.utf8 path
  match tree.resolve bytes with
  | .error _ => none
  | .ok place =>
      if tree.isDirectory place then
        some ((tree.namesIn place).map fun name =>
          ⟨name, tree.leadsToDirectory (entryPath bytes name)⟩)
      else
        none

def content (tree : FileTree) (path : String) : Except ReadFault ByteArray :=
  match tree.resolve (Text.utf8 path) with
  | .error fault => .error fault
  | .ok place =>
      match tree.node? place with
      | some (.file content) => .ok content
      | some .directory => .error .isDirectory
      | _ => .error .notFound

/-- The observations that can be made of a tree. -/
def fileSystem (tree : FileTree) : FileSystem where
  list? := tree.list?
  content := tree.content

/-! ## Placing nodes -/

/-- Put a node at a place; what stood there is gone.  Outside nothing is kept. -/
def set (tree : FileTree) (node : FileNode) : Place → FileTree
  | .inside names =>
      ⟨tree.nodes.filter (fun entry => entry.1 ≠ names) ++ [(names, node)]⟩
  | .outside => tree

/-- Step into a directory by name, and make it if nothing stands there. -/
def descend (state : FileTree × Place) (name : FileName) :
    Except ReadFault (FileTree × Place) :=
  let (tree, place) := state
  match tree.follow notThere maxLinks place [name], tree.childNode? name place with
  | .ok reached, _ => .ok (tree, reached)
  | .error .notFound, none => .ok (tree.set .directory (place.child name), place.child name)
  | .error fault, _ => .error fault

/-- Write a file by name in a directory.  A link is followed, and the file is made
where it leads even if nothing stands there yet. -/
def write (tree : FileTree) (content : ByteArray) (place : Place) (name : FileName) :
    Except ReadFault FileTree := do
  let reached ← tree.follow .ok maxLinks place [name]
  if tree.isDirectory reached then .error .isDirectory
  else .ok (tree.set (.file content) reached)

/-- Put a node at a path.  The directories on the way are made as needed.  A
directory that is already there stays, and a link is only made where nothing
stands. -/
def insert (tree : FileTree) (path : List UInt8) (node : FileNode) :
    Except ReadFault FileTree := do
  let names := (namesOf path).filter fun name => !name.bytes.isEmpty
  match names.getLast? with
  | none => .ok tree
  | some name =>
      let (grown, place) ← names.dropLast.foldlM descend (tree, origin path)
      match node, grown.childNode? name place with
      | .file content, _ => grown.write content place name
      | .directory, _ => Prod.fst <$> descend (grown, place) name
      | .link _, none => .ok (grown.set node (place.child name))
      | .link _, some _ => .ok grown

/-- The tree with the given nodes, put at their paths in this order.  A node that
cannot be put at its path is left out. -/
def ofList (entries : List (List UInt8 × FileNode)) : FileTree :=
  entries.foldl
    (fun tree (path, node) =>
      match tree.insert path node with
      | .ok grown => grown
      | .error _ => tree)
    empty

end FileTree

end UnitAssembly
