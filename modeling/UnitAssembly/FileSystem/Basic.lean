import UnitAssembly.Text.Utf8

/-!
Contract: what can be seen of a file system.

Owns:
- `FileSystem`, the two observations that are made: the entries of a directory and
  the content of a file;
- names, which are bytes and need not be text;
- the reasons why a file cannot be read, and their wording;
- files read as text, and paths extended by a name.

Does not own: any particular file system.
-/

namespace UnitAssembly

inductive ReadFault where
  | notFound
  | notDirectory
  | isDirectory
  | nameTooLong
  | tooManyLinks
  /-- The path holds the character U+0000. -/
  | nulInPath
  | notText
  /-- Any other refusal of the system, in its words and with its number. -/
  | refused (description : String) (number : Nat)
deriving DecidableEq, Repr

def ReadFault.numbered (description : String) (number : Nat) : String :=
  description ++ " (os error " ++ Nat.repr number ++ ")"

def ReadFault.message : ReadFault → String
  | .notFound => numbered "No such file or directory" 2
  | .notDirectory => numbered "Not a directory" 20
  | .isDirectory => numbered "Is a directory" 21
  | .nameTooLong => numbered "File name too long" 36
  | .tooManyLinks => numbered "Too many levels of symbolic links" 40
  | .nulInPath => "file name contained an unexpected NUL byte"
  | .notText => "stream did not contain valid UTF-8"
  | .refused description number => numbered description number

structure FileName where
  bytes : List UInt8
deriving DecidableEq, Repr

namespace FileName

def ofText (text : String) : FileName :=
  ⟨Text.utf8 text⟩

def text? (name : FileName) : Option String :=
  String.fromUTF8? ⟨name.bytes.toArray⟩

end FileName

structure DirectoryEntry where
  name : FileName
  /-- Whether the entry, or what it links to, is a directory. -/
  isDirectory : Bool
deriving DecidableEq, Repr

/-- The observations made of a file system. -/
structure FileSystem where
  /-- The entries of the directory at a path, in no particular order; nothing if
  there is no such directory. -/
  list? : String → Option (List DirectoryEntry)
  content : String → Except ReadFault ByteArray

def FileSystem.readText (files : FileSystem) (path : String) : Except ReadFault String :=
  match files.content path with
  | .error fault => .error fault
  | .ok bytes =>
      match String.fromUTF8? bytes with
      | some text => .ok text
      | none => .error .notText

def joinPath (path name : String) : String :=
  if path.isEmpty || path.toList.getLast? == some '/' then path ++ name
  else path ++ "/" ++ name

end UnitAssembly
