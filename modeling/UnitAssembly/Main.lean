import UnitAssembly.CommandLine

/-!
Contract: the program.

Owns: the look at the real file system that an invocation needs, the printing of the
result, and the exit code.

Does not own: anything that is decided from what is seen.
-/

namespace UnitAssembly.Main

def readFault (error : IO.Error) : ReadFault :=
  match error with
  | .noFileOrDirectory _ number description | .interrupted _ number description
  | .alreadyExists _ number description | .invalidArgument _ number description
  | .permissionDenied _ number description | .resourceExhausted _ number description
  | .inappropriateType _ number description | .noSuchThing _ number description
  | .otherError number description | .resourceBusy number description
  | .resourceVanished number description | .unsupportedOperation number description
  | .hardwareFault number description | .unsatisfiedConstraints number description
  | .illegalOperation number description | .protocolError number description
  | .timeExpired number description => ofNumber number.toNat description
  | .unexpectedEof => .refused "unexpected end of file" 0
  | .userError description => .refused description 0
where
  /-- The fault with a number of the system, and its words for all other numbers.
  Some calls report the number negated. -/
  ofNumber (number : Nat) (description : String) : ReadFault :=
    match if number < 0x80000000 then number else 0x100000000 - number with
    | 2 => .notFound
    | 20 => .notDirectory
    | 21 => .isDirectory
    | 36 => .nameTooLong
    | 40 => .tooManyLinks
    | other => .refused description.capitalize other

def lookAtFile (path : String) : IO (Except ReadFault ByteArray) := do
  try
    return .ok (← IO.FS.readBinFile path)
  catch error =>
    return .error (readFault error)

def lookAtDirectory (path : String) : IO (Option (List DirectoryEntry)) := do
  try
    let mut entries := []
    for entry in ← (IO.FS.DirEntry.mk path "").root.readDir do
      let isDirectory ← (IO.FS.DirEntry.mk (joinPath path entry.fileName) "").root.isDir
      entries := ⟨.ofText entry.fileName, isDirectory⟩ :: entries
    return some entries
  catch _ =>
    return none

def lookAtLibrary (root : String) : IO FileSystem := do
  let entries ← lookAtDirectory root
  let groups := (entries.getD []).filterMap Discovery.group?
  let paths := groups.map (joinPath root)
  let listings ← paths.mapM fun path => return (path, ← lookAtDirectory path)
  return {
    list? := fun path => if path = root then entries else (listings.lookup path).join
    content := fun _ => .error .notFound }

def look (environmentRoot : Option String) : Invocation → IO FileSystem
  | .help => return ⟨fun _ => none, fun _ => .error .notFound⟩
  | .modules root _ => lookAtLibrary (Command.locate environmentRoot root).root
  | .file _ path => do
      let content ← lookAtFile path
      return ⟨fun _ => none, fun _ => content⟩

end UnitAssembly.Main

open UnitAssembly in
def main (arguments : List String) : IO UInt32 := do
  let environmentRoot ← IO.getEnv LibraryLocation.rootVariable
  let files ←
    match CommandLine.parse arguments with
    | .ok invocation => Main.look environmentRoot invocation
    | .error _ => Main.look environmentRoot .help
  let filter ← IO.getEnv LogLayer.filterVariable
  let result := CommandLine.runLogged .byTarget filter files environmentRoot arguments
  IO.print result.stdout
  IO.eprint result.stderr
  return result.code
