import UnitAssembly.Emission

/-!
Contract: the inspection commands.

Owns:
- `listModules`, the link order and the initializer calls of a library;
- `checkTemplate`, whether a file is a runtime template;
- `reindentFile`, a file with its lines indented by brace depth.

Each answers the text to print, or the reason why there is none.

Does not own: how the commands are asked for, or where their answers go.
-/

namespace UnitAssembly

inductive CommandFault where
  | template (path : String) (fault : TemplateFault)
  | read (path : String) (fault : ReadFault)
deriving DecidableEq, Repr

def CommandFault.message : CommandFault → String
  | .template path fault => path ++ ": " ++ fault.message
  | .read path fault => "cannot read '" ++ path ++ "': " ++ fault.message

namespace Command

/-- Texts, each ended by a line feed. -/
def terminated : List String → String
  | [] => ""
  | text :: rest => text ++ "\n" ++ terminated rest

/-- The module names of a link order, an empty line, and the initializer calls. -/
def moduleListing (order : LinkOrder) : String :=
  terminated order.names ++ "\n" ++ terminated order.initCalls

/-- The library at a named root, or else at the one that the environment names. -/
def locate (environmentRoot root : Option String) : LibraryLocation :=
  match root with
  | some root => { root := root }
  | none => .ofEnvironment environmentRoot

def listModules
    (files : FileSystem)
    (environmentRoot root : Option String)
    (required : List (String × String)) :
    Traced String := do
  let location := locate environmentRoot root
  let order ← Discovery.enumerate files location (Requirements.ofList required).names
  return moduleListing order

def checkTemplate (files : FileSystem) (path : String) : Except CommandFault String :=
  match files.readText path with
  | .error fault => .error (.read path fault)
  | .ok text =>
      match Template.parse text with
      | .error fault => .error (.template path fault)
      | .ok _ => .ok (path ++ ": ok\n")

def reindentFile (files : FileSystem) (path : String) :
    Traced (Except CommandFault String) :=
  match files.readText path with
  | .error fault => return .error (.read path fault)
  | .ok text => .ok <$> Layout.reindent text

end Command

end UnitAssembly
