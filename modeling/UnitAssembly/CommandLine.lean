import UnitAssembly.Command
import UnitAssembly.Log
import UnitAssembly.Text.Affix

/-!
Contract: the command line.

Owns:
- the reading of arguments into an `Invocation`, and the reasons to refuse them;
- `CommandLine.perform`, from arguments to exit code and printed text, with what is recorded
  on the way;
- `CommandLine.runLogged`, the same with the record shown under a log filter, and
  `CommandLine.run`, where no filter is set.

Does not own: the commands themselves, how a record is shown, or the printing.
-/

namespace UnitAssembly

inductive FileCommand where
  | checkTemplate
  | reindent
deriving DecidableEq, Repr

/-- What the command line asks for. -/
inductive Invocation where
  | help
  | modules (root : Option String) (required : List (String × String))
  | file (command : FileCommand) (path : String)
deriving DecidableEq, Repr

inductive UsageFault where
  | noCommand
  | unknownCommand (name : String)
  | operandMissing (command : FileCommand)
  /-- What follows `--require=` is not of the form `name=path`. -/
  | malformedRequest (text : String)
deriving DecidableEq, Repr

/-- What a run of the program prints, and its exit code. -/
structure ProgramResult where
  code : UInt32
  stdout : String
  stderr : String
deriving DecidableEq, Repr

namespace CommandLine

def usage : String :=
  Command.terminated
    ["Garnet Compiler",
      "",
      "Usage: garnetc <command> [options]",
      "",
      "Commands:",
      "  modules [lib-root]         Print library module link order and init calls",
      "  check-template <file>      Validate runtime template markers",
      "  reindent <file>            Print a C++ file re-indented by brace depth",
      "  help                       Show this help message",
      "",
      "Options for modules:",
      "  --require=<name>=<path>    Append a required module (repeatable)",
      "",
      "Environment:",
      "  " ++ LibraryLocation.rootVariable ++
        "            Library root when none is given (default: src)",
      "  " ++ LogLayer.filterVariable ++
        "                   Enable debug logging, e.g. garnet_cpp=debug"]

def requestOption : String := "--require="

def readRequests (arguments : List String) : Except UsageFault (List (String × String)) :=
  (arguments.filterMap (Text.withoutBeginning? requestOption)).mapM fun text =>
    match Requirements.parseRequest? text with
    | some request => .ok request
    | none => .error (.malformedRequest text)

/-- The library root among the arguments of `modules`: the first that does not begin
with a dash.  The empty argument does not. -/
def readRoot (arguments : List String) : Option String :=
  arguments.find? fun argument => argument.toList.head? != some '-'

/-- Read the operand of a command that looks at one file; what follows it is ignored. -/
def readFileCommand (command : FileCommand) : List String → Except UsageFault Invocation
  | [] => .error (.operandMissing command)
  | path :: _ => .ok (.file command path)

def parse : List String → Except UsageFault Invocation
  | [] => .error .noCommand
  | command :: arguments =>
      match command with
      | "modules" => do
          let required ← readRequests arguments
          return .modules (readRoot arguments) required
      | "check-template" => readFileCommand .checkTemplate arguments
      | "reindent" => readFileCommand .reindent arguments
      | "help" | "--help" | "-h" => .ok .help
      | other => .error (.unknownCommand other)

def succeed (text : String) : ProgramResult := ⟨0, text, ""⟩

def fail (complaint : String) : ProgramResult := ⟨1, "", complaint ++ "\n"⟩

def refuse : UsageFault → ProgramResult
  | .noCommand => ⟨1, usage, ""⟩
  | .unknownCommand name => ⟨1, usage, "Unknown command: " ++ name ++ "\n\n"⟩
  | .operandMissing .checkTemplate =>
      fail "Usage: garnetc check-template <template.cpp>"
  | .operandMissing .reindent => fail "Usage: garnetc reindent <file.cpp>"
  | .malformedRequest text =>
      fail ("error: expected --require=<name>=<path>, got `" ++ requestOption ++ text ++ "`")

def conclude : Except CommandFault String → ProgramResult
  | .ok text => succeed text
  | .error fault => fail ("error: " ++ fault.message)

def execute
    (files : FileSystem)
    (environmentRoot : Option String) :
    Invocation → Traced ProgramResult
  | .help => return succeed usage
  | .modules root required =>
      succeed <$> Command.listModules files environmentRoot root required
  | .file .checkTemplate path => return conclude (Command.checkTemplate files path)
  | .file .reindent path => conclude <$> Command.reindentFile files path

/-- Read the arguments and do what they ask for, with the value of the environment variable
that names the library root. -/
def perform
    (files : FileSystem)
    (environmentRoot : Option String)
    (arguments : List String) :
    Traced ProgramResult :=
  match parse arguments with
  | .error fault => return refuse fault
  | .ok invocation => execute files environmentRoot invocation

/-- A run of the program with no log filter in the environment. -/
def run
    (files : FileSystem)
    (environmentRoot : Option String)
    (arguments : List String) :
    ProgramResult :=
  (perform files environmentRoot arguments).value

/-- A run of the program with the log filter that the environment sets, if it sets one.  What
the layer shows comes before a complaint. -/
def runLogged
    (log : LogLayer)
    (filter : Option String)
    (files : FileSystem)
    (environmentRoot : Option String)
    (arguments : List String) :
    ProgramResult :=
  let ⟨result, recorded⟩ := perform files environmentRoot arguments
  { result with stderr := Command.terminated (log.shown filter recorded) ++ result.stderr }

end CommandLine

end UnitAssembly
