import UnitAssembly.Trace

/-!
Contract: what a run shows of its trace on the error stream.

Owns:
- `LogLayer`, the lines that a filter and the recorded entries lead to;
- `LogLayer.shown`, which is nothing at all unless the environment sets a filter;
- `LogLayer.byTarget`, the layer that reads a filter as levels and targets.

A layer is a parameter of the program: what a run answers does not depend on it.
`byTarget` leaves out what a line owes to the clock and to the spans around it.

Does not own: what is recorded, or when.
-/

namespace UnitAssembly

/-- A way of showing a trace under a filter.  The remarks are about the filter itself; what
follows them is about the entries, so there is nothing where nothing was recorded. -/
structure LogLayer where
  remarks : String → List String
  lines : String → List TraceEntry → List String
  lines_nil : ∀ filter, lines filter [] = []

/-- How much of a trace is shown: each level shows what the levels before it show. -/
inductive LogLevel where
  | off
  | error
  | warn
  | info
  | debug
  | trace
deriving DecidableEq, Repr

namespace LogLevel

def all : List LogLevel := [.off, .error, .warn, .info, .debug, .trace]

def detail : LogLevel → Nat
  | .off => 0
  | .error => 1
  | .warn => 2
  | .info => 3
  | .debug => 4
  | .trace => 5

def name : LogLevel → String
  | .off => "OFF"
  | .error => "ERROR"
  | .warn => "WARN"
  | .info => "INFO"
  | .debug => "DEBUG"
  | .trace => "TRACE"

/-- A level is read from its name, in any case, or from its number. -/
def read? (word : String) : Option LogLevel :=
  all.find? fun level =>
    String.ofList (word.toList.map Char.toUpper) = level.name || word = toString level.detail

end LogLevel

/-- A part of a filter: the level for all targets with a given beginning. -/
structure LogDirective where
  target : String
  level : LogLevel
deriving DecidableEq, Repr

namespace LogDirective

def canBegin (character : Char) : Bool :=
  character.isAlphanum || character ∈ ['-', ':', '_', '['] || 128 ≤ character.toNat

/-- A directive is a level, a target, or both with an equals sign between them; a target alone
stands for all of its entries.  A bracket makes it one about spans, which have no target. -/
def read (text : String) : Except String LogDirective :=
  if !text.toList.head?.all canBegin then
    .error "invalid filter directive"
  else if '[' ∈ text.toList then
    .ok ⟨text, .off⟩
  else
    match text.toList.dropWhile (· != '=') with
    | [] => .ok (((LogLevel.read? text).map (⟨"", ·⟩)).getD ⟨text, .trace⟩)
    | _ :: word =>
        let target := String.ofList (text.toList.takeWhile (· != '='))
        match if word.isEmpty then some .trace else LogLevel.read? (String.ofList word) with
        | some level => .ok ⟨target, level⟩
        | none =>
            .error ("error parsing level filter: expected one of \"off\", \"error\", " ++
              "\"warn\", \"info\", \"debug\", \"trace\", or a number 0-5")

/-- The level for a target, by the directive with the longest beginning of it. -/
def levelFor (directives : List LogDirective) (target : String) : LogLevel :=
  let matching := directives.filter fun directive =>
    directive.target.toList.isPrefixOf target.toList
  (matching.foldl (fun best directive =>
    if best.target.length ≤ directive.target.length then directive else best) ⟨"", .off⟩).level

end LogDirective

def TraceEntry.target : TraceEntry → String
  | .emissionStarted _ | .bodyCompleted .. => "garnet_cpp::backend"
  | .symbolInterned .. => "garnet_cpp::symbols"
  | .enumerationStarted _ | .modulesDiscovered _ => "garnet_cpp::modules"
  | .assemblyStarted .. => "garnet_cpp::declarations"
  | .closersClamped _ => "garnet_cpp::reindent"

def TraceEntry.level : TraceEntry → LogLevel
  | .symbolInterned .. => .trace
  | _ => .debug

def TraceValue.words : TraceValue → String
  | .count number => toString number
  | .text words => "\"" ++ words ++ "\""

def TraceEntry.line (entry : TraceEntry) : String :=
  let report := entry.report
  entry.level.name ++ " " ++ entry.target ++ ": " ++ report.label ++
    String.join (report.fields.map fun (name, value) => " " ++ name ++ "=" ++ value.words)

namespace LogLayer

def filterVariable : String := "RUST_LOG"

/-- What a run writes about itself, given the filter that the environment sets and the entries
that were recorded. -/
def shown (log : LogLayer) : Option String → List TraceEntry → List String
  | none, _ => []
  | some filter, entries => log.remarks filter ++ log.lines filter entries

def directiveTexts (filter : String) : List String :=
  ((filter.toList.splitOn ',').filter (!·.isEmpty)).map String.ofList

/-- The layer that shows the events whose level is among those for their target, and remarks
on the directives that cannot be read. -/
def byTarget : LogLayer where
  remarks filter :=
    (directiveTexts filter).filterMap fun text =>
      match LogDirective.read text with
      | .ok _ => none
      | .error reason => some ("ignoring `" ++ text ++ "`: " ++ reason)
  lines filter entries :=
    let directives :=
      (directiveTexts filter).filterMap fun text => (LogDirective.read text).toOption
    (entries.filter fun entry =>
      entry.report.kind = .event &&
        entry.level.detail ≤ (LogDirective.levelFor directives entry.target).detail).map
      TraceEntry.line
  lines_nil _ := rfl

end LogLayer

end UnitAssembly
