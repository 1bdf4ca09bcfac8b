import UnitAssembly.Text.Blank
import UnitAssembly.Trace

/-!
Contract: the indentation of generated code by brace depth.

Owns:
- what a single line does to the depth (`isDirective`, `closes`, `opens`);
- the walk over the lines that places each of them (`place`, `placeAll`);
- `reindent`, the walk over a whole text, with its entry in the trace.

A preprocessor directive, a line with `#` in its first column, stays as it stands
and leaves the depth alone.  Every other line loses its leading white space and
gains four spaces per open block.  Only the first and the last character of what
remains decide: braces inside a line, in strings or in comments are not looked at.

Does not own: the text that is indented.
-/

namespace UnitAssembly.Layout

def indentWidth : Nat := 4

/-- A line without its line feed. -/
abbrev Line := List Char

def content (line : Line) : Line :=
  line.dropWhile Text.isBlank

/-- A preprocessor directive has `#` in its first column. -/
def isDirective (line : Line) : Bool :=
  line.head? == some '#'

/-- A line whose content begins with a closing brace ends a block. -/
def closes (line : Line) : Bool :=
  (content line).head? == some '}'

/-- A line whose content ends with an opening brace begins a block. -/
def opens (line : Line) : Bool :=
  (content line).getLast? == some '{'

structure Position where
  /-- The blocks that are open. -/
  depth : Nat
  /-- The lines so far that closed a block where none was open. -/
  clamped : Nat
deriving DecidableEq, Repr

def Position.start : Position := ⟨0, 0⟩

/-- Leave a block; where none is open the depth stays and the line is counted. -/
def Position.leave (position : Position) : Position :=
  match position.depth with
  | 0 => { position with clamped := position.clamped + 1 }
  | depth + 1 => { position with depth := depth }

def Position.enter (position : Position) : Position :=
  { position with depth := position.depth + 1 }

def indented (depth : Nat) (line : Line) : Line :=
  List.replicate (indentWidth * depth) ' ' ++ content line

/-- Place one line: a closing line already stands at the depth outside its block,
an opening line still does. -/
def place (position : Position) (line : Line) : Line × Position :=
  if isDirective line then
    (line, position)
  else
    let before := if closes line then position.leave else position
    let after := if opens line then before.enter else before
    (indented before.depth line, after)

def placeAll (position : Position) : List Line → List Line × Position
  | [] => ([], position)
  | line :: rest =>
      let (placed, next) := place position line
      let (placedRest, last) := placeAll next rest
      (placed :: placedRest, last)

/-- The lines of a text: what stands between its line feeds, one more than there
are line feeds. -/
def lines (text : String) : List Line :=
  text.toList.splitOn '\n'

def unlines (lines : List Line) : String :=
  String.ofList (['\n'].intercalate lines)

/-- Re-indent a text by brace depth.  Lines that closed a block where none was open
are reported once, at the end, and only if there are any. -/
def reindent (text : String) : Traced String := do
  let (placed, last) := placeAll .start (lines text)
  if last.clamped > 0 then
    Traced.record (.closersClamped last.clamped)
  return unlines placed

end UnitAssembly.Layout
