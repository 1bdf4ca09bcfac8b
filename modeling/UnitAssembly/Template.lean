import UnitAssembly.Text.Occurrence

/-!
Contract: runtime templates, texts with four places for generated code.

Owns:
- the four markers and their tokens;
- `Template.parse`, which accepts a text exactly when each token occurs in it once
  and no two of them overlap, and otherwise says what is wrong;
- `Template.merge`, which puts a section in the place of each marker.

Does not own: where a template comes from, or how the sections are made.
-/

namespace UnitAssembly

/-- A place for generated code in a runtime template. -/
inductive Marker where
  | declarations
  | objectInit
  | evalInit
  | evalBody
deriving DecidableEq, Repr

namespace Marker

def token : Marker → String
  | .declarations => "/*GARNET_DECLARATIONS*/"
  | .objectInit => "/*GARNET_OBJ_INIT*/"
  | .evalInit => "/*GARNET_EVAL_INIT*/"
  | .evalBody => "/*GARNET_EVAL_BODY*/"

/-- All markers, in the order in which a template is checked for them. -/
def all : List Marker :=
  [.declarations, .objectInit, .evalInit, .evalBody]

theorem mem_all (marker : Marker) : marker ∈ all := by
  cases marker <;> decide

end Marker

/-- Why a text is not a template. -/
inductive TemplateFault where
  | missing (marker : Marker)
  /-- The marker occurs `count` times, overlapping occurrences counted. -/
  | duplicated (marker : Marker) (count : Nat)
  /-- Each marker occurs once, but the second begins before the first ends. -/
  | overlapping (first second : Marker)
deriving DecidableEq, Repr

def TemplateFault.message : TemplateFault → String
  | .missing marker => "marker `" ++ marker.token ++ "` not found"
  | .duplicated marker count =>
      "marker `" ++ marker.token ++ "` appears " ++ Nat.repr count ++
        " times, expected exactly once"
  | .overlapping first second =>
      "markers `" ++ first.token ++ "` and `" ++ second.token ++ "` overlap"

structure Sections where
  declarations : String
  objectInit : String
  evalInit : String
  evalBody : String
deriving DecidableEq, Repr

def Sections.get (sections : Sections) : Marker → String
  | .declarations => sections.declarations
  | .objectInit => sections.objectInit
  | .evalInit => sections.evalInit
  | .evalBody => sections.evalBody

/-- The place of a marker in a text. -/
structure Slot where
  marker : Marker
  /-- The byte offset at which the token begins. -/
  offset : Nat
deriving DecidableEq, Repr

namespace Slot

def stop (slot : Slot) : Nat :=
  slot.offset + slot.marker.token.utf8ByteSize

def locate (text : String) (marker : Marker) : Except TemplateFault Slot :=
  match Text.occurrences marker.token text with
  | [] => .error (.missing marker)
  | [offset] => .ok ⟨marker, offset⟩
  | several => .error (.duplicated marker several.length)

/-- The leftmost two neighbours of which the second begins before the first ends. -/
def firstOverlap : List Slot → Option (Slot × Slot)
  | left :: right :: rest =>
      if right.offset < left.stop then some (left, right) else firstOverlap (right :: rest)
  | _ => none

end Slot

structure Template where
  text : String
  slots : List Slot
deriving DecidableEq, Repr

namespace Template

/-- Check a text for its markers.  Each marker is counted first, in the order of
`Marker.all`; only when all occur once is it asked whether two of them overlap. -/
def parse (text : String) : Except TemplateFault Template := do
  let found ← Marker.all.mapM (Slot.locate text)
  let slots := found.mergeSort fun left right => decide (left.offset ≤ right.offset)
  match Slot.firstOverlap slots with
  | some (first, second) => .error (.overlapping first.marker second.marker)
  | none => .ok ⟨text, slots⟩

/-- Put the sections into the slots of the text that is left from `cursor` on.  A
section is never looked at again, so a token inside it stays as it is. -/
def fill (sections : Sections) (cursor : Nat) (text : List Char) : List Slot → List Char
  | [] => text
  | slot :: slots =>
      let (gap, marked) := Text.splitAtByte (slot.offset - cursor) text
      let (_, rest) := Text.splitAtByte (slot.stop - slot.offset) marked
      gap ++ (sections.get slot.marker).toList ++ fill sections slot.stop rest slots

def merge (template : Template) (sections : Sections) : String :=
  String.ofList (fill sections 0 template.text.toList template.slots)

end Template

end UnitAssembly
