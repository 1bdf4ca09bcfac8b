import UnitAssembly.Text.Affix

/-!
Contract: the names of library modules and of what is generated for them.

Owns:
- which texts may be a part of a module name found on disk;
- the stem of a module file;
- the initializer of a module: its function, prototype and call.

Does not own: which modules there are, or their order.
-/

namespace UnitAssembly.ModuleName

/-- Lower-case ASCII letters, ASCII digits and the underscore. -/
def isSegmentCharacter (character : Char) : Bool :=
  ('a' ≤ character && character ≤ 'z') || ('0' ≤ character && character ≤ '9') ||
    character == '_'

def isSegment (text : String) : Bool :=
  !text.toList.isEmpty && text.toList.all isSegmentCharacter

/-- The stem of a module file: what stands before the dot and the extension, if
that is a segment.  The extension may be empty, and may hold dots of its own. -/
def stem? (extension fileName : String) : Option String :=
  (Text.withoutEnding? ("." ++ extension) fileName).filter isSegment

def inGroup (group stem : String) : String :=
  group ++ "/" ++ stem

/-- A slash cannot stand in an identifier and becomes an underscore. -/
def identifierCharacter (character : Char) : Char :=
  if character = '/' then '_' else character

def initFunction (name : String) : String :=
  "init_" ++ String.ofList (name.toList.map identifierCharacter)

def initPrototype (name : String) : String :=
  "Value " ++ initFunction name ++ "(Env *env, Value self);"

def initCall (name : String) : String :=
  initFunction name ++ "(env, self);"

end UnitAssembly.ModuleName
