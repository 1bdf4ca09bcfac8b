import Std.Data.HashMap
import UnitAssembly.CompilationUnit
import UnitAssembly.SymbolTable

/-!
Contract: what the work on one unit gathers besides its body.

Owns:
- `Session`, the symbols, the hoisted declarations and the inline functions known so
  far;
- the operations on a session, as actions of `SessionM` and as data;
- `Frontend`, the source of a unit's body.

The unit is an index of the type, so no operation can exchange it.

Does not own: how the gathered things are written out.
-/

namespace UnitAssembly

/-- What has been gathered for a unit. -/
structure Session (unit : CompilationUnit) where
  symbols : SymbolTable
  declarations : Array String
  /-- The names of the inline functions that exist already, by what they do. -/
  inlineFunctions : Std.HashMap String String

abbrev SessionM (unit : CompilationUnit) := StateT (Session unit) Traced

structure FrontendFailure where
  message : String
deriving DecidableEq, Repr

/-- A front end makes the body of a unit.  It works on a session, which stays as it
left it even when it fails, and on a state of its own. -/
abbrev Frontend (unit : CompilationUnit) (σ : Type) :=
  Session unit → StateT σ Traced (Except FrontendFailure String × Session unit)

namespace Session

variable {unit : CompilationUnit}

def start (unit : CompilationUnit) : Session unit :=
  ⟨.empty, #[], ∅⟩

def renderDeclarations (session : Session unit) : String :=
  "\n".intercalate session.declarations.toList

def intern (name : String) : SessionM unit Nat := fun session => do
  let (slot, symbols) ← session.symbols.intern name
  return (slot, { session with symbols })

def symbolRef (name : String) : SessionM unit String := do
  let slot ← intern name
  return SymbolTable.element unit.symbolsName slot

def declare (text : String) : SessionM unit Unit :=
  modify fun session => { session with declarations := session.declarations.push text }

/-- Remember the name of an inline function; the name known before is returned. -/
def rememberInline (key name : String) : SessionM unit (Option String) :=
  modifyGet fun session =>
    (session.inlineFunctions[key]?,
      { session with inlineFunctions := session.inlineFunctions.insert key name })

end Session

inductive SessionOperation where
  | symbolRef (name : String)
  | intern (name : String)
  | lookup (name : String)
  | declare (text : String)
  | rememberInline (key name : String)
deriving DecidableEq, Repr

inductive SessionAnswer where
  | reference (expression : String)
  | slot (slot : Nat)
  | found (slot : Option Nat)
  | declared (count : Nat)
  | replaced (name : Option String)
deriving DecidableEq, Repr

namespace SessionOperation

variable {unit : CompilationUnit}

def perform : SessionOperation → SessionM unit SessionAnswer
  | .symbolRef name => .reference <$> Session.symbolRef name
  | .intern name => .slot <$> Session.intern name
  | .lookup name => do return .found ((← get).symbols.slot? name)
  | .declare text => do
      Session.declare text
      return .declared (← get).declarations.size
  | .rememberInline key name => .replaced <$> Session.rememberInline key name

def performAll : List SessionOperation → SessionM unit (List SessionAnswer)
  | [] => pure []
  | operation :: rest => do
      let answer ← operation.perform
      let answers ← performAll rest
      return answer :: answers

end SessionOperation

end UnitAssembly
