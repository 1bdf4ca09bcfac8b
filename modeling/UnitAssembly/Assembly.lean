import UnitAssembly.Library.LinkOrder
import UnitAssembly.Session
import UnitAssembly.Template

/-!
Contract: the generated text around the body of a unit.

Owns:
- the declarations, the initializer calls and the bootstrap statements that follow
  from a session and a link order;
- `Assembly.assemble`, all three with their entry in the trace.

Does not own: the body, or the template that the text goes into.
-/

namespace UnitAssembly

structure Assembly where
  declarations : String
  initCalls : String
  bootstrap : String
deriving DecidableEq, Repr

namespace Assembly

variable {unit : CompilationUnit}

/-- Prototypes of the initializers, the symbol array and the hoisted declarations,
with an empty line between them. -/
def declarationsText (session : Session unit) (order : LinkOrder) : String :=
  "\n\n".intercalate
    ["\n".intercalate order.initPrototypes,
      session.symbols.arrayDeclaration unit.symbolsName,
      session.renderDeclarations]

def initCallsText (order : LinkOrder) : String :=
  "\n".intercalate order.initCalls

/-- The statement that binds the program name, which an object does not have. -/
def programNameBinding? (unit : CompilationUnit) : Option String :=
  match unit.kind with
  | .object => none
  | .program =>
      some ("env->global_set(\"$0\"_s, new StringObject \x7b " ++
        StringLiteral.write unit.sourcePath ++ " \x7d);")

def bootstrapText (session : Session unit) : String :=
  let symbols := "\n".intercalate (session.symbols.initStatements unit.symbolsName)
  match programNameBinding? unit with
  | some binding => "\n\n".intercalate [symbols, binding]
  | none => symbols

def assemble (session : Session unit) (order : LinkOrder) : Traced Assembly := do
  Traced.record
    (.assemblyStarted session.symbols.size order.size session.declarations.size)
  return {
    declarations := declarationsText session order
    initCalls := initCallsText order
    bootstrap := bootstrapText session }

def sections (assembly : Assembly) (body : String) : Sections where
  declarations := assembly.declarations
  objectInit := assembly.initCalls
  evalInit := assembly.bootstrap
  evalBody := body

end Assembly

end UnitAssembly
