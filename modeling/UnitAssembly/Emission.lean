import UnitAssembly.Assembly
import UnitAssembly.Layout
import UnitAssembly.Library.Discovery

/-!
Contract: the generated source of a whole unit.

Owns:
- `Emission.emit`, from a unit, a library and a front end to the source, or to the
  reason why there is none;
- the order of the steps, which the trace shows.

The template is checked before the front end runs, and the front end runs at most
once.  Modules are looked for only after it has succeeded.

Does not own: any of the single steps.
-/

namespace UnitAssembly

inductive EmissionFault where
  /-- The template is at fault; the front end was not asked. -/
  | template (fault : TemplateFault)
  | frontend (failure : FrontendFailure)
deriving DecidableEq, Repr

def EmissionFault.message : EmissionFault → String
  | .template fault => "invalid runtime template: " ++ fault.message
  | .frontend failure => "translation failed: " ++ failure.message

namespace Emission

variable {unit : CompilationUnit} {σ : Type}

def finish
    (files : FileSystem)
    (location : LibraryLocation)
    (template : Template)
    (session : Session unit)
    (body : String) :
    Traced String := do
  Traced.record
    (.bodyCompleted session.symbols.size session.declarations.size
      session.inlineFunctions.size)
  let order ← Discovery.enumerate files location unit.required.names
  let assembly ← Assembly.assemble session order
  Layout.reindent (template.merge (assembly.sections body))

/-- The generated source of a unit.  The state is that of the front end. -/
def emit
    (files : FileSystem)
    (location : LibraryLocation)
    (unit : CompilationUnit)
    (frontend : Frontend unit σ) :
    StateT σ Traced (Except EmissionFault String) := do
  Traced.record (.emissionStarted unit.sourcePath)
  match Template.parse unit.template with
  | .error fault => return .error (.template fault)
  | .ok template =>
      let (made, session) ← frontend (.start unit)
      match made with
      | .error failure => return .error (.frontend failure)
      | .ok body => return .ok (← finish files location template session body)

end Emission

end UnitAssembly
