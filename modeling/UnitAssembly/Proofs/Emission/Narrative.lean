import UnitAssembly.Proofs.Emission.Outcome
import UnitAssembly.Proofs.Symbols.Events

/-!
Contract: what the trace of an emission says, against what the emission did.

Owns:
- `Frontend.Performs`, front ends whose run is made of session operations;
- the trace of every emission in the words of a report, with each count read off the
  statements that stand in the source: an emission that is refused, one whose front end
  fails, and one that succeeds.

The entries come from different steps and from different states: slots are recorded while
the table grows, the counts when the front end is done, and the surplus braces only when
the merged text is walked over.

Does not own: the text of single statements.
-/

namespace UnitAssembly

open UnitAssembly.Text
open UnitAssembly.Layout (IsFirm reindent lines surplusClosers)

/-! ## Front ends that work through session operations -/

/-- The run of the front end is made of these operations on a new session: it records
what they record and leaves the session as they leave it.  Which operation comes next may
depend on the answers so far. -/
def Frontend.Performs
    {unit : CompilationUnit}
    {σ : Type}
    (frontend : Frontend unit σ)
    (before : σ)
    (operations : List SessionOperation)
    (made : Except FrontendFailure String)
    (after : σ) : Prop :=
  frontend (.start unit) before =
    (fun ran => ((made, ran.2), after)) <$>
      SessionOperation.performAll operations (Session.start unit)

namespace Frontend.Performs

variable
  {unit : CompilationUnit}
  {σ : Type}
  {frontend : Frontend unit σ}
  {before after : σ}
  {operations : List SessionOperation}
  {made : Except FrontendFailure String}

/-- It leaves the session of the operations, and records the symbols of its table. -/
theorem runs_eq (performs : frontend.Performs before operations made after) :
    frontend (.start unit) before =
      ⟨((made, ((Session.start unit).run operations).2), after),
        ((Session.start unit).run operations).2.symbols.record⟩ := by
  unfold Frontend.Performs at performs
  rw [performs]
  apply Traced.ext
  · rfl
  · rw [Session.run_record operations (Session.start_consistent unit)]
    exact List.append_nil _

end Frontend.Performs

/-! ## Entries of an emission -/

namespace Emission

variable {unit : CompilationUnit} {σ : Type}

theorem emit_entries_of_refusal
    (files : FileSystem)
    (location : LibraryLocation)
    (frontend : Frontend unit σ)
    (before : σ)
    {fault : TemplateFault}
    (refused : Template.parse unit.template = .error fault) :
    (emit files location unit frontend before).entries = [.emissionStarted unit.sourcePath] := by
  unfold emit
  rw [refused]
  rfl

theorem finish_entries
    (files : FileSystem)
    (location : LibraryLocation)
    (template : Template)
    (session : Session unit)
    (body : String) :
    let order := (Discovery.enumerate files location unit.required.names).value
    (finish files location template session body).entries =
      [TraceEntry.bodyCompleted session.symbols.size session.declarations.size
          session.inlineFunctions.size,
        TraceEntry.enumerationStarted location.root,
        TraceEntry.modulesDiscovered (Discovery.discover files location).length,
        TraceEntry.assemblyStarted session.symbols.size order.size session.declarations.size] ++
      (reindent
        (template.merge ((Assembly.assemble session order).value.sections body))).entries :=
  rfl

end Emission

/-! ## The trace in the words of a report -/

namespace Narrative

def generate (source : String) : TraceReport :=
  ⟨.span, "generate", [("source", .text source)]⟩

def internedSymbol (pair : Nat × String) : TraceReport :=
  ⟨.event, "interned symbol", [("symbol", .text pair.2), ("slot", .count pair.1)]⟩

/-- What is reported once the front end has succeeded: the counts of the statements in the
source and of what was found on the way to it. -/
def completion
    (root : String)
    (ingredients : Ingredients)
    (inlineKeys : List String)
    (found : List DirectoryEntry)
    (surplus : Nat) :
    List TraceReport :=
  [⟨.event, "translation complete",
      [("symbols", .count ingredients.initializers.length),
        ("declarations", .count ingredients.declared.length),
        ("inline_functions", .count inlineKeys.length)]⟩,
    ⟨.span, "enumerate", [("root", .text root)]⟩,
    ⟨.event, "library modules discovered", [("discovered", .count found.length)]⟩,
    ⟨.span, "assemble",
      [("symbols", .count ingredients.initializers.length),
        ("modules", .count ingredients.calls.length),
        ("declarations", .count ingredients.declared.length)]⟩] ++
  if 0 < surplus then
    [⟨.event, "unbalanced closing braces during reindent", [("clamped", .count surplus)]⟩]
  else []

end Narrative

theorem SymbolTable.report_record (table : SymbolTable) :
    table.record.map TraceEntry.report = table.toList.map Narrative.internedSymbol := by
  unfold record
  rw [List.map_map]
  rfl

namespace Emission

open Narrative (generate internedSymbol completion)

variable {unit : CompilationUnit} {σ : Type}

theorem finish_report
    (files : FileSystem)
    (location : LibraryLocation)
    (template : Template)
    {session : Session unit}
    {seen : List String}
    {order : LinkOrder}
    (keys : Session.HasKeys session.inlineFunctions seen)
    (linked : (Discovery.enumerate files location unit.required.names).value = order)
    (body : String) :
    (finish files location template session body).entries.map TraceEntry.report =
      completion location.root (.gathered session order body) seen.eraseDups
        (Discovery.moduleFiles files location)
        (surplusClosers (lines
          (template.merge ((Assembly.assemble session order).value.sections body)))) := by
  subst linked
  rw [finish_entries, Layout.reindent_entries, keys.size_eq, Discovery.length_discover]
  unfold completion
  rw [Ingredients.length_initializers, Ingredients.length_calls, List.map_append]
  split <;> rfl

/-- **The trace tells what the emission did.**  For every unit, library and front end: a
refused template leaves the opening span alone.  A front end that performs some session
operations and fails leaves that span and then one event for each distinct name it
interned, by slot, which are the pairs of its symbol table.  One that succeeds leaves the
same, then the completion.  Its counts are those of the initializers and calls that stand
in the source where their markers stood, of the declarations behind them, of the distinct
keys of inline functions, of the module files found, and of the lines that close nothing.
The array is declared with the number of the initializers, and there are as many prototypes
as calls. -/
theorem emit_trace
    (files : FileSystem)
    (location : LibraryLocation)
    (unit : CompilationUnit)
    (frontend : Frontend unit σ)
    (before : σ) :
    let emitted := emit files location unit frontend before
    let trace := emitted.entries.map TraceEntry.report
    (¬ Template.WellFormed unit.template → trace = [generate unit.sourcePath]) ∧
    ∀ (operations : List SessionOperation) (made : Except FrontendFailure String) (after : σ),
      Template.WellFormed unit.template →
      frontend.Performs before operations made after →
      let table := ((Session.start unit).run operations).2.symbols
      let opening := generate unit.sourcePath :: table.toList.map internedSymbol
      let ingredients (body : String) : Ingredients :=
        { unit := unit
          modules :=
            (LinkOrder.ofParts (Discovery.discover files location) unit.required.names).names
          symbols := (operations.filterMap SessionOperation.internedName?).eraseDups
          declared := operations.filterMap SessionOperation.declaredText?
          body := body }
      table.toList =
        (operations.filterMap SessionOperation.internedName?).eraseDups.mapIdx Prod.mk ∧
      match made with
      | .error failure => emitted.value = (.error (.frontend failure), after) ∧ trace = opening
      | .ok body =>
          (ingredients body).array =
            "static SymbolObject *" ++ unit.staticStem ++ "symbols[" ++
              toString (ingredients body).initializers.length ++ "] = \x7b\x7d;" ∧
          (ingredients body).prototypes.length = (ingredients body).calls.length ∧
          ∃ (cut : Cut) (merged : String),
            cut.IsCutOf unit.template ∧
            merged.toList =
              cut.render (fun marker => ((ingredients body).sectionText marker).toList) ∧
            emitted.value = (.ok (reindent merged).value, after) ∧
            (∀ marker : Marker, ∃ lead trailing : List Char,
              cut.Replaces (ingredients body).content marker (lead ++ trailing)
                (reindent merged).value.toList ∧
              solid lead = solid ((ingredients body).pieces marker).flatten ∧
              solid trailing = solid ((ingredients body).remainder marker) ∧
              ((∀ piece ∈ (ingredients body).pieces marker, IsFirm piece) →
                StandInOrder ((ingredients body).pieces marker) lead)) ∧
            trace =
              opening ++
                completion location.root (ingredients body)
                  (operations.filterMap SessionOperation.inlineKey?).eraseDups
                  (Discovery.moduleFiles files location) (surplusClosers (lines merged)) := by
  intro emitted trace
  constructor
  · intro malformed
    cases verdict : Template.parse unit.template with
    | ok template => exact absurd (Template.wellFormed_of_parse_eq_ok verdict) malformed
    | error fault =>
        show emitted.entries.map TraceEntry.report = _
        rw [emit_entries_of_refusal files location frontend before verdict]
        rfl
  · intro operations made after wellFormed performs table opening ingredients
    rcases Template.exists_parse_eq_ok wellFormed with ⟨template, parsed⟩
    have emits := emit_eq_of_accepted files location parsed performs.runs_eq
    refine ⟨congrArg (List.mapIdx Prod.mk) (Session.start_run_names unit operations), ?_⟩
    cases made with
    | error failure =>
        have entries : emitted.entries = .emissionStarted unit.sourcePath :: (table.record ++ []) :=
          congrArg Traced.entries emits
        refine ⟨congrArg Traced.value emits, ?_⟩
        show emitted.entries.map TraceEntry.report = opening
        rw [entries, List.append_nil, List.map_cons, SymbolTable.report_record]
        rfl
    | ok body =>
        have isCut := Template.cut_isCutOf parsed
        rcases emit_of_operations files location parsed
          (congrArg Traced.value performs.runs_eq) with ⟨rendered, source⟩
        have finished :=
          finish_report files location template (Session.start_run_hasKeys unit operations) rfl body
        have entries :
            emitted.entries =
              .emissionStarted unit.sourcePath ::
                (table.record ++
                  (finish files location template ((Session.start unit).run operations).2
                    body).entries) :=
          congrArg Traced.entries emits
        refine ⟨?_, ?_, template.cut, _, isCut, rendered, source, ?_, ?_⟩
        · rw [(ingredients body).length_initializers]
          rfl
        · rw [(ingredients body).length_prototypes, (ingredients body).length_calls]
        · intro marker
          rcases (ingredients body).statements_placed isCut rendered marker with
            ⟨lead, trailing, replaces, sameLead, rest, spaced⟩
          refine ⟨lead, trailing, replaces, sameLead, rest, ?_⟩
          intro firm
          exact (spaced firm).standInOrder fun piece listed => (firm piece listed).ne_nil
        · show emitted.entries.map TraceEntry.report = _
          rw [Session.gathered_run] at finished
          rw [entries, List.map_cons, List.map_append, SymbolTable.report_record, finished]
          rfl

/-- A name seen twice, two inline functions under one key, and a declaration. -/
def repeatedOperations : List SessionOperation :=
  [.symbolRef "each", .rememberInline "if" "f", .declare "int f();", .symbolRef "each",
    .rememberInline "if" "g", .intern "\n"]

/-- A body that closes a block that is not open and opens one that it does not close. -/
def unbalancedBody : String := "\x7d\nf() \x7b\n"

/-- A front end that performs these operations and counts the bodies it makes. -/
def repeatingFrontend : Frontend shuffledUnit Nat := fun session calls =>
  (fun ran => ((.ok unbalancedBody, ran.2), calls + 1)) <$>
    SessionOperation.performAll repeatedOperations session

/-- The template with the sections that come of it. -/
def repeatedMerge : String :=
  "\x7d
f() \x7b
init_exception(env, self);
init_io(env, self);
init_net_http(env, self);éunit_symbols[0] = SymbolObject::intern(\"each\", 4);
unit_symbols[1] = SymbolObject::intern(\"\\n\", 1);

env->global_set(\"$0\"_s, new StringObject \x7b \"a\\\"b.rb\" \x7d);
Value init_exception(Env *env, Value self);
Value init_io(Env *env, Value self);
Value init_net_http(Env *env, Value self);

static SymbolObject *unit_symbols[2] = \x7b\x7d;

int f();"

theorem emit_trace_repeated :
    Template.WellFormed shuffledUnit.template ∧
      repeatingFrontend.Performs 7 repeatedOperations (.ok unbalancedBody) 8 ∧
      (emit oneModule .default shuffledUnit repeatingFrontend 7).value =
        (.ok "\x7d
f() \x7b
    init_exception(env, self);
    init_io(env, self);
    init_net_http(env, self);éunit_symbols[0] = SymbolObject::intern(\"each\", 4);
    unit_symbols[1] = SymbolObject::intern(\"\\n\", 1);
   \x20
    env->global_set(\"$0\"_s, new StringObject \x7b \"a\\\"b.rb\" \x7d);
    Value init_exception(Env *env, Value self);
    Value init_io(Env *env, Value self);
    Value init_net_http(Env *env, Value self);
   \x20
    static SymbolObject *unit_symbols[2] = \x7b\x7d;
   \x20
    int f();", 8) ∧
      (emit oneModule .default shuffledUnit repeatingFrontend 7).entries.map TraceEntry.report =
        [⟨.span, "generate", [("source", .text "a\"b.rb")]⟩,
          ⟨.event, "interned symbol", [("symbol", .text "each"), ("slot", .count 0)]⟩,
          ⟨.event, "interned symbol", [("symbol", .text "\n"), ("slot", .count 1)]⟩,
          ⟨.event, "translation complete",
            [("symbols", .count 2), ("declarations", .count 1),
              ("inline_functions", .count 1)]⟩,
          ⟨.span, "enumerate", [("root", .text "src")]⟩,
          ⟨.event, "library modules discovered", [("discovered", .count 1)]⟩,
          ⟨.span, "assemble",
            [("symbols", .count 2), ("modules", .count 3), ("declarations", .count 1)]⟩,
          ⟨.event, "unbalanced closing braces during reindent", [("clamped", .count 1)]⟩] := by
  have wellFormed : Template.WellFormed shuffledUnit.template :=
    Template.wellFormed_of_parse_eq_ok Template.parse_shuffled
  have performs : repeatingFrontend.Performs 7 repeatedOperations (.ok unbalancedBody) 8 := rfl
  rcases (emit_trace oneModule .default shuffledUnit repeatingFrontend 7).2 repeatedOperations _ 8
    wellFormed performs with ⟨pairs, -, -, cut, merged, isCut, rendered, source, -, trace⟩
  have symbols :
      (repeatedOperations.filterMap SessionOperation.internedName?).eraseDups = ["each", "\n"] := by
    decide
  have declared : repeatedOperations.filterMap SessionOperation.declaredText? = ["int f();"] := rfl
  have linked :
      (LinkOrder.ofParts (Discovery.discover oneModule .default)
        shuffledUnit.required.names).names = ["exception", "io", "net/http"] := by
    cbv
  have found : (Discovery.moduleFiles oneModule .default).length = 1 := by cbv
  have keys : (repeatedOperations.filterMap SessionOperation.inlineKey?).eraseDups = ["if"] := by
    decide
  rw [symbols, declared, linked] at rendered trace
  have parts :
      cut =
        ⟨[([], .evalBody), ([], .objectInit), (['é'], .evalInit), (['\n'], .declarations)], []⟩ := by
    rw [Template.cut_unique Template.parse_shuffled isCut]
    cbv
  have sameMerge : repeatedMerge = merged := by
    apply String.ofList_eq.mpr
    rw [rendered, parts]
    decide +kernel
  rw [← sameMerge] at source trace
  refine ⟨wellFormed, performs, ?_, ?_⟩
  · rw [source]
    apply congrArg fun text => (Except.ok text, 8)
    apply Layout.reindent_value_ofList
    decide +kernel
  · have clamped : surplusClosers (lines repeatedMerge) = 1 := by
      apply Layout.surplusClosers_ofList
      decide +kernel
    unfold completion at trace
    rw [pairs, symbols, found, keys, clamped] at trace
    exact trace

end Emission

end UnitAssembly
