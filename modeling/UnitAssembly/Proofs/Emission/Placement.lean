import UnitAssembly.Emission
import UnitAssembly.Proofs.Emission.Statements
import UnitAssembly.Proofs.Template.Cut

/-!
Contract: the generated source of a whole unit, from the template to the indented text.

Owns:
- `Cut.Replaces`, what it means for a part of the source to stand where a marker stood;
- the ingredients of a unit in terms of the session operations of its front end, and the
  merged text that they make;
- the statements in the source of every unit whose template is accepted and whose front
  end succeeds, for every library.

The argument follows one section.  It is a part of the merged text, so the reader goes
through it in one stretch, and what it emits on the way is a part of the source.  The
statements are firm, so they come through that stretch as they stand, whatever place in
a line the reader is at when it meets them.

Does not own: sources that are refused.
-/

namespace UnitAssembly

open UnitAssembly.Text
open UnitAssembly.Layout (IsFirm Reader reindent)

/-! ## Where a marker stood -/

namespace Cut

theorem solid_joined
    {content content' : Marker → List Char}
    (same : ∀ marker, solid (content marker) = solid (content' marker))
    (parts : List (List Char × Marker))
    (last : List Char) :
    solid (joined content parts last) = solid (joined content' parts last) := by
  induction parts with
  | nil => rfl
  | cons part parts inductionHypothesis =>
      rw [joined, joined, solid_append, solid_append, solid_append, solid_append, same,
        inductionHypothesis]

/-- The text stands in the output where the marker stood in the template: but for white
space it is the content of the marker, and what stands around it is the rest of the
template with the other markers replaced. -/
def Replaces
    (cut : Cut)
    (content : Marker → List Char)
    (marker : Marker)
    (placed output : List Char) : Prop :=
  ∃ left gap right front back,
    cut.parts = left ++ (gap, marker) :: right ∧
      output = front ++ (placed ++ back) ∧
      solid front = solid (joined content left gap) ∧
      solid placed = solid (content marker) ∧
      solid back = solid (joined content right cut.last)

theorem Replaces.congr
    {cut : Cut}
    {content content' : Marker → List Char}
    {marker : Marker}
    {placed output : List Char}
    (same : ∀ marker, solid (content marker) = solid (content' marker))
    (replaces : cut.Replaces content marker placed output) :
    cut.Replaces content' marker placed output := by
  rcases replaces with ⟨left, gap, right, front, back, parts, whole, before, here, behind⟩
  refine ⟨left, gap, right, front, back, parts, whole, ?_, ?_, ?_⟩
  · rw [before, solid_joined same]
  · rw [here, same]
  · rw [behind, solid_joined same]

/-- What the reader emits on its way through the content of a marker replaces it. -/
theorem reindent_replaces
    {cut : Cut}
    {content : Marker → List Char}
    {text : String}
    {marker : Marker}
    (rendered : text.toList = cut.render content)
    (member : marker ∈ cut.parts.map Prod.snd) :
    ∃ reader : Reader,
      cut.Replaces content marker (reader.read (content marker)).1
        (reindent text).value.toList := by
  rcases List.mem_map.mp member with ⟨⟨gap, found⟩, part, rfl⟩
  rcases List.append_of_mem part with ⟨left, right, parts⟩
  rw [Layout.reindent_eq_read, rendered, render, parts, joined_append]
  simp only [Reader.read_append, List.append_assoc]
  refine ⟨_, left, gap, right, _, _, parts, rfl, ?_, ?_, ?_⟩
  · exact Reader.solid_read _ _
  · exact Reader.solid_read _ _
  · rw [solid_append, Reader.solid_read, solid_eq_nil (Reader.isBlankText_finish _),
      List.append_nil]

end Cut

/-- Where the sections of some ingredients are merged into a template and the whole is
re-indented, each marker is replaced by its statements and then by the text of others.
Statements that are firm come through as they stand. -/
theorem Ingredients.statements_placed
    (ingredients : Ingredients)
    {cut : Cut}
    {text merged : String}
    (isCut : cut.IsCutOf text)
    (rendered :
      merged.toList = cut.render fun marker => (ingredients.sectionText marker).toList)
    (marker : Marker) :
    ∃ lead trailing,
      cut.Replaces ingredients.content marker (lead ++ trailing) (reindent merged).value.toList ∧
        solid lead = solid (ingredients.pieces marker).flatten ∧
        solid trailing = solid (ingredients.remainder marker) ∧
        ((∀ piece ∈ ingredients.pieces marker, IsFirm piece) →
          Spaced (ingredients.pieces marker) lead) := by
  have sameSolid (marker : Marker) :
      solid (ingredients.sectionText marker).toList = solid (ingredients.content marker) := by
    rcases Assembly.sectionText_spaced ingredients marker with ⟨lead, trailing, split, spaced, rest⟩
    rw [split, solid_append, spaced.solid_eq, rest, ← solid_append]
    rfl
  have member : marker ∈ cut.parts.map Prod.snd :=
    isCut.markers.mem_iff.mpr (Marker.mem_all marker)
  rcases Cut.reindent_replaces rendered member with ⟨reader, replaces⟩
  rcases Assembly.sectionText_spaced ingredients marker with ⟨lead, trailing, split, spaced, rest⟩
  refine ⟨(reader.read lead).1, ((reader.read lead).2.read trailing).1, ?_, ?_, ?_, ?_⟩
  · have placed := replaces.congr sameSolid
    rw [split, Reader.read_append] at placed
    exact placed
  · rw [Reader.solid_read, spaced.solid_eq]
  · rw [Reader.solid_read, rest]
  · intro firm
    exact Layout.spaced_read spaced firm reader

/-! ## The ingredients of a run -/

/-- The declaration that an operation hoists, if it hoists one. -/
def SessionOperation.declaredText? : SessionOperation → Option String
  | .symbolRef _ => none
  | .intern _ => none
  | .lookup _ => none
  | .declare text => some text
  | .rememberInline _ _ => none

namespace Session

variable {unit : CompilationUnit}

theorem step_declarations (session : Session unit) (operation : SessionOperation) :
    (session.step operation).2.declarations.toList =
      session.declarations.toList ++ operation.declaredText?.toList := by
  cases operation with
  | declare text => exact Array.toList_push
  | symbolRef name => exact (List.append_nil _).symm
  | intern name => exact (List.append_nil _).symm
  | lookup name => exact (List.append_nil _).symm
  | rememberInline key name => exact (List.append_nil _).symm

theorem run_declarations (operations : List SessionOperation) (session : Session unit) :
    (session.run operations).2.declarations.toList =
      session.declarations.toList ++ operations.filterMap SessionOperation.declaredText? := by
  induction operations generalizing session with
  | nil => exact (List.append_nil _).symm
  | cons operation operations inductionHypothesis =>
      rw [run_cons, inductionHypothesis, step_declarations, List.append_assoc]
      cases declared : operation.declaredText? with
      | none =>
          rw [List.filterMap_cons_none declared]
          rfl
      | some text =>
          rw [List.filterMap_cons_some declared]
          rfl

theorem gathered_run
    (operations : List SessionOperation)
    (order : LinkOrder)
    (body : String) :
    Ingredients.gathered ((Session.start unit).run operations).2 order body =
      ⟨unit, order.names, (operations.filterMap SessionOperation.internedName?).eraseDups,
        operations.filterMap SessionOperation.declaredText?, body⟩ := by
  have declarations := run_declarations operations (Session.start unit)
  unfold Ingredients.gathered
  rw [start_run_names, declarations]
  rfl

end Session

namespace Emission

variable {unit : CompilationUnit} {σ : Type}

/-- Behind an accepted template the front end runs once, and its answer decides what is
emitted and what is recorded. -/
theorem emit_eq_of_accepted
    (files : FileSystem)
    (location : LibraryLocation)
    {frontend : Frontend unit σ}
    {before : σ}
    {template : Template}
    {ran : Traced ((Except FrontendFailure String × Session unit) × σ)}
    (parsed : Template.parse unit.template = .ok template)
    (runs : frontend (.start unit) before = ran) :
    emit files location unit frontend before =
      ⟨(match ran.value.1.1 with
          | .error failure => .error (.frontend failure)
          | .ok body => .ok (finish files location template ran.value.1.2 body).value,
          ran.value.2),
        .emissionStarted unit.sourcePath ::
          (ran.entries ++
            match ran.value.1.1 with
            | .error _ => []
            | .ok body => (finish files location template ran.value.1.2 body).entries)⟩ := by
  unfold emit
  rw [parsed]
  -- What is recorded changes no value, so the front end sees the state as it was.
  have recorded :
      (liftM (Traced.record (.emissionStarted unit.sourcePath)) : StateT σ Traced Unit) before =
        ⟨((), before), [.emissionStarted unit.sourcePath]⟩ :=
    rfl
  simp only [bind, StateT.bind, recorded, runs]
  obtain ⟨⟨⟨made, session⟩, after⟩, entries⟩ := ran
  cases made with
  | error failure => rfl
  | ok body =>
      -- Lifting the last steps and returning their value records nothing more.
      show Traced.mk _
        (_ :: (entries ++ ((finish files location template session body).entries ++ [] ++ []))) = _
      rw [List.append_nil, List.append_nil]
      rfl

theorem emit_of_accepted
    (files : FileSystem)
    (location : LibraryLocation)
    (frontend : Frontend unit σ)
    (before : σ)
    {template : Template}
    (parsed : Template.parse unit.template = .ok template) :
    (emit files location unit frontend before).value =
      let ran := (frontend (.start unit) before).value
      (match ran.1.1 with
        | .error failure => .error (.frontend failure)
        | .ok body => .ok (finish files location template ran.1.2 body).value,
        ran.2) := by
  rw [emit_eq_of_accepted files location parsed rfl]

/-- The value of a run whose front end succeeds: the sections are merged and the whole
is re-indented. -/
theorem emit_of_success
    (files : FileSystem)
    (location : LibraryLocation)
    {frontend : Frontend unit σ}
    {before after : σ}
    {template : Template}
    {session : Session unit}
    {body : String}
    (parsed : Template.parse unit.template = .ok template)
    (succeeds : (frontend (.start unit) before).value = ((.ok body, session), after)) :
    let order := LinkOrder.ofParts (Discovery.discover files location) unit.required.names
    (emit files location unit frontend before).value =
      (.ok (reindent
        (template.merge ((Assembly.assemble session order).value.sections body))).value,
        after) := by
  intro order
  rw [emit_of_accepted files location frontend before parsed, succeeds]
  rfl

/-- The source of a run whose front end performs session operations and succeeds: the
sections are those of its ingredients. -/
theorem emit_of_operations
    (files : FileSystem)
    (location : LibraryLocation)
    {frontend : Frontend unit σ}
    {before after : σ}
    {template : Template}
    {operations : List SessionOperation}
    {body : String}
    (parsed : Template.parse unit.template = .ok template)
    (succeeds :
      (frontend (.start unit) before).value =
        ((.ok body, ((Session.start unit).run operations).2), after)) :
    let ingredients : Ingredients :=
      { unit := unit
        modules :=
          (LinkOrder.ofParts (Discovery.discover files location) unit.required.names).names
        symbols := (operations.filterMap SessionOperation.internedName?).eraseDups
        declared := operations.filterMap SessionOperation.declaredText?
        body := body }
    let order := LinkOrder.ofParts (Discovery.discover files location) unit.required.names
    let session := ((Session.start unit).run operations).2
    let merged := template.merge ((Assembly.assemble session order).value.sections body)
    merged.toList =
        template.cut.render (fun marker => (ingredients.sectionText marker).toList) ∧
      (emit files location unit frontend before).value = (.ok (reindent merged).value, after) := by
  intro ingredients order session merged
  refine ⟨?_, emit_of_success files location parsed succeeds⟩
  have same : Ingredients.gathered session order body = ingredients :=
    Session.gathered_run operations order body
  rw [Template.merge_eq_render]
  simp only [Assembly.sections_get, same]

/-- **Every statement arrives.**  For every accepted template, library and front end
that succeeds after some session operations there is a source.  In it, each marker of the
template is replaced by its statements, verbatim, one behind the other and with nothing
but white space around them, and then by the text of others: for the declarations the
prototypes in link order and the array with one element per distinct symbol; for the
initializer calls the same modules in the same order, the designated one first; for the
bootstrap code one assignment per symbol by slot and, in a program, its name. -/
theorem emit_places_statements
    (files : FileSystem)
    (location : LibraryLocation)
    (unit : CompilationUnit)
    (frontend : Frontend unit σ)
    (before after : σ)
    (template : Template)
    (operations : List SessionOperation)
    (body : String)
    (parsed : Template.parse unit.template = .ok template)
    (succeeds :
      (frontend (.start unit) before).value =
        ((.ok body, ((Session.start unit).run operations).2), after))
    (requiredOneLine : ∀ name ∈ unit.required.names, '\n' ∉ name.toList)
    (stemOneLine : '\n' ∉ unit.staticStem.toList)
    (stemFirm : ∀ first, unit.staticStem.toList.head? = some first → isBlank first = false) :
    let ingredients : Ingredients :=
      { unit := unit
        modules :=
          (LinkOrder.ofParts (Discovery.discover files location) unit.required.names).names
        symbols := (operations.filterMap SessionOperation.internedName?).eraseDups
        declared := operations.filterMap SessionOperation.declaredText?
        body := body }
    ∃ (output : String) (cut : Cut),
      (emit files location unit frontend before).value = (.ok output, after) ∧
      cut.IsCutOf unit.template ∧
      (ingredients.statements .objectInit).head? = some "init_exception(env, self);" ∧
      ∀ marker : Marker, ∃ lead trailing : List Char,
        cut.Replaces ingredients.content marker (lead ++ trailing) output.toList ∧
        StandInOrder (ingredients.pieces marker) lead ∧
        Spaced (ingredients.pieces marker) lead ∧
        solid trailing = solid (ingredients.remainder marker) := by
  intro ingredients
  have isCut := Template.cut_isCutOf parsed
  have firm := ingredients.statements_firm
    (Discovery.lineFeed_not_mem_linked files location requiredOneLine) stemOneLine stemFirm
  rcases emit_of_operations files location parsed succeeds with ⟨rendered, emitted⟩
  refine ⟨_, template.cut, emitted, isCut, ?_, ?_⟩
  · show ((LinkOrder.ofParts _ _).names.map _).head? = _
    rw [LinkOrder.names_ofParts, List.map_cons, List.head?_cons, Ingredients.identifier_designated]
    rfl
  · intro marker
    rcases ingredients.statements_placed isCut rendered marker with
      ⟨lead, trailing, replaces, -, rest, spaced⟩
    have leadSpaced := spaced (firm marker)
    refine ⟨lead, trailing, replaces, leadSpaced.standInOrder ?_, leadSpaced, rest⟩
    intro piece listed
    exact (firm marker piece listed).ne_nil

/-- A program on the shuffled template that requires a module of a group. -/
def shuffledUnit : CompilationUnit where
  template := Template.shuffled.text
  sourcePath := "a\"b.rb"
  staticStem := "unit_"
  required := Requirements.empty.insert "net/http" "lib/net/http.rb"

/-- One module file in every directory. -/
def oneModule : FileSystem where
  list? _ := some [⟨FileName.ofText "io.rb", false⟩]
  content _ := .error .notFound

/-- A name twice, a name that is a line feed, and a declaration. -/
def sampleOperations : List SessionOperation :=
  [.symbolRef "each", .intern "\n", .declare "int hoisted;", .symbolRef "each"]

/-- A front end that counts the bodies it makes. -/
def countingFrontend : Frontend shuffledUnit Nat := fun session => do
  let (_, session) ← SessionOperation.performAll sampleOperations session
  modify (· + 1)
  return (.ok "\x7d # body", session)

def sampleIngredients : Ingredients where
  unit := shuffledUnit
  modules := ["exception", "io", "net/http"]
  symbols := ["each", "\n"]
  declared := ["int hoisted;"]
  body := "\x7d # body"

theorem emit_places_statements_shuffled :
    Template.parse shuffledUnit.template = .ok Template.shuffled ∧
      sampleIngredients.statements .declarations =
        ["Value init_exception(Env *env, Value self);",
          "Value init_io(Env *env, Value self);",
          "Value init_net_http(Env *env, Value self);",
          "static SymbolObject *unit_symbols[2] = \x7b\x7d;"] ∧
      sampleIngredients.statements .objectInit =
        ["init_exception(env, self);", "init_io(env, self);", "init_net_http(env, self);"] ∧
      sampleIngredients.statements .evalInit =
        ["unit_symbols[0] = SymbolObject::intern(\"each\", 4);",
          "unit_symbols[1] = SymbolObject::intern(\"\\n\", 1);",
          "env->global_set(\"$0\"_s, new StringObject \x7b \"a\\\"b.rb\" \x7d);"] ∧
      ∃ (output : String) (cut : Cut),
        (emit oneModule .default shuffledUnit countingFrontend 7).value = (.ok output, 8) ∧
        cut.IsCutOf shuffledUnit.template ∧
        ∀ marker : Marker, ∃ lead trailing : List Char,
          cut.Replaces sampleIngredients.content marker (lead ++ trailing) output.toList ∧
          StandInOrder (sampleIngredients.pieces marker) lead := by
  have parsed : Template.parse shuffledUnit.template = .ok Template.shuffled :=
    Template.parse_shuffled
  have linked :
      (LinkOrder.ofParts (Discovery.discover oneModule .default)
        shuffledUnit.required.names).names = ["exception", "io", "net/http"] := by
    cbv
  have interned :
      (sampleOperations.filterMap SessionOperation.internedName?).eraseDups = ["each", "\n"] := by
    decide
  have stemFirm (first : Char) (begins : shuffledUnit.staticStem.toList.head? = some first) :
      isBlank first = false := by
    obtain rfl := Option.some.inj begins
    decide
  have emitted :=
    emit_places_statements oneModule .default shuffledUnit countingFrontend 7 8 Template.shuffled
      sampleOperations "\x7d # body" parsed rfl (by decide) (by decide) stemFirm
  rw [linked, interned] at emitted
  rcases emitted with ⟨output, cut, made, isCut, -, placed⟩
  refine ⟨parsed, by decide +kernel, by decide +kernel, by decide +kernel, output, cut, made,
    isCut, ?_⟩
  intro marker
  rcases placed marker with ⟨lead, trailing, replaces, inOrder, -⟩
  exact ⟨lead, trailing, replaces, inOrder⟩

end Emission

end UnitAssembly
