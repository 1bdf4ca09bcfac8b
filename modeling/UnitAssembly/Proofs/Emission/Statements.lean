import UnitAssembly.Assembly
import UnitAssembly.Proofs.Layout.Stream
import UnitAssembly.Proofs.Library.LinkOrder
import UnitAssembly.Proofs.Library.Search
import UnitAssembly.Proofs.Symbols.References

/-!
Contract: the statements that a unit's generated source must hold, and the sections
that hold them.

Owns:
- `Ingredients`, all that the sections of a unit are made from, and the statements that
  follow from it for each marker, spelled out;
- `sections_get`, the sections of a unit as its statements, each on a line of its own;
- `sectionText_spaced`, each section as its statements with white space around them, and
  then the text that others wrote;
- `statements_firm`, the conditions under which every statement fits on a line and does
  not begin with white space.

Does not own: the template, or what re-indentation does to a section.
-/

namespace UnitAssembly

open UnitAssembly.Text
open UnitAssembly.Layout (IsFirm)

/-- What the sections of a unit are made from. -/
structure Ingredients where
  unit : CompilationUnit
  /-- The modules in link order. -/
  modules : List String
  /-- The symbols by slot. -/
  symbols : List String
  /-- The hoisted declarations in order. -/
  declared : List String
  body : String

namespace Ingredients

/-- The part of an initializer's name that tells the modules apart. -/
def identifier (name : String) : String :=
  String.ofList (name.toList.map fun character => if character = '/' then '_' else character)

def prototypes (ingredients : Ingredients) : List String :=
  ingredients.modules.map fun name =>
    "Value init_" ++ identifier name ++ "(Env *env, Value self);"

def array (ingredients : Ingredients) : String :=
  "static SymbolObject *" ++ ingredients.unit.staticStem ++ "symbols[" ++
    toString ingredients.symbols.length ++ "] = \x7b\x7d;"

def calls (ingredients : Ingredients) : List String :=
  ingredients.modules.map fun name => "init_" ++ identifier name ++ "(env, self);"

def initializers (ingredients : Ingredients) : List String :=
  ingredients.symbols.mapIdx fun slot name =>
    ingredients.unit.staticStem ++ "symbols[" ++ toString slot ++
      "] = SymbolObject::intern(" ++ StringLiteral.write name ++ ", " ++
      toString (Text.utf8 name).length ++ ");"

/-- The statement that binds the name of a program. -/
def bindings (ingredients : Ingredients) : List String :=
  match ingredients.unit.kind with
  | .object => []
  | .program =>
      ["env->global_set(\"$0\"_s, new StringObject \x7b " ++
        StringLiteral.write ingredients.unit.sourcePath ++ " \x7d);"]

/-- The statements that a section consists of or begins with. -/
def statements (ingredients : Ingredients) : Marker → List String
  | .declarations => ingredients.prototypes ++ [ingredients.array]
  | .objectInit => ingredients.calls
  | .evalInit => ingredients.initializers ++ ingredients.bindings
  | .evalBody => []

def pieces (ingredients : Ingredients) (marker : Marker) : List (List Char) :=
  (ingredients.statements marker).map String.toList

/-- The text of others in a section, which stands behind its statements. -/
def remainder (ingredients : Ingredients) : Marker → List Char
  | .declarations => (ingredients.declared.map String.toList).flatten
  | .objectInit => []
  | .evalInit => []
  | .evalBody => ingredients.body.toList

/-- A section but for its white space. -/
def content (ingredients : Ingredients) (marker : Marker) : List Char :=
  (ingredients.pieces marker).flatten ++ ingredients.remainder marker

/-- A section: each statement on a line of its own, with empty lines between the groups. -/
def sectionText (ingredients : Ingredients) : Marker → String
  | .declarations =>
      "\n\n".intercalate
        ["\n".intercalate ingredients.prototypes, ingredients.array,
          "\n".intercalate ingredients.declared]
  | .objectInit => "\n".intercalate ingredients.calls
  | .evalInit =>
      "\n\n".intercalate ("\n".intercalate ingredients.initializers :: ingredients.bindings)
  | .evalBody => ingredients.body

theorem length_prototypes (ingredients : Ingredients) :
    ingredients.prototypes.length = ingredients.modules.length :=
  List.length_map _

theorem length_calls (ingredients : Ingredients) :
    ingredients.calls.length = ingredients.modules.length :=
  List.length_map _

theorem length_initializers (ingredients : Ingredients) :
    ingredients.initializers.length = ingredients.symbols.length :=
  List.length_mapIdx

end Ingredients

/-! ## Sections -/

namespace Ingredients

variable {unit : CompilationUnit}

/-- The ingredients that a session and a link order give. -/
def gathered (session : Session unit) (order : LinkOrder) (body : String) : Ingredients :=
  ⟨unit, order.names, session.symbols.names.toList, session.declarations.toList, body⟩

section Gathered

variable (session : Session unit) (order : LinkOrder) (body : String)

theorem prototypes_gathered : (gathered session order body).prototypes = order.initPrototypes := by
  have prototype (name : String) :
      "Value init_" ++ identifier name ++ "(Env *env, Value self);" =
        ModuleName.initPrototype name := by
    apply String.toList_inj.mp
    simp [ModuleName.initPrototype, ModuleName.initFunction, ModuleName.identifierCharacter,
      identifier]
  unfold prototypes LinkOrder.initPrototypes
  simp only [gathered, prototype]

theorem array_gathered :
    (gathered session order body).array = session.symbols.arrayDeclaration unit.symbolsName := by
  show "static SymbolObject *" ++ unit.staticStem ++ "symbols[" ++
    toString session.symbols.names.toList.length ++ "] = \x7b\x7d;" = _
  unfold SymbolTable.arrayDeclaration SymbolTable.element SymbolTable.size
  rw [Array.length_toList]
  generalize session.symbols.names.size = size
  apply String.toList_inj.mp
  simp [CompilationUnit.symbolsName, CompilationUnit.staticName]

theorem calls_gathered : (gathered session order body).calls = order.initCalls := by
  have call (name : String) :
      "init_" ++ identifier name ++ "(env, self);" = ModuleName.initCall name := by
    unfold ModuleName.initCall ModuleName.initFunction identifier
    rfl
  unfold calls LinkOrder.initCalls
  simp only [gathered, call]

theorem initializers_gathered :
    (gathered session order body).initializers =
      session.symbols.initStatements unit.symbolsName := by
  have fills (slot : Nat) (name : String) :
      unit.staticStem ++ "symbols[" ++ toString slot ++ "] = SymbolObject::intern(" ++
          StringLiteral.write name ++ ", " ++ toString (Text.utf8 name).length ++ ");" =
        SymbolTable.initStatement unit.symbolsName slot name := by
    apply String.toList_inj.mp
    simp [SymbolTable.initStatement, SymbolTable.element, CompilationUnit.symbolsName,
      CompilationUnit.staticName, Text.length_utf8]
  unfold initializers SymbolTable.initStatements
  simp only [gathered, fills]

theorem bindings_gathered :
    (gathered session order body).bindings = (Assembly.programNameBinding? unit).toList := by
  unfold bindings Assembly.programNameBinding?
  simp only [gathered]
  cases unit.kind <;> rfl

end Gathered

end Ingredients

namespace Assembly

open Ingredients (gathered)

variable {unit : CompilationUnit}

/-- The sections of a unit are written from its statements. -/
theorem sections_get
    (session : Session unit)
    (order : LinkOrder)
    (body : String)
    (marker : Marker) :
    ((assemble session order).value.sections body).get marker =
      (gathered session order body).sectionText marker := by
  cases marker with
  | declarations =>
      rw [Ingredients.sectionText, Ingredients.prototypes_gathered, Ingredients.array_gathered]
      rfl
  | objectInit =>
      rw [Ingredients.sectionText, Ingredients.calls_gathered]
      rfl
  | evalInit =>
      rw [Ingredients.sectionText, Ingredients.initializers_gathered,
        Ingredients.bindings_gathered]
      show bootstrapText session = _
      unfold bootstrapText
      cases programNameBinding? unit with
      | none => exact String.intercalate_singleton.symm
      | some binding => rfl
  | evalBody => rfl

theorem isBlankText_lineFeed : IsBlankText "\n".toList := by
  intro character member
  rw [List.mem_singleton.mp member]
  rfl

theorem isBlankText_emptyLine : IsBlankText "\n\n".toList :=
  isBlankText_append isBlankText_lineFeed isBlankText_lineFeed

theorem spaced_lines (lines : List String) :
    Spaced (lines.map String.toList) ("\n".intercalate lines).toList := by
  rw [String.toList_intercalate]
  exact Spaced.intercalate isBlankText_lineFeed _

theorem toList_emptyLine_intercalate (first second : String) (rest : List String) :
    ("\n\n".intercalate (first :: second :: rest)).toList =
      first.toList ++ ("\n\n".toList ++ ("\n\n".intercalate (second :: rest)).toList) := by
  rw [String.toList_intercalate, String.toList_intercalate, List.map_cons, List.map_cons,
    List.intercalate_cons_cons, List.append_assoc]

/-- A section is its statements with white space around them, and then the text that
others wrote. -/
theorem sectionText_spaced (ingredients : Ingredients) (marker : Marker) :
    ∃ lead trailing,
      (ingredients.sectionText marker).toList = lead ++ trailing ∧
        Spaced (ingredients.pieces marker) lead ∧
        solid trailing = solid (ingredients.remainder marker) := by
  cases marker with
  | declarations =>
      refine ⟨("\n".intercalate ingredients.prototypes).toList ++
          ("\n\n".toList ++ ingredients.array.toList),
        "\n\n".toList ++ ("\n".intercalate ingredients.declared).toList, ?_, ?_, ?_⟩
      · unfold Ingredients.sectionText
        rw [toList_emptyLine_intercalate, toList_emptyLine_intercalate,
          String.intercalate_singleton, List.append_assoc, List.append_assoc]
      · unfold Ingredients.pieces Ingredients.statements
        rw [List.map_append]
        exact (spaced_lines ingredients.prototypes).append
          (.blank_append isBlankText_emptyLine (.single _))
      · rw [solid_append, solid_eq_nil isBlankText_emptyLine, List.nil_append]
        exact (spaced_lines ingredients.declared).solid_eq
  | objectInit =>
      exact ⟨_, [], (List.append_nil _).symm, spaced_lines ingredients.calls, rfl⟩
  | evalInit =>
      refine ⟨_, [], (List.append_nil _).symm, ?_, rfl⟩
      unfold Ingredients.sectionText Ingredients.pieces Ingredients.statements
      rw [List.map_append, Ingredients.bindings]
      cases ingredients.unit.kind with
      | object =>
          simp only [String.intercalate_singleton, List.map_nil, List.append_nil]
          exact spaced_lines ingredients.initializers
      | program =>
          simp only [toList_emptyLine_intercalate, String.intercalate_singleton]
          exact (spaced_lines ingredients.initializers).append
            (.blank_append isBlankText_emptyLine (.single _))
  | evalBody => exact ⟨[], ingredients.body.toList, rfl, .done isBlankText_nil, rfl⟩

end Assembly

/-! ## Modules -/

namespace Discovery

/-- The names that a library gives are harmless, so only the required ones matter. -/
theorem lineFeed_not_mem_linked
    (files : FileSystem)
    (location : LibraryLocation)
    {required : List String}
    (requiredOneLine : ∀ name ∈ required, '\n' ∉ name.toList) :
    ∀ name ∈ (LinkOrder.ofParts (discover files location) required).names,
      '\n' ∉ name.toList := by
  intro name linked
  rcases (LinkOrder.mem_names_iff _ _ name).mp linked with rfl | discovered | asked
  · decide
  · intro lineFeed
    have known := (characters_of_mem_discover discovered).2 _ lineFeed
    exact absurd known (by decide)
  · exact requiredOneLine name asked

end Discovery

/-! ## Firm statements -/

namespace Ingredients

theorem lineFeed_not_mem_identifier {name : String} (oneLine : '\n' ∉ name.toList) :
    '\n' ∉ (identifier name).toList := by
  unfold identifier
  rw [String.toList_ofList]
  intro member
  rcases List.mem_map.mp member with ⟨character, inName, replaced⟩
  split at replaced
  · exact absurd replaced (by decide)
  · rw [replaced] at inName
    exact oneLine inName

theorem identifier_designated : identifier LinkOrder.designated = "exception" := by
  decide

theorem lineFeed_not_mem_toString (number : Nat) : '\n' ∉ (toString number).toList := by
  show '\n' ∉ (Nat.repr number).toList
  rw [Nat.toList_repr]
  exact SymbolTable.not_mem_toDigits (by decide) number

section Firm

variable {ingredients : Ingredients} {statement : String}

theorem prototypes_firm
    (modulesOneLine : ∀ name ∈ ingredients.modules, '\n' ∉ name.toList)
    (listed : statement ∈ ingredients.prototypes) :
    IsFirm statement.toList := by
  rcases List.mem_map.mp listed with ⟨name, linked, rfl⟩
  have called : IsFirm "Value init_".toList := ⟨by decide, 'V', rfl, by decide⟩
  rw [String.toList_append, String.toList_append]
  exact (called.append (lineFeed_not_mem_identifier (modulesOneLine name linked))).append
    (by decide)

theorem array_firm (stemOneLine : '\n' ∉ ingredients.unit.staticStem.toList) :
    IsFirm ingredients.array.toList := by
  have declared : IsFirm "static SymbolObject *".toList := ⟨by decide, 's', rfl, by decide⟩
  unfold array
  rw [String.toList_append, String.toList_append, String.toList_append, String.toList_append]
  exact (((declared.append stemOneLine).append (by decide)).append
    (lineFeed_not_mem_toString _)).append (by decide)

theorem calls_firm
    (modulesOneLine : ∀ name ∈ ingredients.modules, '\n' ∉ name.toList)
    (listed : statement ∈ ingredients.calls) :
    IsFirm statement.toList := by
  rcases List.mem_map.mp listed with ⟨name, linked, rfl⟩
  have called : IsFirm "init_".toList := ⟨by decide, 'i', rfl, by decide⟩
  rw [String.toList_append, String.toList_append]
  exact (called.append (lineFeed_not_mem_identifier (modulesOneLine name linked))).append
    (by decide)

theorem initializers_firm
    (stemOneLine : '\n' ∉ ingredients.unit.staticStem.toList)
    (stemFirm : ∀ first, ingredients.unit.staticStem.toList.head? = some first →
      isBlank first = false)
    (listed : statement ∈ ingredients.initializers) :
    IsFirm statement.toList := by
  have element : IsFirm (ingredients.unit.staticStem ++ "symbols[").toList := by
    rw [String.toList_append]
    cases begins : ingredients.unit.staticStem.toList with
    | nil => exact ⟨by decide, 's', rfl, by decide⟩
    | cons first rest =>
        rw [begins] at stemOneLine stemFirm
        exact IsFirm.append ⟨stemOneLine, first, rfl, stemFirm first rfl⟩ (by decide)
  rcases List.mem_mapIdx.mp listed with ⟨slot, bound, rfl⟩
  rw [String.toList_append, String.toList_append, String.toList_append,
    String.toList_append, String.toList_append, String.toList_append]
  exact (((((element.append (lineFeed_not_mem_toString _)).append (by decide)).append
    (StringLiteral.lineFeed_not_mem_write _)).append (by decide)).append
    (lineFeed_not_mem_toString _)).append (by decide)

theorem bindings_firm (listed : statement ∈ ingredients.bindings) : IsFirm statement.toList := by
  unfold bindings at listed
  cases kind : ingredients.unit.kind with
  | object =>
      rw [kind] at listed
      cases listed
  | program =>
      rw [kind] at listed
      have bound : IsFirm "env->global_set(\"$0\"_s, new StringObject \x7b ".toList :=
        ⟨by decide, 'e', rfl, by decide⟩
      rw [List.mem_singleton.mp listed, String.toList_append, String.toList_append]
      exact (bound.append (StringLiteral.lineFeed_not_mem_write _)).append (by decide)

end Firm

/-- Every statement fits on a line and does not begin with white space, if the names it
is made from allow it.  Symbols and the source path need not: they are in literals. -/
theorem statements_firm
    (ingredients : Ingredients)
    (modulesOneLine : ∀ name ∈ ingredients.modules, '\n' ∉ name.toList)
    (stemOneLine : '\n' ∉ ingredients.unit.staticStem.toList)
    (stemFirm : ∀ first, ingredients.unit.staticStem.toList.head? = some first →
      isBlank first = false)
    (marker : Marker) :
    ∀ piece ∈ ingredients.pieces marker, IsFirm piece := by
  intro piece member
  rcases List.mem_map.mp member with ⟨statement, listed, rfl⟩
  cases marker with
  | declarations =>
      rcases List.mem_append.mp listed with prototype | array
      · exact prototypes_firm modulesOneLine prototype
      · rw [List.mem_singleton.mp array]
        exact array_firm stemOneLine
  | objectInit => exact calls_firm modulesOneLine listed
  | evalInit =>
      rcases List.mem_append.mp listed with fills | binds
      · exact initializers_firm stemOneLine stemFirm fills
      · exact bindings_firm binds
  | evalBody => cases listed

end Ingredients

end UnitAssembly
