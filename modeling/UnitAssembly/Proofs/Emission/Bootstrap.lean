import Mathlib
import UnitAssembly.Proofs.Emission.Statements
import UnitAssembly.Proofs.StringLiteral.Phases

/-!
Contract: what the bootstrap statements of a unit say about it.

Owns:
- statements that can be told apart from their front, and texts of them, one to a line,
  that determine what they were made from;
- the last characters of the statements, by which a program is told from an object;
- `bootstrapText_eq_iff`, the units with the same bootstrap statements.

The names of static variables may begin with any text, one with line feeds or with the
look of a statement included.  So a text is not searched for boundaries.  From its front
it is read statement by statement: each begins in the same way in both texts, up to a
literal that ends where it ends.  From its end it is read by its last line, which holds
no static variable.

Does not own: how the statements get into the generated source.
-/

namespace UnitAssembly

/-! ## Statements on lines of their own -/

/-- The lines, each behind a line feed. -/
def behindLineFeeds (lines : List String) : List Char :=
  lines.flatMap fun line => '\n' :: line.toList

theorem lineFeed_cons_intercalate {lines : List String} (filled : lines ≠ []) :
    '\n' :: ("\n".intercalate lines).toList = behindLineFeeds lines := by
  unfold behindLineFeeds
  rw [String.toList_intercalate]
  induction lines with
  | nil => exact absurd rfl filled
  | cons line rest inductionHypothesis =>
      rw [List.flatMap_cons]
      cases rest with
      | nil => simp
      | cons second others =>
          rw [← inductionHypothesis (List.cons_ne_nil _ _), List.map_cons, List.map_cons,
            List.intercalate_cons_cons]
          simp

theorem suffix_intercalate (lines : List String) (line : String) :
    line.toList <:+ ("\n".intercalate (lines ++ [line])).toList := by
  rw [String.toList_intercalate, List.map_append, List.map_singleton]
  induction lines with
  | nil => rw [List.map_nil, List.nil_append, List.intercalate_singleton]
  | cons first rest inductionHypothesis =>
      rw [List.map_cons, List.cons_append, List.intercalate_cons_of_ne_nil (by simp)]
      exact List.suffix_append_of_suffix inductionHypothesis

/-- The last line of a text is what stands behind its last line feed. -/
theorem last_line_unique
    {front line front' line' : List Char}
    (oneLine : '\n' ∉ line)
    (oneLine' : '\n' ∉ line')
    (same : front ++ '\n' :: line = front' ++ '\n' :: line') :
    front = front' ∧ line = line' := by
  have sameLines := congrArg (List.splitOn '\n') same
  rw [List.splitOn_append_cons_self, List.splitOn_append_cons_self,
    List.splitOn_eq_singleton oneLine, List.splitOn_eq_singleton oneLine'] at sameLines
  have sameLine : line = line' := List.singleton_inj.mp (List.append_inj_right' sameLines rfl)
  rw [sameLine] at same
  exact ⟨List.append_cancel_right same, sameLine⟩

/-- Statements of one slot and different names differ, whatever stands behind them. -/
def ToldApart (statement : Nat → String → String) : Prop :=
  ∀ slot name name' behind behind',
    (statement slot name).toList ++ behind = (statement slot name').toList ++ behind' →
      name = name' ∧ behind = behind'

/-- The lines of statements that can be told apart determine the names, from the first
one on. -/
theorem ToldApart.names_eq
    {statement : Nat → String → String}
    (apart : ToldApart statement)
    {names names' : List String}
    (same :
      behindLineFeeds (names.mapIdx statement) = behindLineFeeds (names'.mapIdx statement)) :
    names = names' := by
  induction names generalizing statement names' with
  | nil =>
      cases names' with
      | nil => rfl
      | cons name' rest' => simp [behindLineFeeds] at same
  | cons name rest inductionHypothesis =>
      cases names' with
      | nil => simp [behindLineFeeds] at same
      | cons name' rest' =>
          simp only [behindLineFeeds, List.mapIdx_cons, List.flatMap_cons, List.cons_append,
            List.cons.injEq, true_and] at same
          obtain ⟨sameName, sameRest⟩ := apart _ _ _ _ _ same
          have later : ToldApart fun slot => statement (slot + 1) := fun slot => apart (slot + 1)
          rw [sameName, inductionHypothesis later sameRest]

/-! ## Symbols -/

namespace SymbolTable

theorem toList_initStatement (array : String) (slot : Nat) (name : String) :
    (initStatement array slot name).toList =
      (element array slot).toList ++
        (" = SymbolObject::intern(".toList ++
          ((StringLiteral.write name).toList ++
            (", ".toList ++ (Nat.toDigits 10 name.utf8ByteSize ++ ");".toList)))) := by
  unfold initStatement
  simp only [String.toList_append, Nat.toList_repr, List.append_assoc]

/-- A statement is read up to its literal, which gives the name and with it the rest. -/
theorem initStatement_toldApart (array : String) : ToldApart (initStatement array) := by
  intro slot name name' behind behind' same
  simp only [toList_initStatement, List.append_assoc, List.append_cancel_left_eq] at same
  have literal := congrArg StringLiteral.read same
  rw [StringLiteral.read_write, StringLiteral.read_write, Option.some.injEq, Prod.mk.injEq]
    at literal
  have sameName := Text.utf8_injective literal.1
  rw [sameName] at same
  simp only [List.append_cancel_left_eq] at same
  exact ⟨sameName, same⟩

/-- A text that ends as a statement does that fills an element of the array: with a digit
of the length in front of the bracket. -/
def EndsWithLength (text : List Char) : Prop :=
  ∃ digit, digit.isDigit = true ∧ [digit, ')', ';'] <:+ text

theorem initStatement_endsWithLength (array : String) (slot : Nat) (name : String) :
    EndsWithLength (initStatement array slot name).toList := by
  rcases List.eq_nil_or_concat' (Nat.toDigits 10 name.utf8ByteSize) with none | ⟨digits, digit, all⟩
  · exact absurd none Nat.toDigits_ne_nil
  · refine ⟨digit, ?_, ?_⟩
    · apply Nat.isDigit_of_mem_toDigits (by decide) (by decide : 10 ≤ 10)
      rw [all]
      exact List.mem_append_right digits List.mem_cons_self
    · rw [toList_initStatement, all, List.append_assoc]
      iterate 5 apply List.suffix_append_of_suffix
      exact List.suffix_refl _

/-- The statements that fill an array, one to a line. -/
def initText (table : SymbolTable) (array : String) : String :=
  "\n".intercalate (table.initStatements array)

theorem initText_endsWithLength
    {table : SymbolTable}
    (filled : table.names.toList ≠ [])
    (array : String) :
    EndsWithLength (table.initText array).toList := by
  rcases List.eq_nil_or_concat' table.names.toList with none | ⟨names, name, all⟩
  · exact absurd none filled
  · obtain ⟨digit, isDigit, ends⟩ := initStatement_endsWithLength array names.length name
    refine ⟨digit, isDigit, ends.trans ?_⟩
    rw [initText, initStatements, all, List.mapIdx_concat]
    exact suffix_intercalate _ _

theorem initText_eq_empty_iff (table : SymbolTable) (array : String) :
    table.initText array = "" ↔ table.names.toList = [] := by
  constructor
  · intro empty
    by_contra filled
    obtain ⟨digit, -, ends⟩ := initText_endsWithLength filled array
    rw [empty] at ends
    cases List.suffix_nil.mp ends
  · intro empty
    rw [initText, initStatements, empty]
    rfl

/-- The statements of a table determine its names, and with them their slots. -/
theorem names_eq_of_initText_eq
    {table table' : SymbolTable}
    {array : String}
    (same : table.initText array = table'.initText array) :
    table.names.toList = table'.names.toList := by
  by_cases empty : table.names.toList = []
  · have noText := (initText_eq_empty_iff table array).mpr empty
    rw [same, initText_eq_empty_iff] at noText
    rw [empty, noText]
  · have filled := mt (initText_eq_empty_iff table array).mp empty
    rw [same, initText_eq_empty_iff] at filled
    apply (initStatement_toldApart array).names_eq
    rw [← lineFeed_cons_intercalate (mt List.mapIdx_eq_nil_iff.mp empty),
      ← lineFeed_cons_intercalate (mt List.mapIdx_eq_nil_iff.mp filled)]
    exact congrArg (fun text : String => '\n' :: text.toList) same

theorem toList_eq_iff (table table' : SymbolTable) :
    table.toList = table'.toList ↔ table.names.toList = table'.names.toList := by
  constructor
  · intro same
    rw [← map_snd_toList, same, map_snd_toList]
  · intro same
    rw [toList, toList, same]

end SymbolTable

/-! ## Programs and objects -/

namespace Assembly

/-- The statement that binds the name of the program with a source path. -/
def nameBinding (sourcePath : String) : String :=
  "env->global_set(\"$0\"_s, new StringObject \x7b " ++ StringLiteral.write sourcePath ++
    " \x7d);"

theorem nameBinding_injective
    {sourcePath sourcePath' : String}
    (same : nameBinding sourcePath = nameBinding sourcePath') :
    sourcePath = sourcePath' := by
  unfold nameBinding at same
  rw [String.append_left_inj, String.append_right_inj] at same
  exact StringLiteral.write_injective same

theorem lineFeed_not_mem_nameBinding (sourcePath : String) :
    '\n' ∉ (nameBinding sourcePath).toList := by
  unfold nameBinding
  rw [String.toList_append, String.toList_append, List.mem_append, List.mem_append]
  rintro ((lead | literal) | trailing)
  · exact absurd lead (by decide)
  · exact StringLiteral.lineFeed_not_mem_write sourcePath literal
  · exact absurd trailing (by decide)

theorem nameBinding_ends (sourcePath : String) :
    ['}', ')', ';'] <:+ (nameBinding sourcePath).toList := by
  have trailing : " \x7d);".toList = [' '] ++ ['}', ')', ';'] := rfl
  unfold nameBinding
  simp only [String.toList_append, trailing]
  exact List.suffix_append_of_suffix (List.suffix_append _ _)

variable {unit : CompilationUnit}

theorem bootstrapText_of_object (object : unit.kind = .object) (session : Session unit) :
    bootstrapText session = session.symbols.initText unit.symbolsName := by
  unfold bootstrapText programNameBinding?
  rw [object]
  rfl

/-- The name of a program is bound on the last line. -/
theorem toList_bootstrapText_of_program
    (program : unit.kind = .program)
    (session : Session unit) :
    (bootstrapText session).toList =
      ((session.symbols.initText unit.symbolsName).toList ++ ['\n']) ++
        '\n' :: (nameBinding unit.sourcePath).toList := by
  unfold bootstrapText programNameBinding?
  rw [program]
  simp only
  rw [toList_emptyLine_intercalate, String.intercalate_singleton, List.append_assoc]
  rfl

/-- The last line of a program ends with a brace in front of the bracket, where a
statement of an object has a digit. -/
theorem bootstrapText_program_ne_object
    {unit' : CompilationUnit}
    (program : unit.kind = .program)
    (object : unit'.kind = .object)
    (session : Session unit)
    (session' : Session unit') :
    bootstrapText session ≠ bootstrapText session' := by
  intro same
  have brace : ['}', ')', ';'] <:+ (bootstrapText session).toList := by
    simp only [toList_bootstrapText_of_program program]
    apply List.suffix_append_of_suffix
    exact (nameBinding_ends unit.sourcePath).trans (List.suffix_cons _ _)
  rw [same, bootstrapText_of_object object] at brace
  have filled : session'.symbols.names.toList ≠ [] := by
    intro empty
    rw [(SymbolTable.initText_eq_empty_iff _ _).mpr empty] at brace
    cases List.suffix_nil.mp brace
  obtain ⟨digit, isDigit, ends⟩ := SymbolTable.initText_endsWithLength filled unit'.symbolsName
  have sameEnd : [digit, ')', ';'] = ['}', ')', ';'] :=
    (List.suffix_of_suffix_length_le ends brace (Nat.le_refl _)).eq_of_length rfl
  rw [List.head_eq_of_cons_eq sameEnd] at isDigit
  exact absurd isDigit (by decide)

theorem kind_eq_of_bootstrapText_eq
    {unit' : CompilationUnit}
    {session : Session unit}
    {session' : Session unit'}
    (same : bootstrapText session = bootstrapText session') :
    unit.kind = unit'.kind := by
  cases kind : unit.kind with
  | program =>
      cases kind' : unit'.kind with
      | program => rfl
      | object => exact absurd same (bootstrapText_program_ne_object kind kind' session session')
  | object =>
      cases kind' : unit'.kind with
      | program =>
          exact absurd same.symm (bootstrapText_program_ne_object kind' kind session' session)
      | object => rfl

/-- **The bootstrap statements determine what they initialize.**  Of two units whose
static names begin with the same text, whatever it is, the bootstrap texts are equal
exactly when the symbol tables have the same names in the same slots, both are programs
or both objects, and the programs have the same source path. -/
theorem bootstrapText_eq_iff
    {unit unit' : CompilationUnit}
    (sameStem : unit.staticStem = unit'.staticStem)
    (session : Session unit)
    (session' : Session unit') :
    bootstrapText session = bootstrapText session' ↔
      session.symbols.toList = session'.symbols.toList ∧
        unit.kind = unit'.kind ∧
        (unit.kind = .program → unit.sourcePath = unit'.sourcePath) := by
  have sameArray : unit.symbolsName = unit'.symbolsName := by
    unfold CompilationUnit.symbolsName CompilationUnit.staticName
    rw [sameStem]
  rw [SymbolTable.toList_eq_iff]
  constructor
  · intro same
    have sameKind := kind_eq_of_bootstrapText_eq same
    cases kind : unit.kind with
    | object =>
        rw [bootstrapText_of_object kind, bootstrapText_of_object (sameKind.symm.trans kind),
          ← sameArray] at same
        exact ⟨SymbolTable.names_eq_of_initText_eq same, kind ▸ sameKind, nofun⟩
    | program =>
        have sameLists := congrArg String.toList same
        rw [toList_bootstrapText_of_program kind,
          toList_bootstrapText_of_program (sameKind.symm.trans kind), ← sameArray] at sameLists
        obtain ⟨sameFront, sameBinding⟩ :=
          last_line_unique (lineFeed_not_mem_nameBinding _) (lineFeed_not_mem_nameBinding _)
            sameLists
        have sameSymbols := String.toList_inj.mp (List.append_cancel_right sameFront)
        have samePath := nameBinding_injective (String.toList_inj.mp sameBinding)
        exact ⟨SymbolTable.names_eq_of_initText_eq sameSymbols, kind ▸ sameKind, fun _ => samePath⟩
  · rintro ⟨sameNames, sameKind, samePath⟩
    have sameBinding : programNameBinding? unit = programNameBinding? unit' := by
      unfold programNameBinding?
      cases kind : unit.kind with
      | object => rw [← sameKind, kind]
      | program => rw [← sameKind, kind, samePath kind]
    unfold bootstrapText SymbolTable.initStatements
    rw [sameNames, sameArray, sameBinding]

/-- A program whose static names begin like the statement that binds its name, with a path
that goes on like a statement that fills an element. -/
def imitated : CompilationUnit where
  template := ""
  sourcePath := "symbols[0] = SymbolObject::intern("
  staticStem := "\n\nenv->global_set(\"$0\"_s, new StringObject \x7b \""

/-- Without any symbol, the bootstrap text of the program begins that of the object with
one symbol, and still they differ. -/
theorem bootstrapText_eq_iff_imitated :
    imitated.staticStem = imitated.asObject.staticStem ∧
      ∃ further,
        bootstrapText ((Session.start imitated.asObject).run [.intern " \x7d);"]).2 =
            bootstrapText (Session.start imitated) ++ further ∧
          bootstrapText (Session.start imitated) ≠
            bootstrapText ((Session.start imitated.asObject).run [.intern " \x7d);"]).2 := by
  have sameStem : imitated.staticStem = imitated.asObject.staticStem := rfl
  refine ⟨sameStem, "\", 4);", by cbv, ?_⟩
  intro same
  have determined := (bootstrapText_eq_iff sameStem _ _).mp same
  exact absurd determined.2.1 (by decide)

end Assembly

end UnitAssembly
