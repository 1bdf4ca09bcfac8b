import UnitAssembly.Proofs.StringLiteral.Reader
import UnitAssembly.Proofs.Symbols.Table
import UnitAssembly.Proofs.Text.Places

/-!
Contract: references to symbols, from the call that hands one out to the generated
code that it is used in.

Owns:
- array elements as text: different slots never give the same beginning of a statement;
- the validity of every reference, for every unit and every run of session operations.

A reference is a text and stays in the body as it is, while the size of the array and
the statements that fill it are written from the table at the end of the run.

Does not own: how the statements get into the generated source.
-/

namespace UnitAssembly

namespace SymbolTable

/-! ## Elements as text -/

theorem not_mem_toDigits
    {character : Char}
    (notDigit : character.isDigit = false)
    (number : Nat) :
    character ∉ Nat.toDigits 10 number := by
  intro member
  have digit := Nat.isDigit_of_mem_toDigits (by decide) (by decide) member
  rw [notDigit] at digit
  cases digit

theorem toDigits_injective
    {left right : Nat}
    (same : Nat.toDigits 10 left = Nat.toDigits 10 right) :
    left = right := by
  rw [← Nat.ofDigitChars_ten_toDigits (n := left), same, Nat.ofDigitChars_ten_toDigits]

theorem toList_element (array : String) (slot : Nat) :
    (element array slot).toList = array.toList ++ '[' :: (Nat.toDigits 10 slot ++ [']']) := by
  unfold element
  simp [String.toList_append]

/-- Texts that begin with elements of one array can only be equal when the slots are:
the digits of a slot end at the bracket. -/
theorem slot_eq_of_element_append
    {array : String}
    {slot slot' : Nat}
    {behind behind' : List Char}
    (same : (element array slot).toList ++ behind = (element array slot').toList ++ behind') :
    slot = slot' := by
  have digits (number : Nat) (rest : List Char) :
      (Nat.toDigits 10 number ++ ']' :: rest).takeWhile (· != ']') = Nat.toDigits 10 number := by
    rw [List.takeWhile_append_of_pos]
    · simp
    · intro character member
      have different : character ≠ ']' := fun bracket =>
        not_mem_toDigits (by decide : ']'.isDigit = false) number (bracket ▸ member)
      simpa using different
  simp only [toList_element, List.append_assoc, List.cons_append, List.nil_append,
    List.append_cancel_left_eq, List.cons.injEq, true_and] at same
  apply toDigits_injective
  rw [← digits slot behind, same, digits slot' behind']

theorem element_injective
    {array : String}
    {slot slot' : Nat}
    (same : element array slot = element array slot') :
    slot = slot' := by
  have asLists : (element array slot).toList ++ [] = (element array slot').toList ++ [] := by
    rw [same]
  exact slot_eq_of_element_append asLists

/-- The statement assigns some value to the target. -/
def Assigns (statement target : String) : Prop :=
  ∃ value, statement = target ++ " = " ++ value

theorem initStatement_assigns_iff (array : String) (slot slot' : Nat) (name : String) :
    Assigns (initStatement array slot name) (element array slot') ↔ slot = slot' := by
  constructor
  · intro assigns
    rcases assigns with ⟨value, same⟩
    have asLists := congrArg String.toList same
    unfold initStatement at asLists
    simp only [String.toList_append, List.append_assoc] at asLists
    exact slot_eq_of_element_append asLists
  · intro same
    subst same
    refine ⟨"SymbolObject::intern(" ++ StringLiteral.write name ++ ", " ++
      Nat.repr name.utf8ByteSize ++ ");", ?_⟩
    unfold initStatement
    apply String.toList_inj.mp
    simp [String.toList_append]

theorem getElem?_initStatements (table : SymbolTable) (array : String) (slot : Nat) :
    (table.initStatements array)[slot]? =
      (table.names.toList[slot]?).map (initStatement array slot) := by
  unfold initStatements
  rw [List.getElem?_mapIdx]

end SymbolTable

namespace Session

variable {unit : CompilationUnit}

/-- What a reference is worth when the run is over: its slot, and the name there. -/
theorem reference_slot
    {operations : List SessionOperation}
    {call : Nat}
    {name expression : String}
    (called : operations[call]? = some (.symbolRef name))
    (answered : ((Session.start unit).run operations).1[call]? = some (.reference expression)) :
    ∃ slot,
      expression = SymbolTable.element unit.symbolsName slot ∧
        ((Session.start unit).run operations).2.symbols.names.toList[slot]? = some name := by
  rcases run_reference operations (start_consistent unit) called with ⟨slot, reference, named⟩
  rw [reference] at answered
  cases answered
  exact ⟨slot, rfl, named⟩

theorem references_eq_iff
    {operations : List SessionOperation}
    {call call' : Nat}
    {name name' expression expression' : String}
    (called : operations[call]? = some (.symbolRef name))
    (called' : operations[call']? = some (.symbolRef name'))
    (answered : ((Session.start unit).run operations).1[call]? = some (.reference expression))
    (answered' : ((Session.start unit).run operations).1[call']? = some (.reference expression')) :
    expression = expression' ↔ name = name' := by
  rcases reference_slot called answered with ⟨slot, rfl, named⟩
  rcases reference_slot called' answered' with ⟨slot', rfl, named'⟩
  have consistent := run_consistent operations (start_consistent unit)
  constructor
  · intro same
    have sameSlot := SymbolTable.element_injective same
    rw [sameSlot, named'] at named
    exact (Option.some.inj named).symm
  · intro same
    have found := (consistent name slot).mpr named
    have found' := (consistent name' slot').mpr named'
    rw [same, found'] at found
    rw [Option.some.inj found]

/-- **References stay valid.**  After any run from a new session, every expression that
a `symbolRef` of the run answered is an element of the declared array; of all statements
that fill the array exactly the one at its slot assigns to it, with a literal that is
read as the UTF-8 bytes of the very name and with their number behind it; and two such
expressions are equal exactly when their names are. -/
theorem symbolRef_valid (unit : CompilationUnit) (operations : List SessionOperation) :
    let array := unit.staticStem ++ "symbols"
    let answers := ((Session.start unit).run operations).1
    let table := ((Session.start unit).run operations).2.symbols
    ∃ size : Nat,
      table.arrayDeclaration array =
        "static SymbolObject *" ++ array ++ "[" ++ toString size ++ "] = \x7b\x7d;" ∧
      (∀ (call : Nat) (name : String), operations[call]? = some (.symbolRef name) →
        ∃ (slot : Nat) (expression statement : String) (arguments : List Char),
          slot < size ∧
          expression = array ++ "[" ++ toString slot ++ "]" ∧
          answers[call]? = some (.reference expression) ∧
          (table.initStatements array)[slot]? = some statement ∧
          (∀ (index : Nat) (other : String), (table.initStatements array)[index]? = some other →
            (SymbolTable.Assigns other expression ↔ index = slot)) ∧
          statement = expression ++ " = SymbolObject::intern(" ++ String.ofList arguments ∧
          StringLiteral.read arguments =
            some (Text.utf8 name,
              (", " ++ toString (Text.utf8 name).length ++ ");").toList)) ∧
      ∀ (call call' : Nat) (name name' expression expression' : String),
        operations[call]? = some (.symbolRef name) →
        operations[call']? = some (.symbolRef name') →
        answers[call]? = some (.reference expression) →
        answers[call']? = some (.reference expression') →
        (expression = expression' ↔ name = name') := by
  intro array answers table
  refine ⟨table.size, ?_, ?_, ?_⟩
  · unfold SymbolTable.arrayDeclaration SymbolTable.element
    apply String.toList_inj.mp
    simp [String.toList_append]
  · intro call name called
    rcases run_reference operations (start_consistent unit) called with ⟨slot, answered, named⟩
    refine ⟨slot, SymbolTable.element array slot, SymbolTable.initStatement array slot name,
      (StringLiteral.write name ++ ", " ++ Nat.repr name.utf8ByteSize ++ ");").toList,
      ?_, rfl, answered, ?_, ?_, ?_, ?_⟩
    · exact (List.getElem?_eq_some_iff.mp named).1
    · rw [SymbolTable.getElem?_initStatements, named]
      rfl
    · intro index other found
      rw [SymbolTable.getElem?_initStatements, Option.map_eq_some_iff] at found
      rcases found with ⟨otherName, -, rfl⟩
      exact SymbolTable.initStatement_assigns_iff array index slot otherName
    · unfold SymbolTable.initStatement
      apply String.toList_inj.mp
      simp [String.toList_append]
    · rw [String.toList_append, String.toList_append, String.toList_append, List.append_assoc,
        List.append_assoc, StringLiteral.read_write, Text.length_utf8]
      simp [String.toList_append]
  · intro call call' name name' expression expression' called called' answered answered'
    exact references_eq_iff called called' answered answered'

end Session

end UnitAssembly
