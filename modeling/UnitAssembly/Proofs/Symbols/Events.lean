import UnitAssembly.Proofs.Symbols.Table

/-!
Contract: what a run of session operations records, and how many inline functions it
remembers.

Owns:
- the entries of one operation, and of a run: together with what the table held before,
  they are the table at the end, slot by slot;
- the number of inline functions, which is that of the distinct keys.

Does not own: the answers of the operations.
-/

namespace UnitAssembly

/-! ## Recorded symbols -/

/-- The entry for a name that took a slot. -/
def TraceEntry.ofSlot (pair : Nat × String) : TraceEntry :=
  .symbolInterned pair.2 pair.1

namespace SymbolTable

/-- The entries that a table has given rise to. -/
def record (table : SymbolTable) : List TraceEntry :=
  table.toList.map TraceEntry.ofSlot

theorem intern_record
    {table : SymbolTable}
    (consistent : table.Consistent)
    (name : String) :
    (table.intern name).value.2.record = table.record ++ (table.intern name).entries := by
  unfold record toList
  rw [intern_names consistent]
  unfold intern
  cases known : table.slot? name with
  | some slot =>
      have member : name ∈ table.names.toList := by
        rw [consistent.mem_iff, known]
        rfl
      rw [if_pos member]
      exact (List.append_nil _).symm
  | none =>
      have absent : name ∉ table.names.toList := by
        rw [consistent.mem_iff, known]
        simp
      rw [if_neg absent, List.mapIdx_concat, List.map_append, Array.length_toList]
      rfl

end SymbolTable

/-- The key under which an operation remembers an inline function, if it does. -/
def SessionOperation.inlineKey? : SessionOperation → Option String
  | .symbolRef _ => none
  | .intern _ => none
  | .lookup _ => none
  | .declare _ => none
  | .rememberInline key _ => some key

namespace Session

variable {unit : CompilationUnit}

theorem intern_entries (session : Session unit) (name : String) :
    (Session.intern name session).entries = (session.symbols.intern name).entries :=
  List.append_nil _

theorem symbolRef_entries (session : Session unit) (name : String) :
    (Session.symbolRef name session).entries = (session.symbols.intern name).entries :=
  (List.append_nil _).trans (intern_entries session name)

/-- All that an operation can record is the interning of its name. -/
theorem perform_entries (session : Session unit) (operation : SessionOperation) :
    (operation.perform session).entries =
      match operation.internedName? with
      | some name => (session.symbols.intern name).entries
      | none => [] := by
  cases operation with
  | symbolRef name => exact (List.append_nil _).trans (symbolRef_entries session name)
  | intern name => exact (List.append_nil _).trans (intern_entries session name)
  | lookup name => rfl
  | declare text => rfl
  | rememberInline key name => rfl

theorem step_record
    {session : Session unit}
    (consistent : session.symbols.Consistent)
    (operation : SessionOperation) :
    (session.step operation).2.symbols.record =
      session.symbols.record ++ (operation.perform session).entries := by
  rw [step_symbols, perform_entries]
  cases operation.internedName? with
  | some name => exact SymbolTable.intern_record consistent name
  | none => exact (List.append_nil _).symm

theorem performAll_entries_cons
    (session : Session unit)
    (operation : SessionOperation)
    (operations : List SessionOperation) :
    (SessionOperation.performAll (operation :: operations) session).entries =
      (operation.perform session).entries ++
        (SessionOperation.performAll operations (session.step operation).2).entries :=
  congrArg (_ ++ ·) (List.append_nil _)

/-- What a run records takes the table from where it was to where it is at the end. -/
theorem run_record
    (operations : List SessionOperation)
    {session : Session unit}
    (consistent : session.symbols.Consistent) :
    (session.run operations).2.symbols.record =
      session.symbols.record ++ (SessionOperation.performAll operations session).entries := by
  induction operations generalizing session with
  | nil => exact (List.append_nil _).symm
  | cons operation operations inductionHypothesis =>
      rw [run_cons, performAll_entries_cons, ← List.append_assoc, ← step_record consistent]
      exact inductionHypothesis (step_consistent consistent operation)

/-! ## Remembered inline functions -/

/-- The keys of the inline functions are those seen so far. -/
structure HasKeys (functions : Std.HashMap String String) (seen : List String) : Prop where
  mem_iff : ∀ key, key ∈ functions ↔ key ∈ seen
  size_eq : functions.size = seen.eraseDups.length

theorem HasKeys.empty : HasKeys ∅ [] where
  mem_iff := by simp
  size_eq := by simp

theorem HasKeys.insert
    {functions : Std.HashMap String String}
    {seen : List String}
    (keys : HasKeys functions seen)
    (key name : String) :
    HasKeys (functions.insert key name) (seen ++ [key]) where
  mem_iff := by
    intro other
    rw [Std.HashMap.mem_insert, keys.mem_iff, List.mem_append, List.mem_singleton, beq_iff_eq,
      or_comm, eq_comm]
  size_eq := by
    rw [Std.HashMap.size_insert, eraseDups_concat, keys.size_eq]
    simp only [keys.mem_iff]
    split
    · rfl
    · rw [List.length_append, List.length_singleton]

theorem step_hasKeys
    {session : Session unit}
    {seen : List String}
    (keys : HasKeys session.inlineFunctions seen)
    (operation : SessionOperation) :
    HasKeys (session.step operation).2.inlineFunctions
      (match operation.inlineKey? with
      | some key => seen ++ [key]
      | none => seen) := by
  cases operation with
  | rememberInline key name => exact keys.insert key name
  | symbolRef name => exact keys
  | intern name => exact keys
  | lookup name => exact keys
  | declare text => exact keys

/-- A run remembers one inline function for each key that it was given. -/
theorem run_hasKeys
    (operations : List SessionOperation)
    {session : Session unit}
    {seen : List String}
    (keys : HasKeys session.inlineFunctions seen) :
    HasKeys (session.run operations).2.inlineFunctions
      (seen ++ operations.filterMap SessionOperation.inlineKey?) := by
  induction operations generalizing session seen with
  | nil =>
      rw [List.filterMap_nil, List.append_nil]
      exact keys
  | cons operation operations inductionHypothesis =>
      have further := inductionHypothesis (step_hasKeys keys operation)
      rw [run_cons]
      cases remembered : operation.inlineKey? with
      | none =>
          rw [remembered] at further
          rw [List.filterMap_cons_none remembered]
          exact further
      | some key =>
          rw [remembered] at further
          rw [List.filterMap_cons_some remembered, List.append_cons]
          exact further

theorem start_run_hasKeys (unit : CompilationUnit) (operations : List SessionOperation) :
    HasKeys ((Session.start unit).run operations).2.inlineFunctions
      (operations.filterMap SessionOperation.inlineKey?) := by
  have nothingSeen : HasKeys (Session.start unit).inlineFunctions [] := HasKeys.empty
  exact run_hasKeys operations nothingSeen

end Session

end UnitAssembly
