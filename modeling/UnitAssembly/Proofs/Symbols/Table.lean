import UnitAssembly.Proofs.FirstSeen
import UnitAssembly.Session

/-!
Contract: what interning keeps, along every run of session operations.

Owns:
- `SymbolTable.Consistent`, the agreement of the two halves of a table;
- what one `intern` does to a table, and its consequences for a whole run: agreement,
  slots that stay, and the names in the order in which they were first seen;
- the answer to every `symbolRef` of a run, in terms of the table at its end.

Does not own: the generated text of a table.
-/

namespace UnitAssembly

namespace SymbolTable

/-- A name has a slot exactly when it is the name of that slot. -/
def Consistent (table : SymbolTable) : Prop :=
  ∀ name slot, table.slot? name = some slot ↔ table.names.toList[slot]? = some name

theorem consistent_empty : empty.Consistent := by
  intro name slot
  simp [empty, slot?]

theorem Consistent.mem_iff
    {table : SymbolTable}
    (consistent : table.Consistent)
    (name : String) :
    name ∈ table.names.toList ↔ (table.slot? name).isSome = true := by
  rw [List.mem_iff_getElem?, Option.isSome_iff_exists]
  exact exists_congr fun slot => (consistent name slot).symm

theorem consistent_append
    {table : SymbolTable}
    {name : String}
    (consistent : table.Consistent)
    (fresh : table.slot? name = none) :
    (table.append name).Consistent := by
  intro other slot
  have absent : name ∉ table.names.toList := by
    rw [consistent.mem_iff, fresh]
    simp
  have lookup :
      (table.append name).slot? other =
        if name = other then some table.names.toList.length else table.slot? other := by
    unfold append slot? size
    rw [Std.HashMap.getElem?_insert]
    simp
  have listed : (table.append name).names.toList = table.names.toList ++ [name] := by
    unfold append
    simp
  rw [lookup, listed, List.getElem?_append]
  by_cases same : name = other
  · subst same
    rw [if_pos rfl]
    by_cases inside : slot < table.names.toList.length
    · -- An old slot holds another name, since the new one was absent.
      rw [if_pos inside, Option.some.injEq]
      constructor
      · intro last
        omega
      · intro found
        exact absurd (List.mem_of_getElem? found) absent
    · rw [if_neg inside, Option.some.injEq]
      constructor
      · intro last
        rw [← last, Nat.sub_self]
        rfl
      · intro found
        have first := (List.getElem?_eq_some_iff.mp found).1
        simp only [List.length_singleton] at first
        omega
  · rw [if_neg same, consistent other slot]
    by_cases inside : slot < table.names.toList.length
    · rw [if_pos inside]
    · rw [if_neg inside]
      constructor
      · intro found
        exact absurd (List.getElem?_eq_some_iff.mp found).1 inside
      · intro found
        have member := List.mem_of_getElem? found
        exact absurd (List.mem_singleton.mp member).symm same

theorem Consistent.nodup {table : SymbolTable} (consistent : table.Consistent) :
    table.names.toList.Nodup := by
  rw [List.nodup_iff_injective_getElem]
  intro left right same
  change table.names.toList[left.val] = table.names.toList[right.val] at same
  have atLeft : table.slot? table.names.toList[left.val] = some left.val :=
    (consistent _ _).mpr (List.getElem?_eq_getElem left.isLt)
  have atRight : table.slot? table.names.toList[right.val] = some right.val :=
    (consistent _ _).mpr (List.getElem?_eq_getElem right.isLt)
  rw [same] at atLeft
  rw [atLeft] at atRight
  exact Fin.ext (Option.some.inj atRight)

theorem getElem?_toList (table : SymbolTable) (slot : Nat) :
    table.toList[slot]? = (table.names.toList[slot]?).map fun name => (slot, name) := by
  rw [toList, List.getElem?_mapIdx]

theorem getElem?_toList_eq_some_iff (table : SymbolTable) (slot : Nat) (name : String) :
    table.toList[slot]? = some (slot, name) ↔ table.names.toList[slot]? = some name := by
  rw [getElem?_toList, Option.map_eq_some_iff]
  simp

theorem map_snd_toList (table : SymbolTable) :
    table.toList.map Prod.snd = table.names.toList := by
  apply List.ext_getElem?
  intro slot
  rw [List.getElem?_map, getElem?_toList, Option.map_map]
  cases table.names.toList[slot]? <;> rfl

/-! ## One call of `intern` -/

theorem intern_consistent
    {table : SymbolTable}
    (consistent : table.Consistent)
    (name : String) :
    (table.intern name).value.2.Consistent := by
  unfold intern
  cases known : table.slot? name with
  | some slot => exact consistent
  | none => exact consistent_append consistent known

theorem intern_names
    {table : SymbolTable}
    (consistent : table.Consistent)
    (name : String) :
    (table.intern name).value.2.names.toList =
      if name ∈ table.names.toList then table.names.toList else table.names.toList ++ [name] := by
  unfold intern
  cases known : table.slot? name with
  | some slot =>
      have member : name ∈ table.names.toList := by
        rw [consistent.mem_iff, known]
        rfl
      rw [if_pos member]
      rfl
  | none =>
      have absent : name ∉ table.names.toList := by
        rw [consistent.mem_iff, known]
        simp
      rw [if_neg absent]
      show (table.names.push name).toList = _
      rw [Array.toList_push]

/-- A table that lists the names seen so far by first sight does so after a call, too. -/
theorem intern_names_of_seen
    {table : SymbolTable}
    {seen : List String}
    (consistent : table.Consistent)
    (known : table.names.toList = seen.eraseDups)
    (name : String) :
    (table.intern name).value.2.names.toList = (seen ++ [name]).eraseDups := by
  rw [intern_names consistent, known, eraseDups_concat]
  simp only [List.mem_eraseDups]

theorem intern_extends
    {table : SymbolTable}
    (consistent : table.Consistent)
    (name : String) :
    table.names.toList <+: (table.intern name).value.2.names.toList := by
  rw [intern_names consistent]
  split
  · exact List.prefix_rfl
  · exact List.prefix_append _ _

/-- The slot that is answered is the slot of the name in the table that is left. -/
theorem intern_slot
    {table : SymbolTable}
    (consistent : table.Consistent)
    (name : String) :
    (table.intern name).value.2.names.toList[(table.intern name).value.1]? = some name := by
  unfold intern
  cases known : table.slot? name with
  | some slot => exact (consistent name slot).mp known
  | none =>
      show (table.names.push name).toList[table.names.size]? = some name
      simp

end SymbolTable

/-! ## Runs of session operations -/

/-- The name that an operation interns, if it interns one. -/
def SessionOperation.internedName? : SessionOperation → Option String
  | .symbolRef name => some name
  | .intern name => some name
  | .lookup _ => none
  | .declare _ => none
  | .rememberInline _ _ => none

namespace Session

variable {unit : CompilationUnit}

/-- The answers of a run, and the session at its end. -/
def run (session : Session unit) (operations : List SessionOperation) :
    List SessionAnswer × Session unit :=
  (SessionOperation.performAll operations session).value

/-- The answer of one operation, and the session after it. -/
def step (session : Session unit) (operation : SessionOperation) :
    SessionAnswer × Session unit :=
  (operation.perform session).value

theorem run_cons
    (session : Session unit)
    (operation : SessionOperation)
    (operations : List SessionOperation) :
    session.run (operation :: operations) =
      ((session.step operation).1 :: ((session.step operation).2.run operations).1,
        ((session.step operation).2.run operations).2) :=
  rfl

/-- All that an operation can do to the symbols is to intern its name. -/
theorem step_symbols (session : Session unit) (operation : SessionOperation) :
    (session.step operation).2.symbols =
      match operation.internedName? with
      | some name => (session.symbols.intern name).value.2
      | none => session.symbols := by
  cases operation <;> rfl

theorem start_consistent (unit : CompilationUnit) : (Session.start unit).symbols.Consistent :=
  SymbolTable.consistent_empty

/-- What every `intern` keeps, every run keeps. -/
theorem run_keeps
    (Keeps : SymbolTable → Prop)
    (interned : ∀ table name, Keeps table → Keeps (table.intern name).value.2)
    (operations : List SessionOperation)
    {session : Session unit}
    (start : Keeps session.symbols) :
    Keeps (session.run operations).2.symbols := by
  induction operations generalizing session with
  | nil => exact start
  | cons operation operations inductionHypothesis =>
      rw [run_cons]
      apply inductionHypothesis
      rw [step_symbols]
      cases operation.internedName? with
      | some name => exact interned session.symbols name start
      | none => exact start

theorem run_consistent
    (operations : List SessionOperation)
    {session : Session unit}
    (consistent : session.symbols.Consistent) :
    (session.run operations).2.symbols.Consistent :=
  run_keeps SymbolTable.Consistent (fun _ name kept => SymbolTable.intern_consistent kept name)
    operations consistent

/-- A slot once taken keeps its name to the end of the run. -/
theorem run_extends
    (operations : List SessionOperation)
    {session : Session unit}
    (consistent : session.symbols.Consistent) :
    session.symbols.names.toList <+: (session.run operations).2.symbols.names.toList := by
  have both :=
    run_keeps
      (fun table => table.Consistent ∧ session.symbols.names.toList <+: table.names.toList)
      (fun table name kept =>
        ⟨SymbolTable.intern_consistent kept.1 name,
          kept.2.trans (SymbolTable.intern_extends kept.1 name)⟩)
      operations ⟨consistent, List.prefix_rfl⟩
  exact both.2

theorem step_consistent
    {session : Session unit}
    (consistent : session.symbols.Consistent)
    (operation : SessionOperation) :
    (session.step operation).2.symbols.Consistent := by
  rw [step_symbols]
  cases operation.internedName? with
  | some name => exact SymbolTable.intern_consistent consistent name
  | none => exact consistent

/-- The symbols after a run are the names that it interned, in first-seen order. -/
theorem run_names
    (operations : List SessionOperation)
    {session : Session unit}
    {seen : List String}
    (consistent : session.symbols.Consistent)
    (known : session.symbols.names.toList = seen.eraseDups) :
    (session.run operations).2.symbols.names.toList =
      (seen ++ operations.filterMap SessionOperation.internedName?).eraseDups := by
  induction operations generalizing session seen with
  | nil =>
      rw [List.filterMap_nil, List.append_nil]
      exact known
  | cons operation operations inductionHypothesis =>
      rw [run_cons]
      have kept := step_consistent consistent operation
      have stepped := step_symbols session operation
      cases interned : operation.internedName? with
      | none =>
          rw [List.filterMap_cons_none interned]
          rw [interned] at stepped
          exact inductionHypothesis kept (by rw [stepped, known])
      | some name =>
          rw [List.filterMap_cons_some interned, List.append_cons]
          rw [interned] at stepped
          apply inductionHypothesis kept
          rw [stepped]
          exact SymbolTable.intern_names_of_seen consistent known name

theorem start_run_names (unit : CompilationUnit) (operations : List SessionOperation) :
    ((Session.start unit).run operations).2.symbols.names.toList =
      (operations.filterMap SessionOperation.internedName?).eraseDups := by
  have nothingSeen : (Session.start unit).symbols.names.toList = [].eraseDups := rfl
  exact run_names operations (start_consistent unit) nothingSeen

/-- Every `symbolRef` of a run answers an element whose slot has its name at the end. -/
theorem run_reference
    (operations : List SessionOperation)
    {session : Session unit}
    (consistent : session.symbols.Consistent)
    {call : Nat}
    {name : String}
    (called : operations[call]? = some (.symbolRef name)) :
    ∃ slot,
      (session.run operations).1[call]? =
        some (.reference (SymbolTable.element unit.symbolsName slot)) ∧
      (session.run operations).2.symbols.names.toList[slot]? = some name := by
  induction operations generalizing session call with
  | nil => cases called
  | cons operation operations inductionHypothesis =>
      have kept := step_consistent consistent operation
      cases call with
      | zero =>
          obtain rfl := Option.some.inj called
          refine ⟨(session.symbols.intern name).value.1, rfl, ?_⟩
          have now :
              (session.step (.symbolRef name)).2.symbols.names.toList[
                (session.symbols.intern name).value.1]? = some name :=
            SymbolTable.intern_slot consistent name
          rcases run_extends operations kept with ⟨later, grown⟩
          rw [run_cons]
          simp only
          rw [← grown, List.getElem?_append_left (List.getElem?_eq_some_iff.mp now).1]
          exact now
      | succ call => exact inductionHypothesis kept called

end Session

end UnitAssembly
