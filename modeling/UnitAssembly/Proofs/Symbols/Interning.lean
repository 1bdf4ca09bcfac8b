import UnitAssembly.Proofs.Symbols.Table

/-!
Contract: what a new table becomes by calls of `intern`, in terms of the names they were
called with.

Owns:
- `internAll`, the slots that calls answer one after the other and the table behind them;
- `Recalls`, the names that a table was given, which every call extends by its own;
- the slot of each call, which is the place of its name among the names by first sight,
  at once and after all later calls.

Does not own: what else happens to a session between the calls.
-/

namespace UnitAssembly.SymbolTable

/-- Intern names one after the other: the slots that are answered, and the table at the
end. -/
def internAll (table : SymbolTable) : List String → Traced (List Nat × SymbolTable)
  | [] => pure ([], table)
  | name :: names => do
      let (slot, next) ← table.intern name
      let (slots, last) ← next.internAll names
      return (slot :: slots, last)

theorem internAll_cons (table : SymbolTable) (name : String) (names : List String) :
    (table.internAll (name :: names)).value =
      ((table.intern name).value.1 :: ((table.intern name).value.2.internAll names).value.1,
        ((table.intern name).value.2.internAll names).value.2) :=
  rfl

/-- The table was given these names, one after the other, and no others. -/
structure Recalls (table : SymbolTable) (seen : List String) : Prop where
  consistent : table.Consistent
  byFirstSight : table.names.toList = seen.eraseDups

theorem recalls_empty : empty.Recalls [] where
  consistent := consistent_empty
  byFirstSight := rfl

namespace Recalls

variable {table : SymbolTable} {seen : List String}

theorem slot?_eq_some_iff (recalls : table.Recalls seen) (name : String) (slot : Nat) :
    table.slot? name = some slot ↔ seen.eraseDups[slot]? = some name := by
  rw [recalls.consistent name slot, recalls.byFirstSight]

theorem slot?_eq_idxOf (recalls : table.Recalls seen) {name : String} (known : name ∈ seen) :
    table.slot? name = some (seen.eraseDups.idxOf name) := by
  rw [recalls.slot?_eq_some_iff]
  exact List.getElem?_idxOf (List.mem_eraseDups.mpr known)

/-! ## One call -/

/-- A call with a name that was seen before answers its slot and does nothing else. -/
theorem intern_of_known (recalls : table.Recalls seen) {name : String} (known : name ∈ seen) :
    table.intern name = pure (seen.eraseDups.idxOf name, table) := by
  unfold SymbolTable.intern
  rw [recalls.slot?_eq_idxOf known]

theorem intern (recalls : table.Recalls seen) (name : String) :
    (table.intern name).value.2.Recalls (seen ++ [name]) where
  consistent := intern_consistent recalls.consistent name
  byFirstSight := intern_names_of_seen recalls.consistent recalls.byFirstSight name

theorem intern_slot (recalls : table.Recalls seen) (name : String) :
    (table.intern name).value.1 = (seen ++ [name]).eraseDups.idxOf name := by
  have after := recalls.intern name
  have answered : (table.intern name).value.2.slot? name = some (table.intern name).value.1 :=
    (after.consistent _ _).mpr (SymbolTable.intern_slot recalls.consistent name)
  have last : name ∈ seen ++ [name] := List.mem_append_right _ List.mem_cons_self
  rw [after.slot?_eq_idxOf last] at answered
  exact (Option.some.inj answered).symm

/-! ## Any number of calls -/

/-- What the table has seen grows by the names of the calls, and each answer is the place of
its name among all of them: names that come later are put behind it. -/
theorem internAll (recalls : table.Recalls seen) (names : List String) :
    (table.internAll names).value.2.Recalls (seen ++ names) ∧
      (table.internAll names).value.1 =
        names.map fun name => (seen ++ names).eraseDups.idxOf name := by
  induction names generalizing table seen with
  | nil =>
      rw [List.append_nil]
      exact ⟨recalls, rfl⟩
  | cons name names inductionHypothesis =>
      obtain ⟨kept, answers⟩ := inductionHypothesis (recalls.intern name)
      have first : name ∈ seen ++ [name] := List.mem_append_right _ List.mem_cons_self
      have placed := idxOf_eraseDups_append first names
      rw [List.append_assoc, List.singleton_append] at kept answers placed
      rw [internAll_cons]
      refine ⟨kept, ?_⟩
      rw [List.map_cons, answers, recalls.intern_slot, placed]

end Recalls

/-- **Slots by first sight.**  After any calls on a new table, the table relates each slot to
the name that is listed there, and each name that was interned to its place among these
names by first sight; the names are distinct, and there are as many as different ones were
interned.  Each call has answered the place of its name.  Further calls add names behind
those listed, so every slot that was answered keeps its name, and a call with a name that
is known already leaves the table as it is. -/
theorem internAll_by_first_sight (earlier later : List String) :
    let table : SymbolTable := (empty.internAll earlier).value.2
    let slots := (empty.internAll earlier).value.1
    let grown := (empty.internAll (earlier ++ later)).value.2
    (∀ name slot, table.slot? name = some slot ↔ table.toList[slot]? = some (slot, name)) ∧
    (table.toList.map Prod.snd).Nodup ∧
    table.toList.map Prod.snd = earlier.eraseDups ∧
    (∀ name, name ∈ table.toList.map Prod.snd ↔ name ∈ earlier) ∧
    ((table.toList.map Prod.snd).Pairwise fun first second =>
      earlier.idxOf first < earlier.idxOf second) ∧
    table.size = earlier.toFinset.card ∧
    slots = (earlier.map fun name => earlier.eraseDups.idxOf name) ∧
    slots <+: (empty.internAll (earlier ++ later)).value.1 ∧
    table.names.toList <+: grown.names.toList ∧
    (∀ (call slot : Nat) (name : String),
      earlier[call]? = some name → slots[call]? = some slot →
        grown.toList[slot]? = some (slot, name)) ∧
    ∀ name ∈ earlier, table.intern name = pure (earlier.eraseDups.idxOf name, table) := by
  intro table slots grown
  obtain ⟨recalls, answers⟩ := recalls_empty.internAll earlier
  obtain ⟨recallsAll, answersAll⟩ := recalls_empty.internAll (earlier ++ later)
  rw [List.nil_append] at recalls answers recallsAll answersAll
  have listed : table.toList.map Prod.snd = earlier.eraseDups :=
    (map_snd_toList table).trans recalls.byFirstSight
  -- The names behind the earlier ones do not change a place among these.
  have placed :
      (earlier.map fun name => (earlier ++ later).eraseDups.idxOf name) =
        earlier.map fun name => earlier.eraseDups.idxOf name :=
    List.map_congr_left fun _ known => idxOf_eraseDups_append known later
  refine ⟨?_, ?_, listed, ?_, ?_, ?_, answers, ?_, ?_, ?_, ?_⟩
  · intro name slot
    rw [getElem?_toList_eq_some_iff]
    exact recalls.consistent name slot
  · rw [listed]
    exact nodup_eraseDups earlier
  · intro name
    rw [listed, List.mem_eraseDups]
  · rw [listed]
    exact eraseDups_pairwise earlier
  · rw [← length_eraseDups, ← recalls.byFirstSight]
    rfl
  · rw [answersAll, List.map_append, placed, ← answers]
    exact List.prefix_append _ _
  · show (empty.internAll earlier).value.2.names.toList <+:
      (empty.internAll (earlier ++ later)).value.2.names.toList
    rw [recalls.byFirstSight, recallsAll.byFirstSight]
    exact eraseDups_prefix_append earlier later
  · intro call slot name called answered
    have known := List.mem_of_getElem? called
    have slot_eq : earlier.eraseDups.idxOf name = slot := by
      rw [show slots = _ from answers, List.getElem?_map, called] at answered
      exact Option.some.inj answered
    rw [getElem?_toList_eq_some_iff, ← recallsAll.consistent,
      recallsAll.slot?_eq_idxOf (List.mem_append_left later known),
      idxOf_eraseDups_append known, slot_eq]
  · intro name known
    exact recalls.intern_of_known known

theorem internAll_by_first_sight_repeated :
    (empty.internAll ["foo", "bar", "foo"]).value.1 = [0, 1, 0] ∧
      (empty.internAll ["foo", "bar", "foo", "baz", "bar"]).value.2.toList[1]? = some (1, "bar") ∧
      (empty.internAll ["foo", "bar", "foo"]).value.2.intern "bar" =
        pure (1, (empty.internAll ["foo", "bar", "foo"]).value.2) := by
  obtain ⟨-, -, -, -, -, -, slots, -, -, keeps, known⟩ :=
    internAll_by_first_sight ["foo", "bar", "foo"] ["baz", "bar"]
  have answered : (empty.internAll ["foo", "bar", "foo"]).value.1 = [0, 1, 0] := by
    rw [slots]
    decide
  refine ⟨answered, ?_, ?_⟩
  · apply keeps 1 1 "bar" rfl
    rw [answered]
    rfl
  · exact known "bar" (by decide)

end UnitAssembly.SymbolTable
