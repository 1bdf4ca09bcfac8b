import UnitAssembly.Proofs.Layout.Walk

/-!
Contract: balanced lines in the middle of a text.

Owns:
- `Balanced`, lines that close only blocks of their own and close all of them;
- `Position.within`, one walk that goes on inside the blocks of another, and what it
  places there;
- `reindent_balanced_fragment`, a text with balanced lines in it, from the lines alone
  and the text without them.

Lines that close only blocks of their own never see how many blocks are open around
them.  Each of them stands as far in as it would stand alone, and the blocks around it
further.

Does not own: lines that close blocks of others.
-/

namespace UnitAssembly.Layout

/-- Lines that, from depth zero, never close a block where none is open, and leave none
open. -/
structure Balanced (fragment : List Line) : Prop where
  noSurplus : surplusClosers fragment = 0
  settled : depthBehind fragment = 0

/-- A placed line behind the spaces of further blocks; a directive stays where it is. -/
def pushedIn (depth : Nat) (line placed : Line) : Line :=
  if isDirective line then placed else List.replicate (4 * depth) ' ' ++ placed

/-- The lines that re-indentation makes of some lines, one of each.  Where there are
none, none are made, although their text has one empty line. -/
def reindentedLines (source : List Line) : List Line :=
  (lines (reindent (unlines source)).value).take source.length

theorem reindentedLines_eq
    {source : List Line}
    (oneLine : ∀ line ∈ source, '\n' ∉ line) :
    reindentedLines source = (placeAll .start source).1 := by
  unfold reindentedLines
  cases source with
  | nil => rfl
  | cons line rest =>
      rw [lines_reindent, lines_unlines oneLine (List.cons_ne_nil _ _)]
      exact List.take_of_length_le (Nat.le_of_eq (length_placeAll _ _))

/-! ## A walk inside the blocks of another -/

/-- The position of a walk, seen from outside the blocks in which it began. -/
def Position.within (inner outer : Position) : Position :=
  ⟨inner.depth + outer.depth, inner.clamped + outer.clamped⟩

theorem start_within (outer : Position) : Position.start.within outer = outer := by
  unfold Position.within Position.start
  simp only [Nat.zero_add]

theorem indented_add (depth outer : Nat) (line : Line) :
    indented (depth + outer) line =
      List.replicate (4 * outer) ' ' ++ indented depth line := by
  unfold indented indentWidth
  rw [← List.append_assoc, List.replicate_append_replicate, Nat.mul_add,
    Nat.add_comm (4 * depth)]

/-- One line that closes no block of the outer walk. -/
theorem place_within
    {inner : Position}
    {line : Line}
    (ownBlock : ¬ (isDirective line = false ∧ closes line = true ∧ inner.depth = 0))
    (outer : Position) :
    place (inner.within outer) line =
      (pushedIn outer.depth line (place inner line).1, (place inner line).2.within outer) := by
  unfold pushedIn
  cases directive : isDirective line with
  | true =>
      rw [place_of_directive directive, place_of_directive directive]
      rfl
  | false =>
      have stands :
          standsAt (inner.within outer).depth line = standsAt inner.depth line + outer.depth := by
        unfold standsAt Position.within
        cases closing : closes line with
        | false => rfl
        | true =>
            have filled : inner.depth ≠ 0 := fun empty => ownBlock ⟨directive, closing, empty⟩
            simp only [if_true]
            omega
      have notClamped : ¬ (closes line = true ∧ inner.depth = 0) := fun both =>
        ownBlock ⟨directive, both⟩
      have notClampedWithin : ¬ (closes line = true ∧ (inner.within outer).depth = 0) := fun both =>
        notClamped ⟨both.1, Nat.eq_zero_of_add_eq_zero_right both.2⟩
      rw [place_eq_of_ordinary directive, place_eq_of_ordinary directive, stands,
        if_neg notClamped, if_neg notClampedWithin, indented_add]
      unfold Position.within
      simp only [Nat.add_right_comm, Nat.add_zero, Bool.false_eq_true, if_false]

/-- All lines, by the last one: where no line closes a block that was not opened before
it, none closes a block of the outer walk. -/
theorem placeAll_within
    {fragment : List Line}
    (noSurplus : surplusClosers fragment = 0)
    (outer : Position) :
    placeAll outer fragment =
      (List.zipWith (pushedIn outer.depth) fragment (placeAll .start fragment).1,
        (placeAll .start fragment).2.within outer) := by
  induction fragment using List.reverseRecOn with
  | nil =>
      show ([], outer) = ([], Position.start.within outer)
      rw [start_within]
  | append_singleton front line inductionHypothesis =>
      rw [surplusClosers_concat] at noSurplus
      obtain ⟨frontSurplus, lineSurplus⟩ := Nat.add_eq_zero_iff.mp noSurplus
      have ownBlock :
          ¬ (isDirective line = false ∧ closes line = true ∧ depthBehind front = 0) := by
        intro surplus
        rw [if_pos surplus] at lineSurplus
        cases lineSurplus
      have placed (position : Position) :
          placeAll position [line] = ([(place position line).1], (place position line).2) :=
        rfl
      rw [placeAll_append, placeAll_append, inductionHypothesis frontSurplus,
        List.zipWith_append (length_placeAll _ _).symm, placed, placed,
        place_within ownBlock]
      rfl

theorem Balanced.placeAll_eq
    {fragment : List Line}
    (balanced : Balanced fragment)
    (outer : Position) :
    placeAll outer fragment =
      (List.zipWith (pushedIn outer.depth) fragment (placeAll .start fragment).1, outer) := by
  have atStart : (placeAll .start fragment).2 = .start := by
    show Position.mk (depthBehind fragment) (placeAll .start fragment).2.clamped = ⟨0, 0⟩
    rw [balanced.settled, clamped_placeAll, balanced.noSurplus]
  rw [placeAll_within balanced.noSurplus, atStart, start_within]

/-- The walk comes to the lines behind balanced ones as if these were not there. -/
theorem Balanced.placeAll_between
    {fragment : List Line}
    (balanced : Balanced fragment)
    (before behind : List Line) :
    placeAll .start (before ++ fragment ++ behind) =
      ((placeAll .start before).1 ++
          List.zipWith (pushedIn (depthBehind before)) fragment (placeAll .start fragment).1 ++
          (placeAll (placeAll .start before).2 behind).1,
        (placeAll (placeAll .start before).2 behind).2) := by
  rw [placeAll_append, placeAll_append, balanced.placeAll_eq]
  rfl

/-- **Balanced lines do not disturb what stands around them.**  With balanced lines in
it, a text keeps the lines in front of them as they are without anything behind.  The
balanced lines are those of their own text, directives aside pushed in by four spaces
for each block that is open in front of them.  The lines behind are those of the text
without the balanced lines, and so is the count of lines that close nothing. -/
theorem reindent_balanced_fragment
    {before fragment behind : List Line}
    (oneLine : ∀ line ∈ before ++ fragment ++ behind, '\n' ∉ line)
    (filled : fragment ≠ [])
    (balanced : Balanced fragment) :
    let whole := reindent (unlines (before ++ fragment ++ behind))
    let without := reindent (unlines (before ++ behind))
    let emitted := lines whole.value
    emitted =
        reindentedLines before ++
          List.zipWith (pushedIn (depthBehind before)) fragment
            (lines (reindent (unlines fragment)).value) ++
          (reindentedLines (before ++ behind)).drop before.length ∧
      emitted.take before.length ++ emitted.drop (before.length + fragment.length) =
        reindentedLines (before ++ behind) ∧
      whole.entries = without.entries := by
  intro whole without emitted
  have oneLineBefore : ∀ line ∈ before, '\n' ∉ line := fun line member =>
    oneLine line (List.mem_append_left _ (List.mem_append_left _ member))
  have oneLineFragment : ∀ line ∈ fragment, '\n' ∉ line := fun line member =>
    oneLine line (List.mem_append_left _ (List.mem_append_right _ member))
  have oneLineAround : ∀ line ∈ before ++ behind, '\n' ∉ line := by
    intro line member
    rcases List.mem_append.mp member with inBefore | inBehind
    · exact oneLineBefore line inBefore
    · exact oneLine line (List.mem_append_right _ inBehind)
  have parts := balanced.placeAll_between before behind
  have around := placeAll_append .start before behind
  have emittedEq : emitted = (placeAll .start (before ++ fragment ++ behind)).1 := by
    show lines (reindent _).value = _
    rw [lines_reindent, lines_unlines oneLine (by simp [filled])]
  have lengthBefore := length_placeAll .start before
  have lengthFragment :
      (List.zipWith (pushedIn (depthBehind before)) fragment
        (placeAll .start fragment).1).length = fragment.length := by
    rw [List.length_zipWith, length_placeAll, Nat.min_self]
  refine ⟨?_, ?_, ?_⟩
  · rw [emittedEq, parts, reindentedLines_eq oneLineBefore, reindentedLines_eq oneLineAround,
      around, List.drop_left' lengthBefore, lines_reindent, lines_unlines oneLineFragment filled]
  · rw [emittedEq, parts, reindentedLines_eq oneLineAround, around,
      List.drop_left' (by rw [List.length_append, lengthBefore, lengthFragment]),
      List.append_assoc, List.take_left' lengthBefore]
  · have sameCount :
        surplusClosers (before ++ fragment ++ behind) = surplusClosers (before ++ behind) := by
      rw [← clamped_placeAll, ← clamped_placeAll, parts, around]
    show (reindent _).entries = (reindent _).entries
    rw [(reindent_unlines oneLine).2, (reindent_unlines oneLineAround).2, sameCount]

/-- A closing line too many, and a function whose body is not yet closed. -/
def openedFunction : List Line :=
  ["\x7d".toList, "f() \x7b".toList]

/-- Two branches with a directive between them that ends with an opening brace. -/
def branches : List Line :=
  ["if (a) \x7b".toList, "  x();".toList, "#if D \x7b".toList, "\x7d else \x7b".toList,
    "\x7d".toList]

/-- The rest of the body, and its end. -/
def closedFunction : List Line :=
  ["y();".toList, "\x7d".toList]

theorem reindent_balanced_fragment_branches :
    Balanced branches ∧
      unlines (openedFunction ++ branches ++ closedFunction) =
        "\x7d\n" ++
        "f() \x7b\n" ++
        "if (a) \x7b\n" ++
        "  x();\n" ++
        "#if D \x7b\n" ++
        "\x7d else \x7b\n" ++
        "\x7d\n" ++
        "y();\n" ++
        "\x7d" ∧
      (reindent (unlines (openedFunction ++ branches ++ closedFunction))).value =
        "\x7d\n" ++
        "f() \x7b\n" ++
        "    if (a) \x7b\n" ++
        "        x();\n" ++
        "#if D \x7b\n" ++
        "    \x7d else \x7b\n" ++
        "    \x7d\n" ++
        "    y();\n" ++
        "\x7d" ∧
      (reindent (unlines (openedFunction ++ branches ++ closedFunction))).entries =
        [.closersClamped 1] := by
  have balanced : Balanced branches := ⟨by decide, by decide⟩
  have oneLine : ∀ line ∈ openedFunction ++ branches ++ closedFunction, '\n' ∉ line := by decide
  rcases reindent_balanced_fragment oneLine (by decide) balanced with ⟨emitted, -, entries⟩
  refine ⟨balanced, by decide +kernel, ?_, ?_⟩
  · apply String.toList_inj.mp
    rw [toList_eq_intercalate_lines, emitted]
    decide +kernel
  · rw [entries]
    decide +kernel

end UnitAssembly.Layout
