import Mathlib.Data.List.DropRight
import Mathlib.Data.List.Induction
import UnitAssembly.Layout

/-!
Contract: the walk over the lines of a text, one line at a time and in parts.

Owns:
- the lines of a re-indented text, which are the placed lines of the text, and the
  re-indented text of given lines;
- what one line does, said by depths alone: where it stands, the depth behind it, and
  whether it counts as closing nothing;
- the walk over lines in two parts, and what its count comes to.

Does not own: what a second walk over the placed lines does.
-/

namespace UnitAssembly.Layout

open UnitAssembly.Text

/-! ## One line -/

/-- White space in front of a line does not count as content. -/
theorem content_append_of_blank
    {leading : List Char}
    (blank : leading.all isBlank = true)
    (line : Line) :
    content (leading ++ line) = content line :=
  List.dropWhile_append_of_pos (List.all_eq_true.mp blank)

theorem content_indented (depth : Nat) (line : Line) :
    content (indented depth line) = content line := by
  have spaces : (List.replicate (indentWidth * depth) ' ').all isBlank = true := by
    rw [List.all_eq_true]
    intro character member
    rw [List.eq_of_mem_replicate member]
    rfl
  rw [indented, content_append_of_blank spaces]
  exact List.dropWhile_idempotent isBlank line

/-- The depth at which a line stands that is met at a depth: a closing line is already
outside its block, if there is one. -/
def standsAt (depth : Nat) (line : Line) : Nat :=
  if closes line then depth - 1 else depth

theorem place_of_directive
    {line : Line}
    (directive : isDirective line = true)
    (position : Position) :
    place position line = (line, position) := by
  unfold place
  rw [if_pos directive]

theorem place_of_ordinary
    {line : Line}
    (ordinary : isDirective line = false)
    (position : Position) :
    (place position line).1 = indented (standsAt position.depth line) line := by
  rcases position with ⟨depth, clamped⟩
  unfold place standsAt
  rw [ordinary]
  cases closes line <;> cases depth <;> rfl

theorem depth_place
    {line : Line}
    (ordinary : isDirective line = false)
    (position : Position) :
    (place position line).2.depth =
      standsAt position.depth line + if opens line then 1 else 0 := by
  rcases position with ⟨depth, clamped⟩
  unfold place standsAt
  rw [ordinary]
  cases closes line <;> cases opens line <;> cases depth <;> rfl

theorem clamped_place
    {line : Line}
    (ordinary : isDirective line = false)
    (position : Position) :
    (place position line).2.clamped =
      position.clamped + if closes line = true ∧ position.depth = 0 then 1 else 0 := by
  rcases position with ⟨depth, clamped⟩
  unfold place
  rw [ordinary]
  cases closes line <;> cases opens line <;> cases depth <;> simp [Position.leave, Position.enter]

theorem place_eq_of_ordinary
    {line : Line}
    (ordinary : isDirective line = false)
    (position : Position) :
    place position line =
      (indented (standsAt position.depth line) line,
        ⟨standsAt position.depth line + if opens line then 1 else 0,
          position.clamped + if closes line = true ∧ position.depth = 0 then 1 else 0⟩) := by
  rw [← place_of_ordinary ordinary, ← depth_place ordinary, ← clamped_place ordinary]

theorem lineFeed_not_mem_place
    {line : Line}
    (oneLine : '\n' ∉ line)
    (position : Position) :
    '\n' ∉ (place position line).1 := by
  cases directive : isDirective line with
  | true =>
      rw [place_of_directive directive]
      exact oneLine
  | false =>
      rw [place_of_ordinary directive]
      intro member
      rcases List.mem_append.mp member with inIndentation | inContent
      · exact absurd (List.eq_of_mem_replicate inIndentation) (by decide)
      · exact oneLine ((List.dropWhile_suffix _).mem inContent)

/-! ## Lines in parts -/

theorem placeAll_cons (position : Position) (line : Line) (rest : List Line) :
    placeAll position (line :: rest) =
      ((place position line).1 :: (placeAll (place position line).2 rest).1,
        (placeAll (place position line).2 rest).2) :=
  rfl

theorem placeAll_append (position : Position) (front back : List Line) :
    placeAll position (front ++ back) =
      ((placeAll position front).1 ++ (placeAll (placeAll position front).2 back).1,
        (placeAll (placeAll position front).2 back).2) := by
  induction front generalizing position with
  | nil => rfl
  | cons line rest inductionHypothesis =>
      rw [List.cons_append, placeAll_cons, inductionHypothesis, placeAll_cons]
      rfl

theorem length_placeAll (position : Position) (lines : List Line) :
    (placeAll position lines).1.length = lines.length := by
  induction lines generalizing position with
  | nil => rfl
  | cons line rest inductionHypothesis =>
      rw [placeAll_cons, List.length_cons, inductionHypothesis, List.length_cons]

/-- What becomes of a line depends on the lines in front of it. -/
theorem getElem?_placeAll (position : Position) (lines : List Line) (number : Nat) :
    (placeAll position lines).1[number]? =
      lines[number]?.map fun line =>
        (place (placeAll position (lines.take number)).2 line).1 := by
  induction lines generalizing position number with
  | nil => rfl
  | cons line rest inductionHypothesis =>
      cases number with
      | zero => rfl
      | succ number =>
          rw [placeAll_cons, List.getElem?_cons_succ, inductionHypothesis,
            List.getElem?_cons_succ, List.take_succ_cons, placeAll_cons]

theorem lineFeed_not_mem_placeAll
    {lines : List Line}
    (oneLine : ∀ line ∈ lines, '\n' ∉ line)
    (position : Position) :
    ∀ line ∈ (placeAll position lines).1, '\n' ∉ line := by
  induction lines generalizing position with
  | nil => simp [placeAll]
  | cons line rest inductionHypothesis =>
      rw [placeAll_cons]
      rw [List.forall_mem_cons] at oneLine ⊢
      exact ⟨lineFeed_not_mem_place oneLine.1 position, inductionHypothesis oneLine.2 _⟩

/-! ## Whole texts -/

theorem toList_eq_intercalate_lines (text : String) :
    text.toList = ['\n'].intercalate (lines text) :=
  (List.intercalate_splitOn '\n').symm

theorem lineFeed_not_mem_lines (text : String) : ∀ line ∈ lines text, '\n' ∉ line := by
  unfold lines
  generalize text.toList = characters
  induction characters with
  | nil => simp
  | cons character rest inductionHypothesis =>
      rw [List.splitOn_cons_eq_if_modifyHead]
      split
      · exact List.forall_mem_cons.mpr ⟨List.not_mem_nil, inductionHypothesis⟩
      · next notLineFeed =>
          -- The character goes in front of the first line and is no line feed.
          cases split : rest.splitOn '\n' with
          | nil => simp
          | cons first others =>
              rw [split, List.forall_mem_cons] at inductionHypothesis
              refine List.forall_mem_cons.mpr ⟨?_, inductionHypothesis.2⟩
              rw [List.mem_cons, not_or]
              exact ⟨fun same => notLineFeed (beq_iff_eq.mpr same.symm), inductionHypothesis.1⟩

theorem reindent_value (text : String) :
    (reindent text).value = unlines (placeAll .start (lines text)).1 := by
  unfold reindent
  simp only
  split <;> rfl

/-- Lines come out of their text again.  No lines at all have the same text as one
empty line. -/
theorem lines_unlines
    {source : List Line}
    (oneLine : ∀ line ∈ source, '\n' ∉ line)
    (filled : source ≠ []) :
    lines (unlines source) = source := by
  unfold lines unlines
  rw [String.toList_ofList]
  exact List.splitOn_intercalate _ oneLine filled

/-- The lines of a re-indented text are the placed lines of the text. -/
theorem lines_reindent (text : String) :
    lines (reindent text).value = (placeAll .start (lines text)).1 := by
  rw [reindent_value]
  apply lines_unlines
  · exact lineFeed_not_mem_placeAll (lineFeed_not_mem_lines text) .start
  · intro none
    have filled : lines text ≠ [] := List.splitOn_ne_nil _ _
    cases split : lines text with
    | nil => exact filled split
    | cons line rest =>
        rw [split, placeAll_cons] at none
        cases none

/-! ## Lines that close nothing -/

/-- The blocks that are open behind some lines at the start of a text. -/
def depthBehind (front : List Line) : Nat :=
  (placeAll .start front).2.depth

/-- Whether the line of a number closes a block where none is open. -/
def closesNothingAt (lines : List Line) (number : Nat) : Bool :=
  match lines[number]? with
  | none => false
  | some line => !isDirective line && closes line && decide (depthBehind (lines.take number) = 0)

/-- The number of lines that close a block where none is open. -/
def surplusClosers (lines : List Line) : Nat :=
  (List.range lines.length).countP (closesNothingAt lines)

theorem surplusClosers_concat (front : List Line) (line : Line) :
    surplusClosers (front ++ [line]) =
      surplusClosers front +
        if isDirective line = false ∧ closes line = true ∧ depthBehind front = 0 then 1 else 0 := by
  have earlier (number : Nat) (inFront : number ∈ List.range front.length) :
      closesNothingAt (front ++ [line]) number = closesNothingAt front number := by
    have below := List.mem_range.mp inFront
    unfold closesNothingAt
    rw [List.getElem?_append_left below, List.take_append_of_le_length (Nat.le_of_lt below)]
  have last :
      closesNothingAt (front ++ [line]) front.length =
        decide (isDirective line = false ∧ closes line = true ∧ depthBehind front = 0) := by
    unfold closesNothingAt
    simp [Bool.and_assoc]
  unfold surplusClosers
  rw [List.length_append, List.length_singleton, List.range_succ, List.countP_append,
    List.countP_congr fun number inFront => by rw [earlier number inFront],
    List.countP_singleton, last]
  simp only [decide_eq_true_eq]

/-- The walk counts the lines that close nothing: by the last line, since what a line
does depends on the lines in front of it. -/
theorem clamped_placeAll (lines : List Line) :
    (placeAll .start lines).2.clamped = surplusClosers lines := by
  induction lines using List.reverseRecOn with
  | nil => rfl
  | append_singleton front line inductionHypothesis =>
      rw [placeAll_append, surplusClosers_concat, ← inductionHypothesis]
      show (place (placeAll .start front).2 line).2.clamped = _
      cases directive : isDirective line with
      | true => simp [place_of_directive directive]
      | false =>
          rw [clamped_place directive]
          simp [depthBehind]

theorem reindent_entries (text : String) :
    (reindent text).entries =
      if 0 < surplusClosers (lines text) then
        [.closersClamped (surplusClosers (lines text))]
      else [] := by
  rw [← clamped_placeAll]
  unfold reindent
  simp only
  split <;> rfl

/-- The text of some characters, re-indented: what a walk over them emits. -/
theorem reindent_value_ofList
    {text emitted : List Char}
    (placed : ['\n'].intercalate (placeAll .start (text.splitOn '\n')).1 = emitted) :
    (reindent (String.ofList text)).value = String.ofList emitted := by
  rw [reindent_value, lines, String.toList_ofList, ← placed]
  rfl

theorem surplusClosers_ofList
    {text : List Char}
    {count : Nat}
    (clamped : (placeAll .start (text.splitOn '\n')).2.clamped = count) :
    surplusClosers (lines (String.ofList text)) = count := by
  rw [← clamped_placeAll, lines, String.toList_ofList, clamped]

/-- The text of some lines, re-indented.  No lines have the text of one empty line, which
is placed as it is. -/
theorem reindent_unlines
    {source : List Line}
    (oneLine : ∀ line ∈ source, '\n' ∉ line) :
    (reindent (unlines source)).value = unlines (placeAll .start source).1 ∧
      (reindent (unlines source)).entries =
        if 0 < surplusClosers source then [.closersClamped (surplusClosers source)] else [] := by
  cases source with
  | nil => exact ⟨rfl, rfl⟩
  | cons line rest =>
      rw [reindent_value, reindent_entries, lines_unlines oneLine (List.cons_ne_nil _ _)]
      exact ⟨rfl, rfl⟩

end UnitAssembly.Layout
