import UnitAssembly.Proofs.Layout.Walk
import UnitAssembly.Proofs.Text.Spaced

/-!
Contract: re-indentation as a reader that goes through a text once, character by
character.

Owns:
- `Reader`, the depth and the place in the line, and what it emits at each character;
- `reindent_eq_read`, the agreement with the walk over whole lines;
- what becomes of a part of a text: its image is what the reader emits on its way
  through it.

The walk over lines decides a line when it has all of it.  The reader decides as early
as it can: the indentation is known at the first character of the content, and whether
a block opens is known at the line feed, from the character before it.

Does not own: what the text is.
-/

namespace UnitAssembly.Layout

open UnitAssembly.Text

/-- Where in its line a reader stands. -/
inductive Column where
  /-- In front of the first character. -/
  | first
  /-- Behind white space only. -/
  | leading
  /-- In a preprocessor directive. -/
  | directive
  /-- In the content, behind the given character. -/
  | inside (last : Char)

structure Reader where
  position : Position
  column : Column

namespace Reader

def start : Reader := ⟨.start, .first⟩

def indentation (position : Position) : List Char :=
  List.replicate (indentWidth * position.depth) ' '

/-- What is still to be emitted where a line ends: a line without content gets its
indentation only now. -/
def finish (reader : Reader) : List Char :=
  match reader.column with
  | .first => indentation reader.position
  | .leading => indentation reader.position
  | .directive => []
  | .inside _ => []

/-- The position behind a line that ends here. -/
def lineEnd (reader : Reader) : Position :=
  match reader.column with
  | .inside last => if last = '{' then reader.position.enter else reader.position
  | _ => reader.position

/-- Go over a character in front of the content. -/
def lead (position : Position) (character : Char) : List Char × Reader :=
  if isBlank character then
    ([], ⟨position, .leading⟩)
  else
    let before := if character = '}' then position.leave else position
    (indentation before ++ [character], ⟨before, .inside character⟩)

/-- Go over one character. -/
def step (reader : Reader) (character : Char) : List Char × Reader :=
  if character = '\n' then
    (reader.finish ++ ['\n'], ⟨reader.lineEnd, .first⟩)
  else
    match reader.column with
    | .first =>
        if character = '#' then ([character], ⟨reader.position, .directive⟩)
        else lead reader.position character
    | .leading => lead reader.position character
    | .directive => ([character], reader)
    | .inside _ => ([character], ⟨reader.position, .inside character⟩)

/-- Go over a text: what is emitted, and the reader behind it. -/
def read (reader : Reader) : List Char → List Char × Reader
  | [] => ([], reader)
  | character :: rest =>
      ((reader.step character).1 ++ ((reader.step character).2.read rest).1,
        ((reader.step character).2.read rest).2)

theorem read_append (reader : Reader) (front back : List Char) :
    reader.read (front ++ back) =
      ((reader.read front).1 ++ ((reader.read front).2.read back).1,
        ((reader.read front).2.read back).2) := by
  induction front generalizing reader with
  | nil => rfl
  | cons character rest inductionHypothesis =>
      rw [List.cons_append, read, inductionHypothesis]
      simp only [read, List.append_assoc]

/-! ## One line -/

theorem read_directive
    {line : Line}
    (oneLine : '\n' ∉ line)
    (position : Position) :
    (⟨position, .directive⟩ : Reader).read line = (line, ⟨position, .directive⟩) := by
  induction line with
  | nil => rfl
  | cons character rest inductionHypothesis =>
      rcases List.ne_and_not_mem_of_not_mem_cons oneLine with ⟨notLineFeed, restOneLine⟩
      have stepped :
          (⟨position, .directive⟩ : Reader).step character =
            ([character], ⟨position, .directive⟩) := by
        unfold step
        rw [if_neg notLineFeed.symm]
      rw [read, stepped, inductionHypothesis restOneLine]
      rfl

theorem read_inside
    {line : Line}
    (oneLine : '\n' ∉ line)
    (position : Position)
    (last : Char) :
    (⟨position, .inside last⟩ : Reader).read line =
      (line, ⟨position, .inside ((last :: line).getLast (List.cons_ne_nil _ _))⟩) := by
  induction line generalizing last with
  | nil => rfl
  | cons character rest inductionHypothesis =>
      rcases List.ne_and_not_mem_of_not_mem_cons oneLine with ⟨notLineFeed, restOneLine⟩
      have stepped :
          (⟨position, .inside last⟩ : Reader).step character =
            ([character], ⟨position, .inside character⟩) := by
        unfold step
        rw [if_neg notLineFeed.symm]
      rw [read, stepped, inductionHypothesis restOneLine]
      simp only [List.singleton_append]
      rw [List.getLast_cons (List.cons_ne_nil _ _)]

theorem read_leading
    {line : Line}
    (oneLine : '\n' ∉ line)
    (position : Position) :
    let reader : Reader := ⟨position, .leading⟩
    let before := if closes line then position.leave else position
    (reader.read line).1 ++ (reader.read line).2.finish = indented before.depth line ∧
      (reader.read line).2.lineEnd = if opens line then before.enter else before := by
  induction line with
  | nil =>
      simp [read, finish, lineEnd, closes, opens, content, indented, indentation]
  | cons character rest inductionHypothesis =>
      rcases List.ne_and_not_mem_of_not_mem_cons oneLine with ⟨notLineFeed, restOneLine⟩
      have stepped :
          (⟨position, .leading⟩ : Reader).step character = lead position character := by
        unfold step
        rw [if_neg notLineFeed.symm]
      by_cases blank : isBlank character = true
      · -- White space in front of the content counts for nothing.
        have sameContent : content (character :: rest) = content rest := by
          unfold content
          rw [List.dropWhile_cons_of_pos blank]
        have sameCloses : closes (character :: rest) = closes rest := by
          unfold closes
          rw [sameContent]
        have sameOpens : opens (character :: rest) = opens rest := by
          unfold opens
          rw [sameContent]
        have led : lead position character = ([], ⟨position, .leading⟩) := by
          unfold lead
          rw [if_pos blank]
        simp only [read, stepped, led, List.nil_append]
        rw [sameCloses, sameOpens]
        unfold indented
        rw [sameContent]
        exact inductionHypothesis restOneLine
      · have wholeContent : content (character :: rest) = character :: rest := by
          unfold content
          rw [List.dropWhile_cons_of_neg blank]
        have closesEq : closes (character :: rest) = decide (character = '}') := by
          unfold closes
          rw [wholeContent, Bool.eq_iff_iff]
          simp
        have opensEq :
            opens (character :: rest) =
              decide ((character :: rest).getLast (List.cons_ne_nil _ _) = '{') := by
          unfold opens
          rw [wholeContent, List.getLast?_eq_some_getLast (List.cons_ne_nil _ _), Bool.eq_iff_iff]
          simp
        have led :
            lead position character =
              (indentation (if character = '}' then position.leave else position) ++ [character],
                ⟨if character = '}' then position.leave else position, .inside character⟩) := by
          unfold lead
          rw [if_neg blank]
        simp only [read, stepped, led, read_inside restOneLine, closesEq, opensEq,
          decide_eq_true_eq]
        refine ⟨?_, rfl⟩
        unfold indented
        rw [wholeContent, finish, List.append_nil, List.append_assoc]
        rfl

/-- Reading a line, up to its end, is placing it. -/
theorem read_line
    {line : Line}
    (oneLine : '\n' ∉ line)
    (position : Position) :
    let reader : Reader := ⟨position, .first⟩
    (reader.read line).1 ++ (reader.read line).2.finish = (place position line).1 ∧
      (reader.read line).2.lineEnd = (place position line).2 := by
  cases line with
  | nil =>
      simp [read, finish, lineEnd, place, isDirective, closes, opens, content, indented,
        indentation]
  | cons character rest =>
      rcases List.ne_and_not_mem_of_not_mem_cons oneLine with ⟨notLineFeed, restOneLine⟩
      by_cases sharp : character = '#'
      · subst sharp
        have directive : isDirective ('#' :: rest) = true := by
          unfold isDirective
          simp
        have stepped :
            (⟨position, .first⟩ : Reader).step '#' = (['#'], ⟨position, .directive⟩) := by
          unfold step
          rw [if_neg notLineFeed.symm]
          rfl
        simp only [read, stepped, read_directive restOneLine, place, directive, if_true]
        exact ⟨List.append_nil _, rfl⟩
      · have noDirective : isDirective (character :: rest) = false := by
          unfold isDirective
          simpa using sharp
        -- Only a sharp tells the first column from the ones behind white space.
        have sameRead :
            (⟨position, .first⟩ : Reader).read (character :: rest) =
              (⟨position, .leading⟩ : Reader).read (character :: rest) := by
          have sameStep :
              (⟨position, .first⟩ : Reader).step character =
                (⟨position, .leading⟩ : Reader).step character := by
            unfold step
            simp only [if_neg sharp, if_neg notLineFeed.symm]
          rw [read, read, sameStep]
        simp only [sameRead, place, noDirective, Bool.false_eq_true, if_false]
        exact read_leading oneLine position

/-! ## A whole text -/

theorem intercalate_placeAll_cons
    (position : Position)
    (line : Line)
    {rest : List Line}
    (filled : rest ≠ []) :
    ['\n'].intercalate (placeAll position (line :: rest)).1 =
      (place position line).1 ++ '\n' ::
        ['\n'].intercalate (placeAll (place position line).2 rest).1 := by
  cases rest with
  | nil => exact absurd rfl filled
  | cons second others =>
      rw [placeAll_cons, placeAll_cons, List.intercalate_cons_cons, List.append_assoc]
      rfl

/-- Reading a text is placing its lines: by the lines, since the reader stands in front
of a first column again behind each line feed. -/
theorem read_lines (position : Position) (text : List Char) :
    let reader : Reader := ⟨position, .first⟩
    (reader.read text).1 ++ (reader.read text).2.finish =
      ['\n'].intercalate (placeAll position (text.splitOn '\n')).1 := by
  by_cases broken : '\n' ∈ text
  · rcases List.eq_append_cons_of_mem broken with ⟨line, rest, split, oneLine⟩
    have further := read_lines (place position line).2 rest
    rcases read_line oneLine position with ⟨placed, after⟩
    have stepped :
        ((⟨position, .first⟩ : Reader).read line).2.step '\n' =
          (((⟨position, .first⟩ : Reader).read line).2.finish ++ ['\n'],
            ⟨(place position line).2, .first⟩) := by
      unfold step
      rw [if_pos rfl, after]
    rw [split, List.splitOn_append_cons_self_of_not_mem oneLine,
      intercalate_placeAll_cons position line (List.splitOn_ne_nil _ _), ← placed, ← further]
    simp only [read_append, read, stepped, List.append_assoc, List.cons_append,
      List.nil_append]
  · rw [List.splitOn_eq_singleton broken, placeAll_cons]
    simp only [placeAll, List.intercalate_singleton]
    exact (read_line broken position).1
termination_by text.length
decreasing_by
  rw [split, List.length_append, List.length_cons]
  omega

end Reader

/-- Re-indentation emits what the reader emits on its way through the text, and at the
end of its last line. -/
theorem reindent_eq_read (text : String) :
    (reindent text).value.toList =
      (Reader.start.read text.toList).1 ++ (Reader.start.read text.toList).2.finish := by
  rw [reindent_value, unlines, String.toList_ofList]
  exact (Reader.read_lines Position.start text.toList).symm

/-! ## Images -/

namespace Reader

theorem isBlankText_indentation (position : Position) : IsBlankText (indentation position) := by
  intro character member
  rw [List.eq_of_mem_replicate member]
  rfl

theorem isBlankText_finish (reader : Reader) : IsBlankText reader.finish := by
  unfold finish
  cases reader.column with
  | first => exact isBlankText_indentation reader.position
  | leading => exact isBlankText_indentation reader.position
  | directive => exact isBlankText_nil
  | inside last => exact isBlankText_nil

/-- The reader is in a directive or in the content of its line, where nothing but a line
feed makes a difference. -/
def IsSettled (reader : Reader) : Prop :=
  reader.column = .directive ∨ ∃ last, reader.column = .inside last

theorem read_settled
    {reader : Reader}
    {line : Line}
    (settled : reader.IsSettled)
    (oneLine : '\n' ∉ line) :
    (reader.read line).1 = line := by
  rcases reader with ⟨position, column⟩
  rcases settled with directive | ⟨last, inside⟩
  · rw [show column = .directive from directive, read_directive oneLine]
  · rw [show column = .inside last from inside, read_inside oneLine]

/-- At each character the reader emits white space and the character itself, and is then
settled or behind a line feed.  Only white space may be left out. -/
theorem step_cases (reader : Reader) (character : Char) :
    ∃ blanks,
      IsBlankText blanks ∧
        ((reader.step character).1 = blanks ++ [character] ∧
            (character = '\n' ∨ (reader.step character).2.IsSettled) ∨
          (reader.step character).1 = blanks ∧ isBlank character = true) := by
  have leads (position : Position) :
      ∃ blanks,
        IsBlankText blanks ∧
          ((lead position character).1 = blanks ++ [character] ∧
              (character = '\n' ∨ (lead position character).2.IsSettled) ∨
            (lead position character).1 = blanks ∧ isBlank character = true) := by
    unfold lead
    by_cases blank : isBlank character = true
    · rw [if_pos blank]
      exact ⟨[], isBlankText_nil, Or.inr ⟨rfl, blank⟩⟩
    · rw [if_neg blank]
      exact ⟨_, isBlankText_indentation _, Or.inl ⟨rfl, Or.inr (Or.inr ⟨character, rfl⟩)⟩⟩
  unfold step
  by_cases lineFeed : character = '\n'
  · rw [if_pos lineFeed, lineFeed]
    exact ⟨reader.finish, isBlankText_finish reader, Or.inl ⟨rfl, Or.inl rfl⟩⟩
  · rw [if_neg lineFeed]
    cases column : reader.column with
    | first =>
        simp only
        split
        · exact ⟨[], isBlankText_nil, Or.inl ⟨rfl, Or.inr (Or.inl rfl)⟩⟩
        · exact leads reader.position
    | leading => exact leads reader.position
    | directive => exact ⟨[], isBlankText_nil, Or.inl ⟨rfl, Or.inr (Or.inl column)⟩⟩
    | inside last =>
        exact ⟨[], isBlankText_nil, Or.inl ⟨rfl, Or.inr (Or.inr ⟨character, rfl⟩)⟩⟩

/-- Re-indentation changes nothing but white space, in every part of a text. -/
theorem solid_read (reader : Reader) (text : List Char) :
    solid (reader.read text).1 = solid text := by
  induction text generalizing reader with
  | nil => rfl
  | cons character rest inductionHypothesis =>
      rw [read, solid_append, inductionHypothesis, ← List.singleton_append, solid_append]
      rcases step_cases reader character with ⟨blanks, blank, ⟨kept, -⟩ | ⟨dropped, isBlank⟩⟩
      · rw [kept, solid_append, solid_eq_nil blank, List.nil_append]
      · rw [dropped, solid_eq_nil blank]
        simp [solid, isBlank]

theorem isBlankText_read
    {blanks : List Char}
    (blank : IsBlankText blanks)
    (reader : Reader) :
    IsBlankText (reader.read blanks).1 := by
  have none : solid (reader.read blanks).1 = [] := by
    rw [solid_read, solid_eq_nil blank]
  intro character member
  unfold solid at none
  rw [List.filter_eq_nil_iff] at none
  simpa using none character member

/-- A piece that fits on a line and does not begin with white space comes through as it
stands, wherever in a line the reader meets it. -/
theorem read_piece
    {first : Char}
    {rest : List Char}
    (oneLine : '\n' ∉ first :: rest)
    (firm : isBlank first = false)
    (reader : Reader) :
    ∃ blanks, IsBlankText blanks ∧ (reader.read (first :: rest)).1 = blanks ++ first :: rest := by
  rcases List.ne_and_not_mem_of_not_mem_cons oneLine with ⟨notLineFeed, restOneLine⟩
  rcases step_cases reader first with ⟨blanks, blank, ⟨kept, lineFeed | settled⟩ | ⟨-, isBlank⟩⟩
  · exact absurd lineFeed.symm notLineFeed
  · refine ⟨blanks, blank, ?_⟩
    rw [read, read_settled settled restOneLine, kept, List.append_assoc]
    rfl
  · rw [firm] at isBlank
    cases isBlank

end Reader

/-- A text that fits on a line and does not begin with white space. -/
def IsFirm (piece : List Char) : Prop :=
  '\n' ∉ piece ∧ ∃ first, piece.head? = some first ∧ isBlank first = false

theorem IsFirm.append
    {front back : List Char}
    (firm : IsFirm front)
    (oneLine : '\n' ∉ back) :
    IsFirm (front ++ back) := by
  rcases firm with ⟨frontOneLine, first, begins, firstFirm⟩
  refine ⟨?_, first, ?_, firstFirm⟩
  · intro member
    rcases List.mem_append.mp member with inFront | inBack
    · exact frontOneLine inFront
    · exact oneLine inBack
  · rw [List.head?_append, begins]
    rfl

theorem IsFirm.ne_nil {piece : List Char} (firm : IsFirm piece) : piece ≠ [] := by
  rcases firm with ⟨-, first, begins, -⟩
  intro empty
  rw [empty] at begins
  cases begins

/-- Firm pieces with white space around them stay so under re-indentation. -/
theorem spaced_read
    {pieces : List (List Char)}
    {text : List Char}
    (spaced : Spaced pieces text)
    (firm : ∀ piece ∈ pieces, IsFirm piece)
    (reader : Reader) :
    Spaced pieces (reader.read text).1 := by
  induction spaced generalizing reader with
  | done blank => exact .done (Reader.isBlankText_read blank reader)
  | @next blanks piece text pieces blank further inductionHypothesis =>
      rcases firm piece List.mem_cons_self with ⟨oneLine, first, begins, firstFirm⟩
      rcases List.head?_eq_some_iff.mp begins with ⟨rest, rfl⟩
      simp only [Reader.read_append]
      rcases Reader.read_piece oneLine firstFirm (reader.read blanks).2 with
        ⟨indentation, indentationBlank, kept⟩
      rw [kept, List.append_assoc, ← List.append_assoc]
      refine .next (isBlankText_append (Reader.isBlankText_read blank reader) indentationBlank) ?_
      exact inductionHypothesis
        (fun other member => firm other (List.mem_cons_of_mem _ member)) _

end UnitAssembly.Layout
