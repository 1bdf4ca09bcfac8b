import Mathlib.Data.List.Infix
import UnitAssembly.Proofs.Layout.Stream

/-!
Contract: what re-indentation leaves as it is.

Owns:
- `Keeps`, a placed line against the line: the same content, and a directive unchanged;
- `tailCount`, the number of occurrences of a token counted by the tails of a text, and
  how it adds up over the lines of a text;
- `reindent_keeps_content`, the lines of a re-indented text against those of the text,
  and every fragment of a line as often in the one as in the other.

A fragment that does not begin with white space cannot begin in the indentation of a
line, and one without a line feed cannot go beyond the end of its line.  So it can be
counted line by line, and in the content of each.

Does not own: how far a line is indented.
-/

namespace UnitAssembly

/-! ## Counting by tails -/

namespace Text

/-- The number of tails of a text that begin with a token. -/
def tailCount (token text : List Char) : Nat :=
  text.tails.countP token.isPrefixOf

theorem tailCount_nil {token : List Char} (filled : token ≠ []) : tailCount token [] = 0 := by
  unfold tailCount
  simp [filled]

theorem tailCount_cons (token : List Char) (character : Char) (rest : List Char) :
    tailCount token (character :: rest) =
      tailCount token rest + if token <+: character :: rest then 1 else 0 := by
  unfold tailCount
  rw [List.tails_cons, List.countP_cons]
  simp only [List.isPrefixOf_iff_prefix]

theorem length_occurrencesFrom (token : List Char) (offset : Nat) (text : List Char) :
    (occurrencesFrom token offset text).length = tailCount token text := by
  induction text generalizing offset with
  | nil =>
      unfold occurrencesFrom tailCount
      rw [List.tails, List.countP_singleton]
      split <;> rfl
  | cons character rest inductionHypothesis =>
      have later := inductionHypothesis (offset + character.utf8Size)
      rw [occurrencesFrom, tailCount_cons, ← later]
      simp only [← List.isPrefixOf_iff_prefix]
      split <;> rfl

/-- Every occurrence begins a tail of its own. -/
theorem occurrenceCount_eq_tailCount (token text : String) :
    occurrenceCount token text = tailCount token.toList text.toList := by
  rw [← length_occurrences]
  exact length_occurrencesFrom token.toList 0 text.toList

end Text

namespace Layout

open UnitAssembly.Text

/-! ## Placed lines -/

/-- The placed line has the content of the line, and a directive stays as it is. -/
structure Keeps (line placed : Line) : Prop where
  sameContent : content placed = content line
  directive : line.head? = some '#' → placed = line

theorem keeps_place (position : Position) (line : Line) : Keeps line (place position line).1 := by
  cases directive : isDirective line with
  | true =>
      rw [place_of_directive directive]
      exact ⟨rfl, fun _ => rfl⟩
  | false =>
      rw [place_of_ordinary directive]
      refine ⟨content_indented _ line, fun sharp => ?_⟩
      have isDirective : isDirective line = true := beq_iff_eq.mpr sharp
      rw [directive] at isDirective
      cases isDirective

theorem keeps_placeAll (position : Position) (source : List Line) :
    List.Forall₂ Keeps source (placeAll position source).1 := by
  induction source generalizing position with
  | nil => exact .nil
  | cons line rest inductionHypothesis =>
      rw [placeAll_cons]
      exact .cons (keeps_place position line) (inductionHypothesis _)

theorem count_lineFeed_intercalate
    {source : List Line}
    (oneLine : ∀ line ∈ source, '\n' ∉ line) :
    (['\n'].intercalate source).count '\n' = source.length - 1 := by
  induction source with
  | nil => rfl
  | cons line rest inductionHypothesis =>
      rw [List.forall_mem_cons] at oneLine
      have none := List.count_eq_zero.mpr oneLine.1
      cases rest with
      | nil => rw [List.intercalate_singleton, none, List.length_singleton]
      | cons second others =>
          rw [List.intercalate_cons_cons, List.append_assoc, List.count_append, none,
            List.count_append, inductionHypothesis oneLine.2]
          simp only [List.count_singleton_self, List.length_cons]
          omega

/-! ## Firm fragments -/

namespace IsFirm

variable {fragment : List Char}

/-- A firm fragment does not begin at white space. -/
theorem not_prefix_of_blank
    (firm : IsFirm fragment)
    {character : Char}
    (blank : isBlank character = true)
    (rest : List Char) :
    ¬ fragment <+: character :: rest := by
  obtain ⟨-, first, begins, firstFirm⟩ := firm
  obtain ⟨others, rfl⟩ := List.head?_eq_some_iff.mp begins
  intro inFront
  have same := (List.cons_prefix_cons.mp inFront).1
  rw [same, blank] at firstFirm
  cases firstFirm

/-- A firm fragment does not go beyond the end of a line. -/
theorem prefix_line_iff (firm : IsFirm fragment) (line rest : List Char) :
    fragment <+: line ++ '\n' :: rest ↔ fragment <+: line := by
  constructor
  · intro begins
    rcases List.prefix_or_prefix_of_prefix begins (List.prefix_append line _) with
      inside | ⟨beyond, whole⟩
    · exact inside
    · rw [← whole, List.prefix_append_right_inj, List.prefix_cons_iff] at begins
      rcases begins with nothing | ⟨others, more, -⟩
      · rw [← whole, nothing, List.append_nil]
      · have lineFeed : '\n' ∈ fragment := by
          rw [← whole, more]
          exact List.mem_append_right line List.mem_cons_self
        exact absurd lineFeed firm.1
  · exact List.prefix_append_of_prefix

theorem tailCount_content (firm : IsFirm fragment) (line : Line) :
    tailCount fragment line = tailCount fragment (content line) := by
  induction line with
  | nil => rfl
  | cons character rest inductionHypothesis =>
      unfold content
      by_cases blank : isBlank character = true
      · rw [tailCount_cons, if_neg (firm.not_prefix_of_blank blank rest), Nat.add_zero,
          List.dropWhile_cons_of_pos blank, inductionHypothesis, content]
      · rw [List.dropWhile_cons_of_neg blank]

theorem tailCount_line_append (firm : IsFirm fragment) (line rest : List Char) :
    tailCount fragment (line ++ '\n' :: rest) =
      tailCount fragment line + tailCount fragment rest := by
  induction line with
  | nil =>
      have blank : isBlank '\n' = true := rfl
      rw [List.nil_append, tailCount_cons, if_neg (firm.not_prefix_of_blank blank rest),
        tailCount_nil firm.ne_nil, Nat.zero_add, Nat.add_zero]
  | cons character line inductionHypothesis =>
      rw [List.cons_append, tailCount_cons, inductionHypothesis, ← List.cons_append,
        tailCount_cons, if_congr (firm.prefix_line_iff (character :: line) rest) rfl rfl]
      omega

/-- The occurrences in a text are those in its lines. -/
theorem tailCount_intercalate (firm : IsFirm fragment) (source : List Line) :
    tailCount fragment (['\n'].intercalate source) =
      (source.map (tailCount fragment)).sum := by
  induction source with
  | nil => exact tailCount_nil firm.ne_nil
  | cons line rest inductionHypothesis =>
      rw [List.map_cons, List.sum_cons, ← inductionHypothesis]
      cases rest with
      | nil =>
          rw [List.intercalate_singleton, List.intercalate_nil, tailCount_nil firm.ne_nil,
            Nat.add_zero]
      | cons second others =>
          rw [List.intercalate_cons_cons, List.append_assoc, List.singleton_append,
            firm.tailCount_line_append]

/-- Lines that keep their contents keep all occurrences in their text. -/
theorem tailCount_of_keeps
    (firm : IsFirm fragment)
    {source placed : List Line}
    (kept : List.Forall₂ Keeps source placed) :
    tailCount fragment (['\n'].intercalate placed) =
      tailCount fragment (['\n'].intercalate source) := by
  have sameCounts : placed.map (tailCount fragment) = source.map (tailCount fragment) := by
    induction kept with
    | nil => rfl
    | @cons line placedLine _ _ keeps _ inductionHypothesis =>
        rw [List.map_cons, List.map_cons, inductionHypothesis, firm.tailCount_content placedLine,
          keeps.sameContent, ← firm.tailCount_content line]
  rw [firm.tailCount_intercalate, firm.tailCount_intercalate, sameCounts]

end IsFirm

/-! ## Whole texts -/

/-- Behind a line feed at the end of a text there is nothing but indentation. -/
theorem exists_reindent_of_lineFeed_last
    {text : String}
    {front : List Char}
    (ends : text.toList = front ++ ['\n']) :
    ∃ kept depth,
      (reindent text).value.toList =
        kept ++ '\n' :: List.replicate (indentWidth * depth) ' ' := by
  refine ⟨(Reader.start.read front).1 ++ (Reader.start.read front).2.finish,
    (Reader.start.read front).2.lineEnd.depth, ?_⟩
  rw [reindent_eq_read, ends, Reader.read_append]
  simp [Reader.read, Reader.step, Reader.finish, Reader.indentation]

/-- **Re-indentation changes leading white space only.**  A text keeps its line feeds, one
at its end included, behind which only indentation may be added.  Line by line the content
stays, and a line with `#` in its first column stays as a whole.  So a fragment that fits
on a line and does not begin with white space occurs in the result exactly as often as in
the text, overlapping occurrences counted. -/
theorem reindent_keeps_content (text : String) :
    (reindent text).value.toList.count '\n' = text.toList.count '\n' ∧
      (text.toList.getLast? = some '\n' →
        ∃ kept depth,
          (reindent text).value.toList = kept ++ '\n' :: List.replicate (4 * depth) ' ') ∧
      List.Forall₂
        (fun line placed =>
          content placed = content line ∧ (line.head? = some '#' → placed = line))
        (lines text) (lines (reindent text).value) ∧
      ∀ fragment : String, IsFirm fragment.toList →
        occurrenceCount fragment (reindent text).value = occurrenceCount fragment text := by
  have placed := lines_reindent text
  have kept := keeps_placeAll .start (lines text)
  refine ⟨?_, ?_, ?_, ?_⟩
  · have oneLine := lineFeed_not_mem_lines text
    have placedOneLine := lineFeed_not_mem_lines (reindent text).value
    rw [toList_eq_intercalate_lines text, toList_eq_intercalate_lines (reindent text).value,
      count_lineFeed_intercalate oneLine, count_lineFeed_intercalate placedOneLine, placed,
      length_placeAll]
  · intro ends
    obtain ⟨front, whole⟩ := List.getLast?_eq_some_iff.mp ends
    exact exists_reindent_of_lineFeed_last whole
  · rw [placed]
    exact kept.imp fun _ _ keeps => ⟨keeps.sameContent, keeps.directive⟩
  · intro fragment firm
    rw [occurrenceCount_eq_tailCount, occurrenceCount_eq_tailCount,
      toList_eq_intercalate_lines text, toList_eq_intercalate_lines (reindent text).value, placed]
    exact firm.tailCount_of_keeps kept

/-- A line that holds `a{a` twice, the second one beginning where the first one ends, in a
block that is not closed, and a directive that holds it once more. -/
def openBlock : String :=
  "\tb \x7b\n  a\x7ba\x7ba\n#a\x7ba\n"

theorem reindent_keeps_content_open_block :
    IsFirm "a\x7ba".toList ∧
      occurrenceCount "a\x7ba" openBlock = 3 ∧
      occurrenceCount "a\x7ba" (reindent openBlock).value = 3 ∧
      ∃ kept depth,
        (reindent openBlock).value.toList = kept ++ '\n' :: List.replicate (4 * depth) ' ' := by
  have firm : IsFirm "a\x7ba".toList := ⟨by decide, 'a', rfl, by decide⟩
  have three : occurrenceCount "a\x7ba" openBlock = 3 := by
    rw [← length_occurrences]
    decide
  obtain ⟨-, trailing, -, counts⟩ := reindent_keeps_content openBlock
  exact ⟨firm, three, (counts _ firm).trans three, trailing (by decide)⟩

end Layout

end UnitAssembly
