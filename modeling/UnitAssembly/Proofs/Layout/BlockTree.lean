import Mathlib.Data.List.Forall2
import UnitAssembly.Proofs.Layout.Walk

/-!
Contract: re-indentation of code with a block structure.

Owns:
- `Content`, `Item`: the contents of lines by what they do to the depth, and code as a
  tree of blocks over them;
- `Item.rows`, the tree printed by recursion, each line with its nesting level;
- `Row.Written`, the ways in which a line of the tree may stand in a text;
- `Lays`, what the walk makes of rows, however they are written;
- `reindent_blockTree`, the agreement of re-indentation and printing.

The printer knows the tree and no depth of a walk; the walk knows one number and no tree.
They agree because the walk comes out of each item at the very position at which it
went in.

Does not own: how code gets its block structure.
-/

namespace UnitAssembly.Layout

open UnitAssembly.Text

/-! ## Trees -/

/-- The content of a line without white space in front, by whether it begins with a
closing brace and whether it ends with an opening one. -/
structure Content (closing opening : Bool) where
  characters : Line
  oneLine : '\n' ∉ characters := by decide
  trimmed : content characters = characters := by decide
  closing_iff : characters.head? = some '}' ↔ closing = true := by decide
  opening_iff : characters.getLast? = some '{' ↔ opening = true := by decide

/-- A preprocessor directive in the first column. -/
structure Directive where
  characters : Line
  oneLine : '\n' ∉ characters := by decide
  sharp : characters.head? = some '#' := by decide

/-- A line, or a block with its opening line, the items in it, any number of middle
lines with the items behind each of them, and its closing line. -/
inductive Item where
  | plain (line : Content false false)
  | directive (line : Directive)
  | block (opening : Content false true) (inner : List Item)
      (middles : List (Content true true × List Item)) (closing : Content true false)

/-- A line of a printed tree. -/
inductive Row where
  | ordinary {closing opening : Bool} (level : Nat) (content : Content closing opening)
  | directive (line : Directive)

mutual

/-- The lines of an item that is nested as deep as the level.  Middle lines and the
closing line of a block stand at the level of its opening line. -/
def Item.rows (level : Nat) : Item → List Row
  | .plain line => [.ordinary level line]
  | .directive line => [.directive line]
  | .block opening inner middles closing =>
      [.ordinary level opening] ++ itemRows (level + 1) inner ++ middleRows level middles ++
        [.ordinary level closing]

/-- The lines of items one after the other. -/
def itemRows (level : Nat) : List Item → List Row
  | [] => []
  | item :: rest => item.rows level ++ itemRows level rest

/-- The middle lines of a block, each with the lines of the items behind it. -/
def middleRows (level : Nat) : List (Content true true × List Item) → List Row
  | [] => []
  | (middle, inner) :: rest =>
      [.ordinary level middle] ++ itemRows (level + 1) inner ++ middleRows level rest

end

/-- A row as it is printed: four spaces for each level. -/
def Row.printed : Row → Line
  | .ordinary level content => List.replicate (4 * level) ' ' ++ content.characters
  | .directive line => line.characters

/-- The lines in which a row may be written: any white space may stand in front of its
content, unless the line would then be a directive. -/
inductive Row.Written : Row → Line → Prop where
  | ordinary {closing opening : Bool} (level : Nat) (content : Content closing opening)
      (leading : List Char)
      (blank : leading.all isBlank = true)
      (oneLine : '\n' ∉ leading)
      (noSharp : (leading ++ content.characters).head? ≠ some '#') :
      Written (.ordinary level content) (leading ++ content.characters)
  | directive (line : Directive) : Written (.directive line) line.characters

theorem Row.Written.oneLine
    {row : Row}
    {line : Line}
    (written : row.Written line) :
    '\n' ∉ line := by
  cases written with
  | ordinary level content leading blank oneLine noSharp =>
      intro member
      rcases List.mem_append.mp member with inLeading | inContent
      · exact oneLine inLeading
      · exact content.oneLine inContent
  | directive verbatim => exact verbatim.oneLine

theorem oneLine_of_written
    {rows : List Row}
    {source : List Line}
    (written : List.Forall₂ Row.Written rows source) :
    ∀ line ∈ source, '\n' ∉ line := by
  induction written with
  | nil => simp
  | cons first _ inductionHypothesis =>
      exact List.forall_mem_cons.mpr ⟨first.oneLine, inductionHypothesis⟩

/-! ## The walk over rows -/

/-- However the rows are written, the walk from one position prints them and ends at the
other. -/
def Lays (before : Position) (rows : List Row) (after : Position) : Prop :=
  ∀ source, List.Forall₂ Row.Written rows source →
    placeAll before source = (rows.map Row.printed, after)

theorem lays_nil (position : Position) : Lays position [] position := by
  intro source written
  cases written
  rfl

theorem lays_single
    {before after : Position}
    {row : Row}
    (placed : ∀ line, row.Written line → place before line = (row.printed, after)) :
    Lays before [row] after := by
  intro source written
  cases written with
  | cons first none =>
      cases none
      rw [placeAll_cons, placed _ first]
      rfl

theorem Lays.append
    {before middle after : Position}
    {front back : List Row}
    (first : Lays before front middle)
    (second : Lays middle back after) :
    Lays before (front ++ back) after := by
  intro source written
  have frontWritten := (List.forall₂_take_append _ _ _ written.flip).flip
  have backWritten := (List.forall₂_drop_append _ _ _ written.flip).flip
  rw [← List.take_append_drop front.length source, placeAll_append, first _ frontWritten,
    second _ backWritten, List.map_append]

/-- One line: what it does to the position is known from its kind. -/
theorem lays_ordinary
    {closing opening : Bool}
    (content : Content closing opening)
    (position : Position) :
    let outside := if closing then position.leave else position
    Lays position [.ordinary outside.depth content]
      (if opening then outside.enter else outside) := by
  intro outside
  apply lays_single
  intro line written
  cases written with
  | ordinary level content leading blank oneLine noSharp =>
      have inside : Layout.content (leading ++ content.characters) = content.characters := by
        rw [content_append_of_blank blank, content.trimmed]
      have ordinary : isDirective (leading ++ content.characters) = false := by
        unfold isDirective
        simpa using noSharp
      have closesEq : closes (leading ++ content.characters) = closing := by
        unfold closes
        rw [inside, Bool.eq_iff_iff, beq_iff_eq]
        exact content.closing_iff
      have opensEq : opens (leading ++ content.characters) = opening := by
        unfold opens
        rw [inside, Bool.eq_iff_iff, beq_iff_eq]
        exact content.opening_iff
      unfold place indented
      rw [ordinary, closesEq, opensEq, inside]
      rfl

theorem lays_directive (line : Directive) (position : Position) :
    Lays position [.directive line] position := by
  apply lays_single
  intro source written
  cases written with
  | directive =>
      apply place_of_directive
      unfold isDirective
      rw [line.sharp]
      rfl

/-! ## The walk over trees -/

mutual

/-- The walk leaves an item at the position at which it met it. -/
theorem Item.lays_rows (item : Item) (position : Position) :
    Lays position (item.rows position.depth) position := by
  cases item with
  | plain line =>
      rw [Item.rows]
      exact lays_ordinary line position
  | directive line =>
      rw [Item.rows]
      exact lays_directive line position
  | block opening inner middles closing =>
      rw [Item.rows]
      have opened := lays_ordinary opening position
      have walked := lays_itemRows inner position.enter
      have continued := lays_middleRows middles position
      have closed := lays_ordinary closing position.enter
      exact ((opened.append walked).append continued).append closed

theorem lays_itemRows (items : List Item) (position : Position) :
    Lays position (itemRows position.depth items) position := by
  cases items with
  | nil => exact lays_nil position
  | cons item rest =>
      rw [itemRows]
      exact (item.lays_rows position).append (lays_itemRows rest position)

/-- Between the opening and the closing line the walk is one block further in. -/
theorem lays_middleRows
    (middles : List (Content true true × List Item))
    (position : Position) :
    Lays position.enter (middleRows position.depth middles) position.enter := by
  cases middles with
  | nil => exact lays_nil position.enter
  | cons part rest =>
      obtain ⟨middle, inner⟩ := part
      rw [middleRows]
      have turned := lays_ordinary middle position.enter
      have walked := lays_itemRows inner position.enter
      have continued := lays_middleRows rest position
      exact (turned.append walked).append continued

end

/-- **Re-indentation prints the tree.**  Take any tree of blocks and any white space in
front of its lines other than directives, so that none of them becomes a directive.  The
text of these lines, re-indented, is the printed tree, and no line closes a block where
none is open. -/
theorem reindent_blockTree
    (tree : List Item)
    {source : List Line}
    (written : List.Forall₂ Row.Written (itemRows 0 tree) source) :
    (reindent (unlines source)).value = unlines ((itemRows 0 tree).map Row.printed) ∧
      (reindent (unlines source)).entries = [] := by
  have laid := lays_itemRows tree .start source written
  obtain ⟨value, entries⟩ := reindent_unlines (oneLine_of_written written)
  have noSurplus : surplusClosers source = 0 := by
    rw [← clamped_placeAll, laid]
    rfl
  rw [value, entries, laid, noSurplus]
  exact ⟨rfl, rfl⟩

/-- A chain of two branches with a loop in the second one, a directive, and a line whose
indented content begins with a sharp. -/
def elseChain : List Item :=
  [.block (.mk "if (a) \x7b".toList)
    [.plain (.mk "x();  ".toList),
      .directive (.mk "#if D \x7b".toList),
      .plain (.mk "#pragma once".toList)]
    [(.mk "\x7d else \x7b".toList,
      [.block (.mk "for (;;) \x7b".toList)
        [.plain (.mk [])]
        []
        (.mk "\x7d".toList)])]
    (.mk "\x7d // a".toList)]

/-- Its lines, indented with spaces, a tab, a no-break space or not at all. -/
def elseChainLines : List Line :=
  ["\t".toList ++ "if (a) \x7b".toList,
    "".toList ++ "x();  ".toList,
    "#if D \x7b".toList,
    "  \u00A0".toList ++ "#pragma once".toList,
    "".toList ++ "\x7d else \x7b".toList,
    "          ".toList ++ "for (;;) \x7b".toList,
    "   ".toList ++ [],
    "".toList ++ "\x7d".toList,
    "  ".toList ++ "\x7d // a".toList]

theorem reindent_blockTree_else_chain :
    unlines ((itemRows 0 elseChain).map Row.printed) =
        "if (a) \x7b\n    x();  \n#if D \x7b\n    #pragma once\n\x7d else \x7b\n" ++
          "    for (;;) \x7b\n        \n    \x7d\n\x7d // a" ∧
      List.Forall₂ Row.Written (itemRows 0 elseChain) elseChainLines ∧
      (reindent (unlines elseChainLines)).value =
        unlines ((itemRows 0 elseChain).map Row.printed) ∧
      (reindent (unlines elseChainLines)).entries = [] := by
  have written : List.Forall₂ Row.Written (itemRows 0 elseChain) elseChainLines :=
    .cons (.ordinary _ _ _ (by decide) (by decide) (by decide)) <|
    .cons (.ordinary _ _ _ (by decide) (by decide) (by decide)) <|
    .cons (.directive _) <|
    .cons (.ordinary _ _ _ (by decide) (by decide) (by decide)) <|
    .cons (.ordinary _ _ _ (by decide) (by decide) (by decide)) <|
    .cons (.ordinary _ _ _ (by decide) (by decide) (by decide)) <|
    .cons (.ordinary _ _ _ (by decide) (by decide) (by decide)) <|
    .cons (.ordinary _ _ _ (by decide) (by decide) (by decide)) <|
    .cons (.ordinary _ _ _ (by decide) (by decide) (by decide)) .nil
  exact ⟨by decide, written, reindent_blockTree elseChain written⟩

end UnitAssembly.Layout
