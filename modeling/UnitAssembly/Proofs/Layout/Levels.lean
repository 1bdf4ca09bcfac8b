import Mathlib.Algebra.BigOperators.Group.Finset.Basic
import Mathlib.Algebra.Group.Int.Defs
import Mathlib.Data.Finset.Fold
import UnitAssembly.Proofs.Layout.Walk

/-!
Contract: the depth of a line in closed form.

Owns:
- `level`, the depth at which a line would stand if the depth could drop below zero,
  as a sum over the lines in front of it;
- `lowest`, the lowest of these depths so far, or zero;
- `Tracks`, the walk with its floor at zero against the walk without one;
- `reindent_closed_form`, every line and the reported count from sums and minima.

A closing line that finds no open block leaves the depth at zero and the count one
higher, while the walk without a floor sinks one below its lowest depth.  The two walks
are therefore always apart by that lowest depth, and the count is how low it is.

Does not own: what the lines are.
-/

namespace UnitAssembly.Layout

/-! ## The walk without a floor -/

/-- One for a line that closes a block, zero for any other line; a directive does not. -/
def closersOf (line : Line) : Int :=
  if isDirective line = false ∧ closes line = true then 1 else 0

/-- One for a line that opens a block, zero for any other line; a directive does not. -/
def openersOf (line : Line) : Int :=
  if isDirective line = false ∧ opens line = true then 1 else 0

/-- The value of the line of a number, or zero past the last line. -/
def valueAt (value : Line → Int) (lines : List Line) (number : Nat) : Int :=
  (lines[number]?).elim 0 value

/-- The opened blocks less the closed ones, over the first lines of a text. -/
def balance (lines : List Line) (count : Nat) : Int :=
  ∑ number ∈ Finset.range count, (valueAt openersOf lines number - valueAt closersOf lines number)

/-- The depth at which the line of a number would stand without a floor. -/
def level (lines : List Line) (number : Nat) : Int :=
  balance lines number - valueAt closersOf lines number

/-- The least of zero and the levels of the first lines of a text. -/
def lowest (lines : List Line) (count : Nat) : Int :=
  (Finset.range count).fold min 0 (level lines)

/-- How far the level of a line lies above the lowest level up to it, zero included. -/
def height (lines : List Line) (number : Nat) : Int :=
  level lines number - lowest lines (number + 1)

theorem balance_succ (lines : List Line) (count : Nat) :
    balance lines (count + 1) =
      balance lines count +
        (valueAt openersOf lines count - valueAt closersOf lines count) :=
  Finset.sum_range_succ _ _

theorem lowest_succ (lines : List Line) (count : Nat) :
    lowest lines (count + 1) = min (lowest lines count) (level lines count) := by
  unfold lowest
  rw [Finset.range_add_one, Finset.fold_insert Finset.notMem_range_self, min_comm]

theorem height_nonneg (lines : List Line) (number : Nat) : 0 ≤ height lines number := by
  unfold height
  rw [lowest_succ]
  exact Int.sub_nonneg.mpr (min_le_right _ _)

theorem lowest_le_zero (lines : List Line) (count : Nat) : lowest lines count ≤ 0 :=
  (Finset.fold_min_le 0).mpr (Or.inl le_rfl)

/-! ## The walk with its floor -/

/-- A position of the walk whose counterpart without a floor has the given balance and
has been as low as the given floor. -/
structure Tracks (position : Position) (balance floor : Int) : Prop where
  depth : (position.depth : Int) = balance - floor
  clamped : (position.clamped : Int) = -floor

theorem tracks_start : Tracks .start 0 0 :=
  ⟨rfl, rfl⟩

/-- One line: it stands above the lowest level by as much as its own level does, and
the walks stay apart by the lowest level. -/
theorem Tracks.place
    {position : Position}
    {balance floor : Int}
    (tracks : Tracks position balance floor)
    (line : Line) :
    (isDirective line = false →
        (standsAt position.depth line : Int) =
          balance - closersOf line - min floor (balance - closersOf line)) ∧
      Tracks (place position line).2 (balance + (openersOf line - closersOf line))
        (min floor (balance - closersOf line)) := by
  obtain ⟨depth, clamped⟩ := tracks
  cases directive : isDirective line with
  | true =>
      have noCloser : closersOf line = 0 := by simp [closersOf, directive]
      have noOpener : openersOf line = 0 := by simp [openersOf, directive]
      have stays : min floor (balance - 0) = floor := min_eq_left (by omega)
      rw [place_of_directive directive, noCloser, noOpener, stays]
      refine ⟨nofun, ?_, clamped⟩
      show (position.depth : Int) = balance + (0 - 0) - floor
      omega
  | false =>
      have closers : closersOf line = if closes line = true then 1 else 0 := by
        simp [closersOf, directive]
      have openers : openersOf line = if opens line = true then 1 else 0 := by
        simp [openersOf, directive]
      -- The floor sinks exactly where the count rises: by one, since the balance is there.
      have lower :
          min floor (balance - closersOf line) =
            floor - if closes line = true ∧ position.depth = 0 then 1 else 0 := by
        rw [closers]
        by_cases closing : closes line = true
        · by_cases outside : position.depth = 0
          · rw [if_pos closing, if_pos ⟨closing, outside⟩, min_eq_right (by omega)]
            omega
          · rw [if_pos closing, if_neg (fun both => outside both.2), min_eq_left (by omega)]
            omega
        · rw [if_neg closing, if_neg (fun both => closing both.1), min_eq_left (by omega)]
          omega
      have stands :
          (standsAt position.depth line : Int) =
            balance - closersOf line - min floor (balance - closersOf line) := by
        rw [lower, closers, standsAt]
        cases closes line <;> simp <;> omega
      refine ⟨fun _ => stands, ?_, ?_⟩
      · rw [depth_place directive, Int.natCast_add, stands, openers]
        split_ifs <;> omega
      · rw [clamped_place directive, lower, Int.natCast_add, clamped]
        split_ifs <;> omega

/-- All lines of a text up to a number. -/
theorem tracks_take
    {lines : List Line}
    {count : Nat}
    (inside : count ≤ lines.length) :
    Tracks (placeAll .start (lines.take count)).2 (balance lines count) (lowest lines count) := by
  induction count with
  | zero => exact tracks_start
  | succ count inductionHypothesis =>
      have before := inductionHypothesis (Nat.le_of_succ_le inside)
      have found : lines[count]? = some lines[count] := List.getElem?_eq_getElem inside
      have step := (before.place lines[count]).2
      rw [← List.take_append_getElem inside, placeAll_append]
      rw [balance_succ, lowest_succ, level]
      unfold valueAt
      rw [found]
      exact step

/-- A line stands in as many blocks as its height. -/
theorem standsAt_eq_height
    {lines : List Line}
    {number : Nat}
    {line : Line}
    (found : lines[number]? = some line)
    (ordinary : isDirective line = false) :
    (standsAt (depthBehind (lines.take number)) line : Int) = height lines number := by
  have inside := (List.getElem?_eq_some_iff.mp found).1
  have closers : valueAt closersOf lines number = closersOf line := by
    rw [valueAt, found]
    rfl
  rw [height, lowest_succ, level, closers]
  exact ((tracks_take (Nat.le_of_lt inside)).place line).1 ordinary

/-- **Every line and the count in closed form.**  A directive stays; any other line gets
four spaces for each block by which its level lies above the lowest level up to it, zero
included; and the number of lines reported for closing nothing, if there are any, is how
far below zero the lowest level of all lines lies. -/
theorem reindent_closed_form (text : String) :
    (∀ number, 0 ≤ height (lines text) number) ∧
      (reindent text).value =
        unlines ((lines text).mapIdx fun number line =>
          if isDirective line then line
          else List.replicate (4 * height (lines text) number).toNat ' ' ++ content line) ∧
      lowest (lines text) (lines text).length ≤ 0 ∧
      (reindent text).entries =
        if 0 < -lowest (lines text) (lines text).length then
          [.closersClamped (-lowest (lines text) (lines text).length).toNat]
        else [] := by
  refine ⟨height_nonneg (lines text), ?_, lowest_le_zero _ _, ?_⟩
  · rw [reindent_value]
    congr 1
    apply List.ext_getElem?
    intro number
    rw [getElem?_placeAll, List.getElem?_mapIdx]
    cases found : (lines text)[number]? with
    | none => rfl
    | some line =>
        rw [Option.map_some, Option.map_some, Option.some.injEq]
        cases directive : isDirective line with
        | true => rw [place_of_directive directive, if_pos rfl]
        | false =>
            have stands := standsAt_eq_height found directive
            have spaces :
                (4 * height (lines text) number).toNat =
                  indentWidth * standsAt (depthBehind ((lines text).take number)) line := by
              rw [← stands, indentWidth]
              omega
            rw [place_of_ordinary directive, if_neg Bool.false_ne_true, indented, spaces,
              depthBehind]
  · have clamped := (tracks_take (le_refl (lines text).length)).clamped
    rw [List.take_length, clamped_placeAll] at clamped
    rw [reindent_entries, ← clamped, Int.toNat_natCast]
    simp only [Int.natCast_pos]

/-- Lines that close nothing at both ends, a line that closes and opens, and the same
directive with and without white space in front of it. -/
def mixedText : String :=
  "  \x7d\n" ++
  "f() \x7b\n" ++
  " #if X \x7b\n" ++
  "#if X \x7b\n" ++
  "x;\n" ++
  "\x7d else \x7b\n" ++
  "\x7d\n" ++
  "\x7d\n" ++
  "\x7d"

theorem reindent_closed_form_mixed :
    (reindent mixedText).value =
        "\x7d\n" ++
        "f() \x7b\n" ++
        "    #if X \x7b\n" ++
        "#if X \x7b\n" ++
        "        x;\n" ++
        "    \x7d else \x7b\n" ++
        "    \x7d\n" ++
        "\x7d\n" ++
        "\x7d" ∧
      (reindent mixedText).entries = [.closersClamped 2] := by
  rcases reindent_closed_form mixedText with ⟨-, emitted, -, entries⟩
  rw [emitted, entries]
  constructor
  · decide +kernel
  · decide +kernel

end UnitAssembly.Layout
