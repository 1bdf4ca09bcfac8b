import Mathlib.Data.List.Permutation
import UnitAssembly.Proofs.Layout.Walk

/-!
Contract: what a second re-indentation does.

Owns:
- `Exposed`, the lines that a first walk turns into directives although they open a
  block;
- the second walk over placed lines, which is in step with the first one or, behind an
  exposed line, one block short of it;
- `reindent_idempotent_iff`, the texts that a second re-indentation leaves as they are,
  and one that it does not.

Whether a line is a directive is decided by its first column, and the first walk may
move a sharp there.  It does so only outside of all blocks, and it shows only if the
line opens a block that the second walk then does not know of.

Does not own: the walk over one text.
-/

namespace UnitAssembly.Layout

open UnitAssembly.Text

/-! ## Placed lines -/

theorem closes_indented (depth : Nat) (line : Line) :
    closes (indented depth line) = closes line := by
  unfold closes
  rw [content_indented]

theorem opens_indented (depth : Nat) (line : Line) :
    opens (indented depth line) = opens line := by
  unfold opens
  rw [content_indented]

/-- The content of the line begins with a sharp. -/
def SharpFirst (line : Line) : Prop :=
  (content line).head? = some '#'

instance (line : Line) : Decidable (SharpFirst line) :=
  inferInstanceAs (Decidable ((content line).head? = some '#'))

theorem not_closes_of_sharpFirst {line : Line} (sharp : SharpFirst line) : closes line = false := by
  unfold closes
  rw [show (content line).head? = some '#' from sharp]
  rfl

theorem isDirective_indented_iff (depth : Nat) (line : Line) :
    isDirective (indented depth line) = true ↔ depth = 0 ∧ SharpFirst line := by
  unfold isDirective indented SharpFirst
  cases depth with
  | zero => simp
  | succ depth => simp [indentWidth, Nat.mul_succ, List.replicate_succ]

/-- A line that becomes a directive by being placed, and that opens a block. -/
structure Exposed (depth : Nat) (line : Line) : Prop where
  ordinary : isDirective line = false
  sharp : SharpFirst line
  opening : opens line = true
  outside : depth = 0

/-- The first line that is no directive, if there is one, closes a block. -/
def ClosesNext (lines : List Line) : Prop :=
  ∀ next, lines.find? (fun line => !isDirective line) = some next → closes next = true

/-! ## One line, placed twice -/

/-- A line that stays a line, at the depth of the first time. -/
theorem place_placed
    {depth : Nat}
    {line : Line}
    (ordinary : isDirective (indented depth line) = false)
    {again : Position}
    (stands : standsAt again.depth line = depth) :
    (place again (indented depth line)).1 = indented depth line ∧
      (place again (indented depth line)).2.depth = depth + if opens line then 1 else 0 := by
  have standsAgain : standsAt again.depth (indented depth line) = depth := by
    unfold standsAt at stands ⊢
    rw [closes_indented, stands]
  constructor
  · rw [place_of_ordinary ordinary, standsAgain, indented, content_indented, ← indented]
  · rw [depth_place ordinary, standsAgain, opens_indented]

/-- Two walks in step see the line the same way and stay in step, but for an exposed
line. -/
theorem place_in_step
    {position again : Position}
    (inStep : again.depth = position.depth)
    (line : Line) :
    (place again (place position line).1).1 = (place position line).1 ∧
      (¬ Exposed position.depth line →
        (place again (place position line).1).2.depth = (place position line).2.depth) ∧
      (Exposed position.depth line →
        (place again (place position line).1).2.depth = 0 ∧ (place position line).2.depth = 1) := by
  cases directive : isDirective line with
  | true =>
      rw [place_of_directive directive, place_of_directive directive]
      refine ⟨rfl, fun _ => inStep, fun exposed => ?_⟩
      rw [exposed.ordinary] at directive
      cases directive
  | false =>
      rw [place_of_ordinary directive, depth_place directive]
      cases becomes : isDirective (indented (standsAt position.depth line) line) with
      | false =>
          obtain ⟨placed, depth⟩ := place_placed becomes (congrArg (standsAt · line) inStep)
          refine ⟨placed, fun _ => depth, fun exposed => ?_⟩
          -- An exposed line would have become a directive.
          have directiveNow := (isDirective_indented_iff (standsAt position.depth line) line).mpr
            ⟨by simp [standsAt, exposed.outside], exposed.sharp⟩
          rw [directiveNow] at becomes
          cases becomes
      | true =>
          obtain ⟨outside, sharp⟩ := (isDirective_indented_iff _ _).mp becomes
          have depthZero : position.depth = 0 := by
            unfold standsAt at outside
            rwa [not_closes_of_sharpFirst sharp] at outside
          rw [place_of_directive becomes, outside]
          refine ⟨rfl, fun hidden => ?_, fun exposed => ?_⟩
          · have notOpening : opens line = false := by
              rw [← Bool.not_eq_true]
              exact fun opening => hidden ⟨directive, sharp, opening, depthZero⟩
            rw [notOpening, inStep, depthZero]
            rfl
          · rw [exposed.opening, inStep, depthZero]
            exact ⟨rfl, rfl⟩

/-- A second walk that is one block short of the first one catches up at a closing line. -/
theorem place_of_closing
    {position again : Position}
    (ahead : position.depth = 1)
    (short : again.depth = 0)
    {line : Line}
    (ordinary : isDirective line = false)
    (closing : closes line = true) :
    (place again (place position line).1).1 = (place position line).1 ∧
      (place again (place position line).1).2.depth = (place position line).2.depth := by
  have stands : standsAt position.depth line = 0 := by simp [standsAt, closing, ahead]
  have standsAgain : standsAt again.depth line = 0 := by simp [standsAt, short]
  have notSharp : ¬ SharpFirst line := fun sharp => by
    rw [not_closes_of_sharpFirst sharp] at closing
    cases closing
  have still : isDirective (indented 0 line) = false := by
    rw [← Bool.not_eq_true, isDirective_indented_iff]
    exact fun becomes => notSharp becomes.2
  rw [place_of_ordinary ordinary, depth_place ordinary, stands]
  exact place_placed still standsAgain

/-- Any other line it places one block further out. -/
theorem place_ne_of_not_closing
    {position again : Position}
    (ahead : position.depth = 1)
    (short : again.depth = 0)
    {line : Line}
    (ordinary : isDirective line = false)
    (notClosing : closes line = false) :
    (place again (place position line).1).1 ≠ (place position line).1 := by
  have stands : standsAt position.depth line = 1 := by simp [standsAt, notClosing, ahead]
  have still : isDirective (indented 1 line) = false := by
    rw [← Bool.not_eq_true, isDirective_indented_iff]
    exact fun becomes => absurd becomes.1 (by decide)
  have standsAgain : standsAt again.depth (indented 1 line) = 0 := by simp [standsAt, short]
  rw [place_of_ordinary ordinary, stands, place_of_ordinary still, standsAgain]
  intro same
  have sameLength := congrArg List.length same
  rw [indented, content_indented, indented] at sameLength
  simp only [indentWidth, List.length_append, List.length_replicate] at sameLength
  omega

/-! ## All lines, placed twice -/

/-- Every exposed line is followed by a closing one, or by none. -/
def Harmless (position : Position) (lines : List Line) : Prop :=
  ∀ front line rest, lines = front ++ line :: rest →
    Exposed (placeAll position front).2.depth line → ClosesNext rest

theorem harmless_cons_iff (position : Position) (line : Line) (rest : List Line) :
    Harmless position (line :: rest) ↔
      (Exposed position.depth line → ClosesNext rest) ∧
        Harmless (place position line).2 rest := by
  constructor
  · intro harmless
    refine ⟨harmless [] line rest rfl, ?_⟩
    intro front other behind split
    exact harmless (line :: front) other behind (by rw [split, List.cons_append])
  · rintro ⟨first, further⟩ front other behind split
    cases front with
    | nil =>
        obtain ⟨rfl, rfl⟩ := List.cons.inj split
        exact first
    | cons same front =>
        obtain ⟨rfl, inRest⟩ := List.cons.inj split
        exact further front other behind inRest

theorem closesNext_cons_of_directive
    {line : Line}
    (directive : isDirective line = true)
    (rest : List Line) :
    ClosesNext (line :: rest) ↔ ClosesNext rest := by
  unfold ClosesNext
  rw [List.find?_cons_of_neg (by simp [directive])]

theorem closesNext_cons_of_ordinary
    {line : Line}
    (ordinary : isDirective line = false)
    (rest : List Line) :
    ClosesNext (line :: rest) ↔ closes line = true := by
  unfold ClosesNext
  rw [List.find?_cons_of_pos (by simp [ordinary])]
  constructor
  · intro next
    exact next line rfl
  · intro closing next found
    rw [← Option.some.inj found]
    exact closing

/-- Both walks, line by line: in step they agree exactly on harmless lines; a block
short, the second one must also meet a closing line first. -/
theorem placeAll_placed_iff
    (lines : List Line)
    (position again : Position) :
    (again.depth = position.depth →
      ((placeAll again (placeAll position lines).1).1 = (placeAll position lines).1 ↔
        Harmless position lines)) ∧
    (position.depth = 1 → again.depth = 0 →
      ((placeAll again (placeAll position lines).1).1 = (placeAll position lines).1 ↔
        ClosesNext lines ∧ Harmless position lines)) := by
  induction lines generalizing position again with
  | nil => simp [placeAll, Harmless, ClosesNext]
  | cons line rest inductionHypothesis =>
      simp only [placeAll_cons, List.cons.injEq, harmless_cons_iff]
      constructor
      · intro inStep
        obtain ⟨placed, hiddenStep, exposedStep⟩ := place_in_step inStep line
        simp only [placed, true_and]
        by_cases exposed : Exposed position.depth line
        · obtain ⟨short, ahead⟩ := exposedStep exposed
          rw [(inductionHypothesis _ _).2 ahead short]
          simp [exposed]
        · rw [(inductionHypothesis _ _).1 (hiddenStep exposed)]
          simp [exposed]
      · intro ahead short
        have hidden : ¬ Exposed position.depth line := fun exposed => by
          rw [exposed.outside] at ahead
          cases ahead
        simp only [hidden, false_implies, true_and]
        cases directive : isDirective line with
        | true =>
            simp only [place_of_directive directive, true_and,
              closesNext_cons_of_directive directive]
            exact (inductionHypothesis position again).2 ahead short
        | false =>
            rw [closesNext_cons_of_ordinary directive]
            cases closing : closes line with
            | true =>
                obtain ⟨placed, depth⟩ := place_of_closing ahead short directive closing
                simp only [placed, true_and]
                exact (inductionHypothesis _ _).1 depth
            | false =>
                simp [place_ne_of_not_closing ahead short directive closing]

/-- **When a second re-indentation changes nothing.**  Exactly when every exposed line
of the text, one outside of all blocks whose indented content begins with a sharp and
opens a block, is followed by a closing line, or only by directives.  So it is whenever
no indented line begins with a sharp and opens a block. -/
theorem reindent_idempotent_iff (text : String) :
    ((reindent (reindent text).value).value = (reindent text).value ↔
      ∀ front line rest, lines text = front ++ line :: rest →
        Exposed (depthBehind front) line → ClosesNext rest) ∧
    ((∀ line ∈ lines text, isDirective line = false → SharpFirst line → opens line = false) →
      (reindent (reindent text).value).value = (reindent text).value) := by
  have sameText :
      (reindent (reindent text).value).value = (reindent text).value ↔
        (placeAll .start (placeAll .start (lines text)).1).1 =
          (placeAll .start (lines text)).1 := by
    constructor
    · intro same
      rw [← lines_reindent, ← lines_reindent, same]
    · intro same
      rw [reindent_value, lines_reindent, same, ← reindent_value]
  have exact :=
    sameText.trans ((placeAll_placed_iff (lines text) .start .start).1 rfl)
  refine ⟨exact, ?_⟩
  intro unexposed
  apply exact.mpr
  intro front line rest split exposed
  have member : line ∈ lines text := by
    rw [split]
    exact List.mem_append_right _ List.mem_cons_self
  have notOpening := unexposed line member exposed.ordinary exposed.sharp
  rw [exposed.opening] at notOpening
  cases notOpening

/-- A text with directives that do not stand in the first column, in a block and outside
of it. -/
def indentedDirectives : String :=
  "f() \x7b\n      #ifdef X\n\x7d else \x7b\n#endif\n  \x7d\n  #undef X"

theorem reindent_idempotent_indented_directives :
    (reindent indentedDirectives).value =
        "f() \x7b\n    #ifdef X\n\x7d else \x7b\n#endif\n\x7d\n#undef X" ∧
      (∀ line ∈ lines indentedDirectives,
        isDirective line = false → SharpFirst line → opens line = false) ∧
      (reindent (reindent indentedDirectives).value).value =
        (reindent indentedDirectives).value := by
  have unexposed :
      ∀ line ∈ lines indentedDirectives,
        isDirective line = false → SharpFirst line → opens line = false := by
    decide
  exact ⟨by cbv, unexposed, (reindent_idempotent_iff indentedDirectives).2 unexposed⟩

/-- An indented line that begins with a sharp and opens a block, outside of all blocks:
the second time it is a directive and opens none. -/
theorem reindent_again_moves_line :
    (reindent " #x \x7b\na").value = "#x \x7b\n    a" ∧
      (reindent (reindent " #x \x7b\na").value).value = "#x \x7b\na" ∧
      (reindent (reindent " #x \x7b\na").value).value ≠ (reindent " #x \x7b\na").value := by
  have once : (reindent " #x \x7b\na").value = "#x \x7b\n    a" := by cbv
  have twice : (reindent "#x \x7b\n    a").value = "#x \x7b\na" := by cbv
  rw [once, twice]
  decide

end UnitAssembly.Layout
