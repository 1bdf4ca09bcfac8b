import Mathlib.Data.List.Forall2
import UnitAssembly.Proofs.Text.Places
import UnitAssembly.Text.Blank

/-!
Contract: pieces of text that follow one another.

Owns:
- `Spaced`, pieces with nothing but white space around them;
- `StandInOrder`, pieces found one behind the other in a text;
- `solid`, a text without its white space.

Does not own: what the pieces are.
-/

namespace UnitAssembly.Text

/-- The characters of a text that are not white space. -/
def solid (text : List Char) : List Char :=
  text.filter fun character => !isBlank character

def IsBlankText (text : List Char) : Prop :=
  ∀ character ∈ text, isBlank character = true

/-- The text is made of the pieces, in order, and of white space around them. -/
inductive Spaced : List (List Char) → List Char → Prop where
  | done {blanks : List Char} (blank : IsBlankText blanks) : Spaced [] blanks
  | next {blanks piece text : List Char} {pieces : List (List Char)}
      (blank : IsBlankText blanks)
      (further : Spaced pieces text) :
      Spaced (piece :: pieces) (blanks ++ (piece ++ text))

/-- Each piece occurs in the text, at places that increase from piece to piece. -/
def StandInOrder (pieces : List (List Char)) (text : List Char) : Prop :=
  ∃ places : List Nat,
    List.Forall₂ (fun piece place => OccursAt piece place text) pieces places ∧
      places.Pairwise (· < ·)

/-! ## White space -/

theorem isBlankText_nil : IsBlankText [] := by
  intro character member
  cases member

theorem isBlankText_append
    {front back : List Char}
    (frontBlank : IsBlankText front)
    (backBlank : IsBlankText back) :
    IsBlankText (front ++ back) := by
  intro character member
  rcases List.mem_append.mp member with inFront | inBack
  · exact frontBlank character inFront
  · exact backBlank character inBack

theorem solid_append (front back : List Char) : solid (front ++ back) = solid front ++ solid back :=
  List.filter_append front back

theorem solid_eq_nil {blanks : List Char} (blank : IsBlankText blanks) : solid blanks = [] := by
  unfold solid
  rw [List.filter_eq_nil_iff]
  intro character member
  simp [blank character member]

/-! ## Spaced pieces -/

namespace Spaced

variable {pieces pieces' : List (List Char)} {text text' : List Char}

theorem blank_append
    {blanks : List Char}
    (blank : IsBlankText blanks)
    (spaced : Spaced pieces text) :
    Spaced pieces (blanks ++ text) := by
  cases spaced with
  | done behind => exact .done (isBlankText_append blank behind)
  | next behind further =>
      rw [← List.append_assoc]
      exact .next (isBlankText_append blank behind) further

theorem append (front : Spaced pieces text) (back : Spaced pieces' text') :
    Spaced (pieces ++ pieces') (text ++ text') := by
  induction front with
  | done blank => exact blank_append blank back
  | next blank further inductionHypothesis =>
      simp only [List.cons_append, List.append_assoc]
      exact .next blank inductionHypothesis

theorem single (piece : List Char) : Spaced [piece] piece := by
  have alone : Spaced [piece] ([] ++ (piece ++ [])) :=
    .next isBlankText_nil (.done isBlankText_nil)
  rwa [List.nil_append, List.append_nil] at alone

/-- Joining pieces with white space spaces them. -/
theorem intercalate
    {separator : List Char}
    (blank : IsBlankText separator)
    (pieces : List (List Char)) :
    Spaced pieces (separator.intercalate pieces) := by
  match pieces with
  | [] => exact .done isBlankText_nil
  | [piece] =>
      rw [List.intercalate_singleton]
      exact single piece
  | piece :: second :: rest =>
      rw [List.intercalate_cons_cons, List.append_assoc]
      have further := intercalate blank (second :: rest)
      exact append (single piece) (blank_append blank further)

theorem solid_eq (spaced : Spaced pieces text) : solid text = solid pieces.flatten := by
  induction spaced with
  | done blank =>
      rw [solid_eq_nil blank]
      rfl
  | next blank further inductionHypothesis =>
      rw [solid_append, solid_eq_nil blank, List.nil_append, solid_append, inductionHypothesis,
        List.flatten_cons, solid_append]

/-- Pieces that are not empty stand at increasing places. -/
theorem standInOrder
    (spaced : Spaced pieces text)
    (filled : ∀ piece ∈ pieces, piece ≠ []) :
    StandInOrder pieces text := by
  induction spaced with
  | done blank => exact ⟨[], .nil, .nil⟩
  | @next blanks piece text pieces blank further inductionHypothesis =>
      rcases inductionHypothesis fun other member => filled other (List.mem_cons_of_mem _ member)
        with ⟨places, occur, increasing⟩
      have positive := byteLength_pos (filled piece List.mem_cons_self)
      refine ⟨byteLength blanks :: places.map (byteLength (blanks ++ piece) + ·), ?_, ?_⟩
      · refine .cons ⟨blanks, text, rfl, rfl⟩ ?_
        rw [List.forall₂_map_right_iff]
        refine occur.imp ?_
        intro other place occurs
        rw [← List.append_assoc]
        exact occursAt_append_left (blanks ++ piece) occurs
      · refine List.pairwise_cons.mpr ⟨?_, ?_⟩
        · intro place member
          rcases List.mem_map.mp member with ⟨further, -, rfl⟩
          rw [byteLength_append]
          omega
        · rw [List.pairwise_map]
          exact increasing.imp fun smaller => by omega

end Spaced

end UnitAssembly.Text
