import UnitAssembly.Text.Utf8

/-!
Contract: where a token occurs in a text, and how a text is cut there.

Owns:
- `OccursAt`, the meaning of an occurrence;
- `occurrences`, every place at which a token occurs, overlapping ones included;
- `splitAtByte`, the cut of a text at such a place.

Places are byte offsets into the UTF-8 form of the text.  The scan tries every
character boundary, so an occurrence that begins inside another one is found too:
`mem_occurrencesFrom_iff` says that it finds all of them and nothing else.

Does not own: which tokens are looked for, or how often one may occur.
-/

namespace UnitAssembly.Text

/-- The token stands in the text behind a part of `place` bytes. -/
def OccursAt (token : List Char) (place : Nat) (text : List Char) : Prop :=
  ∃ before after, text = before ++ (token ++ after) ∧ byteLength before = place

def occurrencesFrom (token : List Char) (offset : Nat) : List Char → List Nat
  | [] => if token.isPrefixOf [] then [offset] else []
  | character :: rest =>
      let later := occurrencesFrom token (offset + character.utf8Size) rest
      if token.isPrefixOf (character :: rest) then offset :: later else later

def occurrences (token text : String) : List Nat :=
  occurrencesFrom token.toList 0 text.toList

private theorem occursAt_zero_iff (token text : List Char) :
    OccursAt token 0 text ↔ token <+: text := by
  constructor
  · rintro ⟨before, after, rfl, measured⟩
    cases before with
    | nil => exact ⟨after, rfl⟩
    | cons character rest =>
        have positive := character.utf8Size_pos
        simp only [byteLength_cons] at measured
        omega
  · rintro ⟨after, rfl⟩
    exact ⟨[], after, rfl, rfl⟩

/-- An occurrence in a text with a first character is in front of everything, or it
is an occurrence in the rest, one character further on. -/
private theorem occursAt_cons_iff
    (token : List Char)
    (place : Nat)
    (character : Char)
    (rest : List Char) :
    OccursAt token place (character :: rest) ↔
      (place = 0 ∧ token <+: character :: rest) ∨
        ∃ further, place = character.utf8Size + further ∧ OccursAt token further rest := by
  constructor
  · rintro ⟨before, after, split, rfl⟩
    cases before with
    | nil => exact .inl ⟨rfl, after, split.symm⟩
    | cons first before =>
        obtain ⟨rfl, rfl⟩ := List.cons.inj split
        exact .inr ⟨byteLength before, rfl, before, after, rfl, rfl⟩
  · rintro (⟨rfl, begins⟩ | ⟨further, rfl, before, after, rfl, rfl⟩)
    · exact (occursAt_zero_iff token _).mpr begins
    · exact ⟨character :: before, after, rfl, rfl⟩

theorem mem_occurrencesFrom_iff
    (token : List Char)
    (offset : Nat)
    (text : List Char)
    (found : Nat) :
    found ∈ occurrencesFrom token offset text ↔
      ∃ place, found = offset + place ∧ OccursAt token place text := by
  induction text generalizing offset with
  | nil =>
      have atEnd (place : Nat) : OccursAt token place [] ↔ place = 0 ∧ token = [] := by
        constructor
        · rintro ⟨before, after, split, rfl⟩
          simp only [List.nil_eq, List.append_eq_nil_iff] at split
          simp [split.1, split.2.1]
        · rintro ⟨rfl, rfl⟩
          exact ⟨[], [], rfl, rfl⟩
      simp only [atEnd]
      by_cases vacuous : token = []
      · simp [occurrencesFrom, vacuous]
      · simp [occurrencesFrom, vacuous]
  | cons character rest inductionHypothesis =>
      have later := inductionHypothesis (offset + character.utf8Size)
      simp only [occursAt_cons_iff]
      by_cases begins : token <+: character :: rest
      · simp only [occurrencesFrom, List.isPrefixOf_iff_prefix.mpr begins, if_true,
          List.mem_cons, later]
        constructor
        · rintro (rfl | ⟨place, rfl, occurs⟩)
          · exact ⟨0, rfl, .inl ⟨rfl, begins⟩⟩
          · exact ⟨_, Nat.add_assoc _ _ _, .inr ⟨place, rfl, occurs⟩⟩
        · rintro ⟨place, rfl, ⟨rfl, -⟩ | ⟨further, rfl, occurs⟩⟩
          · exact .inl rfl
          · exact .inr ⟨further, (Nat.add_assoc _ _ _).symm, occurs⟩
      · have notFirst : token.isPrefixOf (character :: rest) = false := by
          rw [← Bool.not_eq_true, List.isPrefixOf_iff_prefix]
          exact begins
        simp only [occurrencesFrom, notFirst, Bool.false_eq_true, if_false, later]
        constructor
        · rintro ⟨place, rfl, occurs⟩
          exact ⟨_, Nat.add_assoc _ _ _, .inr ⟨place, rfl, occurs⟩⟩
        · rintro ⟨place, rfl, ⟨rfl, first⟩ | ⟨further, rfl, occurs⟩⟩
          · exact absurd first begins
          · exact ⟨further, (Nat.add_assoc _ _ _).symm, occurs⟩

/-- Cut a text after its first `count` bytes.  Where these end inside a character,
the cut is made in front of it; past the end, nothing is left over. -/
def splitAtByte (count : Nat) : List Char → List Char × List Char
  | [] => ([], [])
  | character :: rest =>
      if 0 < count ∧ character.utf8Size ≤ count then
        let (front, back) := splitAtByte (count - character.utf8Size) rest
        (character :: front, back)
      else
        ([], character :: rest)

theorem splitAtByte_append (front back : List Char) :
    splitAtByte (byteLength front) (front ++ back) = (front, back) := by
  induction front with
  | nil => cases back <;> simp [splitAtByte]
  | cons character rest inductionHypothesis =>
      have positive := character.utf8Size_pos
      have fits :
          0 < byteLength (character :: rest) ∧
            character.utf8Size ≤ byteLength (character :: rest) := by
        simp only [byteLength_cons]
        omega
      have remaining :
          byteLength (character :: rest) - character.utf8Size = byteLength rest := by
        simp only [byteLength_cons]
        omega
      simp only [List.cons_append, splitAtByte, fits, and_self, if_true, remaining,
        inductionHypothesis]

end UnitAssembly.Text
