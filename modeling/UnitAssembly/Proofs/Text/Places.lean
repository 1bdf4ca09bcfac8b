import Mathlib.Data.List.Nodup
import Mathlib.Data.Set.Card
import Mathlib.Data.String.Basic
import UnitAssembly.Text.Occurrence

/-!
Contract: the occurrences of a token in a text as a set of places.

Owns:
- parts of a text measured in bytes, when two of them are the same part, and the part
  between two byte offsets;
- `occurrenceCount`, the number of places at which a token occurs, and its agreement
  with the scan;
- `OccursOnce`, a token with a single place, and where else it cannot stand.

Two occurrences may share characters: nothing here assumes that they do not.

Does not own: any particular token.
-/

namespace UnitAssembly.Text

/-! ## Parts of a text by their bytes -/

theorem byteLength_eq_zero_iff (text : List Char) : byteLength text = 0 ↔ text = [] := by
  constructor
  · intro empty
    cases text with
    | nil => rfl
    | cons character rest =>
        have positive := character.utf8Size_pos
        simp only [byteLength_cons] at empty
        omega
  · intro empty
    rw [empty, byteLength_nil]

theorem byteLength_pos {text : List Char} (filled : text ≠ []) : 0 < byteLength text := by
  have notZero := mt (byteLength_eq_zero_iff text).mp filled
  omega

/-- Of two fronts of one text the one with fewer bytes begins the other. -/
theorem exists_append_of_byteLength_le
    {front back front' back' : List Char}
    (same : front ++ back = front' ++ back')
    (shorter : byteLength front ≤ byteLength front') :
    ∃ between, front' = front ++ between ∧ back = between ++ back' := by
  rcases List.append_eq_append_iff.mp same with ⟨between, longer, rest⟩ | ⟨between, longer, rest⟩
  · exact ⟨between, longer, rest⟩
  · have nothing : between = [] := by
      rw [longer, byteLength_append] at shorter
      exact (byteLength_eq_zero_iff between).mp (by omega)
    subst nothing
    exact ⟨[], by simpa using longer.symm, by simpa using rest.symm⟩

theorem append_inj_of_byteLength
    {front back front' back' : List Char}
    (same : front ++ back = front' ++ back')
    (measured : byteLength front = byteLength front') :
    front = front' ∧ back = back' := by
  obtain ⟨between, longer, rest⟩ := exists_append_of_byteLength_le same measured.le
  have nothing : between = [] := by
    rw [longer, byteLength_append] at measured
    exact (byteLength_eq_zero_iff between).mp (by omega)
  subst nothing
  exact ⟨by simpa using longer.symm, by simpa using rest⟩

theorem byteLength_eq_utf8Len (text : List Char) : byteLength text = String.utf8Len text := by
  induction text with
  | nil => rfl
  | cons character rest inductionHypothesis =>
      rw [byteLength_cons, String.utf8Len_cons, inductionHypothesis, Nat.add_comm]

theorem byteLength_toList (text : String) : byteLength text.toList = text.utf8ByteSize := by
  rw [byteLength_eq_utf8Len, String.utf8Len_toList]

theorem length_utf8 (text : String) : (utf8 text).length = text.utf8ByteSize := by
  unfold utf8
  simp

/-- The part of a text between two byte offsets. -/
def SliceAt (text : String) (bounds : Nat × Nat) (part : List Char) : Prop :=
  ∃ front back,
    text.toList = front ++ part ++ back ∧ bounds.1 = byteLength front ∧
      bounds.2 = byteLength (front ++ part)

theorem isValid_of_append
    {text : String}
    {front back : List Char}
    (split : text.toList = front ++ back) :
    (⟨byteLength front⟩ : String.Pos.Raw).IsValid text := by
  rw [String.Pos.Raw.isValid_iff_exists_append]
  refine ⟨String.ofList front, String.ofList back, ?_, ?_⟩
  · rw [← String.ofList_append, ← split, String.ofList_toList]
  · rw [String.rawEndPos_ofList, byteLength_eq_utf8Len]

/-- A slice lies within its text, both ends fall between characters, and cutting there
gives the part. -/
theorem SliceAt.bounds
    {text : String}
    {bounds : Nat × Nat}
    {part : List Char}
    (slice : SliceAt text bounds part) :
    bounds.1 ≤ bounds.2 ∧ bounds.2 ≤ text.utf8ByteSize ∧
      (⟨bounds.1⟩ : String.Pos.Raw).IsValid text ∧ (⟨bounds.2⟩ : String.Pos.Raw).IsValid text ∧
      String.Pos.Raw.extract text ⟨bounds.1⟩ ⟨bounds.2⟩ = String.ofList part := by
  obtain ⟨front, back, split, start, stop⟩ := slice
  have whole : text = String.ofList (front ++ part ++ back) := by
    rw [← split, String.ofList_toList]
  rw [start, stop]
  refine ⟨?_, ?_, ?_, isValid_of_append split, ?_⟩
  · rw [byteLength_append]
    omega
  · rw [← byteLength_toList, split, byteLength_append (front ++ part)]
    omega
  · rw [List.append_assoc] at split
    exact isValid_of_append split
  · rw [whole, byteLength_append, byteLength_eq_utf8Len, byteLength_eq_utf8Len]
    exact String.extract_of_valid front part back

/-! ## The scan lists the places in order -/

theorem offset_le_of_mem_occurrencesFrom
    {token text : List Char}
    {offset found : Nat}
    (member : found ∈ occurrencesFrom token offset text) :
    offset ≤ found := by
  obtain ⟨place, rfl, -⟩ := (mem_occurrencesFrom_iff token offset text found).mp member
  omega

theorem occurrencesFrom_pairwise (token : List Char) (offset : Nat) (text : List Char) :
    (occurrencesFrom token offset text).Pairwise (· < ·) := by
  induction text generalizing offset with
  | nil =>
      unfold occurrencesFrom
      split <;> simp
  | cons character rest inductionHypothesis =>
      have later := inductionHypothesis (offset + character.utf8Size)
      unfold occurrencesFrom
      simp only
      split
      · refine List.Pairwise.cons ?_ later
        intro found member
        have behind := offset_le_of_mem_occurrencesFrom member
        have positive := character.utf8Size_pos
        omega
      · exact later

theorem mem_occurrences_iff (token text : String) (place : Nat) :
    place ∈ occurrences token text ↔ OccursAt token.toList place text.toList := by
  unfold occurrences
  rw [mem_occurrencesFrom_iff]
  simp

theorem occurrences_pairwise (token text : String) :
    (occurrences token text).Pairwise (· < ·) :=
  occurrencesFrom_pairwise token.toList 0 text.toList

/-- The number of places at which a token occurs, overlapping occurrences counted. -/
noncomputable def occurrenceCount (token text : String) : Nat :=
  Set.ncard {place | OccursAt token.toList place text.toList}

theorem length_occurrences (token text : String) :
    (occurrences token text).length = occurrenceCount token text := by
  have distinct : (occurrences token text).Nodup :=
    (occurrences_pairwise token text).imp Nat.ne_of_lt
  have places :
      {place | OccursAt token.toList place text.toList} =
        ((occurrences token text).toFinset : Set Nat) := by
    ext place
    simp only [Set.mem_ofPred_eq, List.coe_toFinset]
    exact (mem_occurrences_iff token text place).symm
  rw [occurrenceCount, places, Set.ncard_coe_finset, List.toFinset_card_of_nodup distinct]

/-! ## Tokens with a single place -/

/-- All occurrences of the token are at one place. -/
def OccursOnce (token text : List Char) : Prop :=
  ∀ place place', OccursAt token place text → OccursAt token place' text → place = place'

theorem occursAt_append_left
    {token text : List Char}
    {place : Nat}
    (front : List Char)
    (occurs : OccursAt token place text) :
    OccursAt token (byteLength front + place) (front ++ text) := by
  obtain ⟨before, after, rfl, rfl⟩ := occurs
  exact ⟨front ++ before, after, by simp, by simp⟩

theorem occursAt_append_right
    {token text : List Char}
    {place : Nat}
    (occurs : OccursAt token place text)
    (back : List Char) :
    OccursAt token place (text ++ back) := by
  obtain ⟨before, after, rfl, rfl⟩ := occurs
  exact ⟨before, after ++ back, by simp, rfl⟩

theorem occursAt_of_append
    {token front back : List Char}
    {place : Nat}
    (occurs : OccursAt token place (front ++ back))
    (behind : byteLength front ≤ place) :
    OccursAt token (place - byteLength front) back := by
  obtain ⟨before, after, split, rfl⟩ := occurs
  obtain ⟨between, rfl, rest⟩ := exists_append_of_byteLength_le split behind
  refine ⟨between, after, rest, ?_⟩
  rw [byteLength_append]
  omega

theorem exists_occursAt_of_inside {token text : List Char} (inside : token <:+: text) :
    ∃ place, OccursAt token place text ∧ place + byteLength token ≤ byteLength text := by
  obtain ⟨before, after, rfl⟩ := inside
  exact ⟨byteLength before, ⟨before, after, by simp, rfl⟩, by simp only [byteLength_append]; omega⟩

namespace OccursOnce

variable {token front back : List Char}

/-- A token with a single place does not stand on both sides of a cut. -/
theorem not_inside_of_inside
    (once : OccursOnce token (front ++ back))
    (filled : token ≠ [])
    (inFront : token <:+: front) :
    ¬ token <:+: back := by
  intro inBack
  obtain ⟨place, occurs, fits⟩ := exists_occursAt_of_inside inFront
  obtain ⟨place', occurs', -⟩ := exists_occursAt_of_inside inBack
  have equal :=
    once place (byteLength front + place') (occursAt_append_right occurs back)
      (occursAt_append_left front occurs')
  have positive := byteLength_pos filled
  omega

theorem of_append (once : OccursOnce token (front ++ back)) : OccursOnce token back := by
  intro place place' occurs occurs'
  have equal :=
    once _ _ (occursAt_append_left front occurs) (occursAt_append_left front occurs')
  omega

end OccursOnce

theorem occurrences_eq_singleton_iff (token text : String) :
    (∃ place, occurrences token text = [place]) ↔ occurrenceCount token text = 1 := by
  rw [← length_occurrences]
  exact List.length_eq_one_iff.symm

theorem occursOnce_of_count
    {token text : String}
    (single : occurrenceCount token text = 1) :
    OccursOnce token.toList text.toList := by
  obtain ⟨only, found⟩ := (occurrences_eq_singleton_iff token text).mpr single
  have atOnly (place : Nat) (occurs : OccursAt token.toList place text.toList) : place = only := by
    have member := (mem_occurrences_iff token text place).mpr occurs
    rw [found] at member
    exact List.mem_singleton.mp member
  intro place place' occurs occurs'
  rw [atOnly place occurs, atOnly place' occurs']

end UnitAssembly.Text
