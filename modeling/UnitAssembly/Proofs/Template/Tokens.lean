import UnitAssembly.Proofs.Text.Places
import UnitAssembly.Template

/-!
Contract: how occurrences of marker tokens can lie to each other.

Owns:
- the shape of a token: a slash, a text without slashes, a slash;
- the consequence for two occurrences: different markers never begin at one place,
  and when the second begins inside the first, the two share the slash that ends the
  first and begins the second, and nothing else.

Does not own: which occurrences a text has.
-/

namespace UnitAssembly.Marker

open UnitAssembly.Text

/-- What stands between the two slashes of a token. -/
def inner (marker : Marker) : List Char :=
  marker.token.toList.tail.dropLast

theorem token_eq_inner (marker : Marker) :
    marker.token.toList = '/' :: (marker.inner ++ ['/']) := by
  cases marker <;> decide

theorem slash_not_mem_inner (marker : Marker) : '/' ∉ marker.inner := by
  cases marker <;> decide

theorem token_ne_nil (marker : Marker) : marker.token.toList ≠ [] := by
  rw [token_eq_inner]
  exact List.cons_ne_nil _ _

theorem eq_of_token_begins
    {left right : Marker}
    (begins : left.token.toList <+: right.token.toList) :
    left = right := by
  revert begins
  cases left <;> cases right <;> decide

theorem byteLength_token (marker : Marker) :
    byteLength marker.token.toList = marker.token.utf8ByteSize := by
  cases marker <;> decide

/-- Where a slash divides a token, nothing stands in front of it or nothing behind. -/
theorem eq_nil_of_token_eq_append_slash
    {marker : Marker}
    {front back : List Char}
    (divided : marker.token.toList = front ++ '/' :: back) :
    front = [] ∨ back = [] := by
  rw [token_eq_inner] at divided
  cases front with
  | nil => exact Or.inl rfl
  | cons first front =>
      right
      rw [List.cons_append] at divided
      obtain ⟨-, rest⟩ := List.cons.inj divided
      rcases List.eq_nil_or_concat back with nothing | ⟨within, last, filled⟩
      · exact nothing
      · exfalso
        rw [filled, List.concat_eq_append, ← List.cons_append, ← List.append_assoc] at rest
        have inside := List.append_inj_left' rest rfl
        apply slash_not_mem_inner marker
        rw [inside]
        simp

theorem eq_of_occursAt
    {left right : Marker}
    {text : List Char}
    {place : Nat}
    (occursLeft : OccursAt left.token.toList place text)
    (occursRight : OccursAt right.token.toList place text) :
    left = right := by
  obtain ⟨before, after, split, rfl⟩ := occursLeft
  obtain ⟨before', after', split', measured⟩ := occursRight
  obtain ⟨-, both⟩ := append_inj_of_byteLength (split.symm.trans split') measured.symm
  rcases List.prefix_or_prefix_of_prefix ⟨after, both⟩ (List.prefix_append _ after') with
    begins | begins
  · exact eq_of_token_begins begins
  · exact (eq_of_token_begins begins).symm

/-- An occurrence that begins inside another one begins with the slash that ends it. -/
theorem shared_slash
    {first second : Marker}
    {text : List Char}
    {place place' : Nat}
    (occursFirst : OccursAt first.token.toList place text)
    (occursSecond : OccursAt second.token.toList place' text)
    (behind : place < place')
    (inside : place' < place + first.token.utf8ByteSize) :
    ∃ before front back after,
      text = before ++ front ++ '/' :: back ++ after ∧
        byteLength before = place ∧ byteLength (before ++ front) = place' ∧
        first.token.toList = front ++ ['/'] ∧ second.token.toList = '/' :: back := by
  obtain ⟨before, after, split, rfl⟩ := occursFirst
  obtain ⟨before', after', split', rfl⟩ := occursSecond
  -- The second occurrence lies behind `front`, a beginning of the first token.
  obtain ⟨front, longer, rest⟩ :=
    exists_append_of_byteLength_le (split.symm.trans split') behind.le
  have shorter : byteLength front < byteLength first.token.toList := by
    rw [byteLength_token]
    rw [longer, byteLength_append] at inside
    omega
  obtain ⟨shared, divided, following⟩ :=
    exists_append_of_byteLength_le rest.symm shorter.le
  -- What they share begins with the slash of the second token.
  have filled : shared ≠ [] := by
    intro nothing
    rw [divided, nothing, List.append_nil] at shorter
    exact Nat.lt_irrefl _ shorter
  obtain ⟨slash, more, rfl⟩ := List.exists_cons_of_ne_nil filled
  have sameSlash : slash = '/' := by
    rw [token_eq_inner second] at following
    exact ((List.cons.inj following).1).symm
  subst sameSlash
  have frontFilled : front ≠ [] := by
    intro nothing
    rw [longer, nothing, List.append_nil] at behind
    exact Nat.lt_irrefl _ behind
  have moreEmpty := (eq_nil_of_token_eq_append_slash divided).resolve_left frontFilled
  subst moreEmpty
  refine ⟨before, front, second.inner ++ ['/'], after', ?_, rfl, ?_, divided, token_eq_inner second⟩
  · rw [split', longer, token_eq_inner second]
    simp
  · rw [longer]

theorem succ_place_eq_of_overlap
    {first second : Marker}
    {text : List Char}
    {place place' : Nat}
    (occursFirst : OccursAt first.token.toList place text)
    (occursSecond : OccursAt second.token.toList place' text)
    (behind : place < place')
    (inside : place' < place + first.token.utf8ByteSize) :
    place' + 1 = place + first.token.utf8ByteSize := by
  obtain ⟨before, front, back, after, -, rfl, rfl, divided, -⟩ :=
    shared_slash occursFirst occursSecond behind inside
  rw [← byteLength_token, divided, byteLength_append, byteLength_append]
  have slash : byteLength ['/'] = 1 := rfl
  omega

end UnitAssembly.Marker
