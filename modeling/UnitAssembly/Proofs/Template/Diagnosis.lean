import UnitAssembly.Proofs.Template.Survey

/-!
Contract: the verdict of the template check, for every text.

Owns:
- `Overlap` and `MarkersApart`, what it means for occurrences of markers to overlap,
  said of the text alone;
- the verdict: acceptance exactly when each marker occurs once and none overlap,
  and otherwise the fault, with its precedence.

The check looks only at neighbours among the sorted slots.  That no other pair can be
missed, and that the pair it reports is the leftmost one, is `Slot.firstOverlap_leftmost`.

Does not own: the words of a fault.
-/

namespace UnitAssembly.Template

open UnitAssembly.Text

/-- In the text the second marker begins behind the beginning of the first one and
before its end. -/
structure Overlap (text : String) (first second : Marker) (place place' : Nat) : Prop where
  occursFirst : OccursAt first.token.toList place text.toList
  occursSecond : OccursAt second.token.toList place' text.toList
  behind : place < place'
  inside : place' < place + first.token.utf8ByteSize

/-- Occurrences of different markers have no byte in common. -/
def MarkersApart (text : String) : Prop :=
  ∀ (left right : Marker) (place place' : Nat),
    OccursAt left.token.toList place text.toList →
    OccursAt right.token.toList place' text.toList →
    left ≠ right →
    place + left.token.utf8ByteSize ≤ place' ∨ place' + right.token.utf8ByteSize ≤ place

variable {text : String} {slots : List Slot}

/-- Where a marker occurs once, its slot tells the place of every occurrence. -/
theorem exists_slot_of_occursAt
    (once : ∀ marker, Marker.count text marker = 1)
    (survey : Survey text slots)
    {marker : Marker}
    {place : Nat}
    (occurs : OccursAt marker.token.toList place text.toList) :
    ∃ slot ∈ slots, slot.marker = marker ∧ slot.offset = place := by
  obtain ⟨slot, member, marked⟩ := survey.exists_slot marker
  have occursSlot := survey.occurs slot member
  rw [marked] at occursSlot
  exact ⟨slot, member, marked, occursOnce_of_count (once marker) _ _ occursSlot occurs⟩

theorem markersApart_of_pairwise
    (once : ∀ marker, Marker.count text marker = 1)
    (survey : Survey text slots)
    (apart : slots.Pairwise fun left right => left.stop ≤ right.offset) :
    MarkersApart text := by
  intro left right place place' occursLeft occursRight different
  obtain ⟨leftSlot, leftMember, rfl, rfl⟩ := exists_slot_of_occursAt once survey occursLeft
  obtain ⟨rightSlot, rightMember, rfl, rfl⟩ := exists_slot_of_occursAt once survey occursRight
  have symmetric :
      Std.Symm fun one other : Slot => one.stop ≤ other.offset ∨ other.stop ≤ one.offset :=
    ⟨fun _ _ ordered => ordered.symm⟩
  have eitherWay :
      slots.Pairwise fun one other => one.stop ≤ other.offset ∨ other.stop ≤ one.offset :=
    apart.imp fun ordered => Or.inl ordered
  apply eitherWay.forall leftMember rightMember
  intro same
  exact different (congrArg Slot.marker same)

theorem not_markersApart_of_overlap
    {first second : Marker}
    {place place' : Nat}
    (overlap : Overlap text first second place place')
    (different : first ≠ second) :
    ¬ MarkersApart text := by
  intro apart
  have behind := overlap.behind
  have inside := overlap.inside
  rcases apart _ _ _ _ overlap.occursFirst overlap.occursSecond different with before | after
  · omega
  · omega

/-- The neighbours that the check finds overlap, and they are of different markers. -/
theorem overlap_of_firstOverlap
    (survey : Survey text slots)
    {first second : Slot}
    (found : Slot.firstOverlap slots = some (first, second)) :
    Overlap text first.marker second.marker first.offset second.offset ∧
      first.marker ≠ second.marker := by
  obtain ⟨firstMember, secondMember, behind, inside⟩ :=
    Slot.firstOverlap_spec survey.increasing found
  refine ⟨⟨survey.occurs first firstMember, survey.occurs second secondMember, behind, inside⟩, ?_⟩
  intro sameMarker
  have distinct : (slots.map Slot.marker).Nodup := survey.markers.symm.nodup (by decide)
  have same := List.inj_on_of_nodup_map distinct firstMember secondMember sameMarker
  rw [same] at behind
  exact Nat.lt_irrefl _ behind

/-- Every other overlapping pair lies to the right of the one that the check finds. -/
theorem leftmost_of_firstOverlap
    (once : ∀ marker, Marker.count text marker = 1)
    (survey : Survey text slots)
    {first second : Slot}
    (found : Slot.firstOverlap slots = some (first, second))
    {left right : Marker}
    {place place' : Nat}
    (overlap : Overlap text left right place place') :
    first.offset < place ∨
      (left = first.marker ∧ right = second.marker ∧ place = first.offset ∧
        place' = second.offset) := by
  obtain ⟨foundOverlap, -⟩ := overlap_of_firstOverlap survey found
  obtain ⟨leftSlot, leftMember, rfl, rfl⟩ := exists_slot_of_occursAt once survey overlap.occursFirst
  obtain ⟨rightSlot, rightMember, rfl, rfl⟩ :=
    exists_slot_of_occursAt once survey overlap.occursSecond
  have notLater :=
    Slot.firstOverlap_leftmost survey.increasing found leftMember rightMember overlap.behind
      overlap.inside
  rcases Nat.lt_or_eq_of_le notLater with before | same
  · exact Or.inl before
  · right
    -- The same beginning is the same marker, and then both partners share its last slash.
    have occursFirst := foundOverlap.occursFirst
    rw [same] at occursFirst
    have sameFirst := Marker.eq_of_occursAt overlap.occursFirst occursFirst
    have shared :=
      Marker.succ_place_eq_of_overlap overlap.occursFirst overlap.occursSecond overlap.behind
        overlap.inside
    have foundShared :=
      Marker.succ_place_eq_of_overlap foundOverlap.occursFirst foundOverlap.occursSecond
        foundOverlap.behind foundOverlap.inside
    have samePlace : rightSlot.offset = second.offset := by
      rw [sameFirst] at shared
      omega
    have occursSecond := foundOverlap.occursSecond
    rw [← samePlace] at occursSecond
    exact ⟨sameFirst, Marker.eq_of_occursAt overlap.occursSecond occursSecond, same.symm, samePlace⟩

/-- **The verdict is exact.**  A text is accepted when every marker has one place and
no two occurrences overlap.  The fault of a count comes before that of an overlap, in
the order of the markers; the overlap that is reported is the leftmost one, and its
two occurrences have one slash in common. -/
theorem parse_exact (text : String) :
    ((∃ template, parse text = .ok template) ↔
      (∀ marker, Marker.count text marker = 1) ∧ MarkersApart text) ∧
    (∀ marker,
      Marker.all.find? (fun candidate => candidate.count text ≠ 1) = some marker →
      parse text =
        .error (if marker.count text = 0 then .missing marker
          else .duplicated marker (marker.count text))) ∧
    ((∀ marker, Marker.count text marker = 1) →
      ¬ MarkersApart text →
      ∃ first second place place',
        parse text = .error (.overlapping first second) ∧
        Overlap text first second place place' ∧
        (∀ left right placeLeft placeRight,
          Overlap text left right placeLeft placeRight →
          place < placeLeft ∨
            (left = first ∧ right = second ∧ placeLeft = place ∧ placeRight = place')) ∧
        ∃ before front back after,
          text.toList = before ++ front ++ '/' :: back ++ after ∧
          byteLength before = place ∧ byteLength (before ++ front) = place' ∧
          first.token.toList = front ++ ['/'] ∧ second.token.toList = '/' :: back) := by
  refine ⟨⟨?_, ?_⟩, fun marker found => parse_of_find found, ?_⟩
  · intro accepted
    obtain ⟨template, parsed⟩ := accepted
    have once := once_of_parse_eq_ok parsed
    obtain ⟨-, survey, apart⟩ := survey_of_parse_eq_ok parsed
    exact ⟨once, markersApart_of_pairwise once survey apart⟩
  · intro conditions
    obtain ⟨once, apart⟩ := conditions
    obtain ⟨slots, survey, verdict⟩ := exists_survey once
    match found : Slot.firstOverlap slots with
    | none =>
        rw [found] at verdict
        exact ⟨_, verdict⟩
    | some (first, second) =>
        obtain ⟨overlap, different⟩ := overlap_of_firstOverlap survey found
        exact absurd apart (not_markersApart_of_overlap overlap different)
  · intro once notApart
    obtain ⟨slots, survey, verdict⟩ := exists_survey once
    match found : Slot.firstOverlap slots with
    | none =>
        have apart := Slot.apart_of_firstOverlap_eq_none survey.increasing found
        exact absurd (markersApart_of_pairwise once survey apart) notApart
    | some (first, second) =>
        rw [found] at verdict
        obtain ⟨overlap, -⟩ := overlap_of_firstOverlap survey found
        refine ⟨first.marker, second.marker, first.offset, second.offset, verdict, overlap, ?_, ?_⟩
        · intro left right placeLeft placeRight other
          exact leftmost_of_firstOverlap once survey found other
        · exact Marker.shared_slash overlap.occursFirst overlap.occursSecond overlap.behind
            overlap.inside

end UnitAssembly.Template
