import UnitAssembly.Proofs.Template.Tokens

/-!
Contract: what the check of a template knows once every marker was counted.

Owns:
- `Slot.locate` and its walk over the markers, by the counts alone;
- `Survey`, the slots of a text in which every marker occurs once;
- `Slot.firstOverlap` over a survey: which pair it finds and what it means that it
  finds none, although only neighbours are compared.

Does not own: the verdict on a whole text, or what is put into the slots.
-/

namespace UnitAssembly

open UnitAssembly.Text

/-- The number of places of a marker in a text. -/
noncomputable def Marker.count (text : String) (marker : Marker) : Nat :=
  occurrenceCount marker.token text

/-- The fault of a marker that does not occur exactly once. -/
noncomputable def TemplateFault.ofCount (text : String) (marker : Marker) : TemplateFault :=
  if marker.count text = 0 then .missing marker else .duplicated marker (marker.count text)

namespace Slot

variable {text : String}

theorem locate_of_count_ne_one
    {marker : Marker}
    (notOnce : marker.count text ≠ 1) :
    locate text marker = .error (TemplateFault.ofCount text marker) := by
  have counted : (occurrences marker.token text).length = marker.count text :=
    length_occurrences marker.token text
  unfold locate
  unfold TemplateFault.ofCount
  match found : occurrences marker.token text with
  | [] =>
      rw [found, List.length_nil] at counted
      rw [if_pos counted.symm]
  | [only] =>
      rw [found, List.length_singleton] at counted
      exact absurd counted.symm notOnce
  | first :: second :: rest =>
      rw [found] at counted
      rw [if_neg (by rw [← counted, List.length_cons]; omega), ← counted]

theorem locate_of_count_eq_one
    {marker : Marker}
    (once : marker.count text = 1) :
    ∃ slot,
      locate text marker = .ok slot ∧ slot.marker = marker ∧
        OccursAt slot.marker.token.toList slot.offset text.toList := by
  obtain ⟨offset, found⟩ := (occurrences_eq_singleton_iff marker.token text).mpr once
  refine ⟨⟨marker, offset⟩, ?_, rfl, ?_⟩
  · unfold locate
    rw [found]
  · apply (mem_occurrences_iff marker.token text offset).mp
    rw [found]
    exact List.mem_singleton_self offset

theorem mapM_locate_of_find
    {markers : List Marker}
    {marker : Marker}
    (found : markers.find? (fun candidate => candidate.count text ≠ 1) = some marker) :
    markers.mapM (locate text) = .error (TemplateFault.ofCount text marker) := by
  induction markers with
  | nil => simp at found
  | cons head rest inductionHypothesis =>
      rw [List.mapM_cons]
      by_cases once : head.count text = 1
      · obtain ⟨slot, located, -, -⟩ := locate_of_count_eq_one once
        rw [List.find?_cons_of_neg (by simp [once])] at found
        rw [located, inductionHypothesis found]
        rfl
      · rw [List.find?_cons_of_pos (by simp [once])] at found
        obtain rfl := Option.some.inj found
        rw [locate_of_count_ne_one once]
        rfl

theorem mapM_locate_of_once
    {markers : List Marker}
    (once : ∀ marker ∈ markers, marker.count text = 1) :
    ∃ slots,
      markers.mapM (locate text) = .ok slots ∧ slots.map Slot.marker = markers ∧
        ∀ slot ∈ slots, OccursAt slot.marker.token.toList slot.offset text.toList := by
  induction markers with
  | nil => exact ⟨[], rfl, rfl, by simp⟩
  | cons head rest inductionHypothesis =>
      obtain ⟨slot, located, marked, occurs⟩ :=
        locate_of_count_eq_one (once head List.mem_cons_self)
      obtain ⟨slots, restLocated, restMarked, restOccurs⟩ :=
        inductionHypothesis fun marker member => once marker (List.mem_cons_of_mem _ member)
      refine ⟨slot :: slots, ?_, ?_, ?_⟩
      · rw [List.mapM_cons, located, restLocated]
        rfl
      · rw [List.map_cons, marked, restMarked]
      · intro candidate member
        rcases List.mem_cons.mp member with rfl | member
        · exact occurs
        · exact restOccurs candidate member

end Slot

/-- The slots of a text from left to right, one for each marker. -/
structure Survey (text : String) (slots : List Slot) : Prop where
  markers : (slots.map Slot.marker).Perm Marker.all
  occurs : ∀ slot ∈ slots, OccursAt slot.marker.token.toList slot.offset text.toList
  increasing : slots.Pairwise fun left right => left.offset < right.offset

namespace Survey

variable {text : String} {slots : List Slot}

theorem exists_slot (survey : Survey text slots) (marker : Marker) :
    ∃ slot ∈ slots, slot.marker = marker := by
  have member : marker ∈ slots.map Slot.marker :=
    survey.markers.mem_iff.mpr (Marker.mem_all marker)
  exact List.mem_map.mp member

/-- Sorting the slots of all markers by their places gives a survey: different markers
never begin at one place, so no two slots have the same offset. -/
theorem of_mergeSort
    {found : List Slot}
    (markers : found.map Slot.marker = Marker.all)
    (occurs : ∀ slot ∈ found, OccursAt slot.marker.token.toList slot.offset text.toList) :
    Survey text (found.mergeSort fun left right => decide (left.offset ≤ right.offset)) := by
  have sameSlots :=
    List.mergeSort_perm found fun left right => decide (left.offset ≤ right.offset)
  have distinct : found.Pairwise fun left right => left.marker ≠ right.marker := by
    rw [← List.pairwise_map, markers]
    decide
  have sorted :
      (found.mergeSort fun left right => decide (left.offset ≤ right.offset)).Pairwise
        fun left right => decide (left.offset ≤ right.offset) = true := by
    apply List.pairwise_mergeSort
    · intro first second third below above
      simp only [decide_eq_true_eq] at *
      omega
    · intro first second
      simp only [Bool.or_eq_true, decide_eq_true_eq]
      omega
  refine ⟨?_, ?_, ?_⟩
  · exact markers ▸ sameSlots.map Slot.marker
  · intro slot member
    exact occurs slot (sameSlots.mem_iff.mp member)
  · have apart := sameSlots.symm.pairwise distinct fun different => different.symm
    refine (sorted.and apart).imp_of_mem ?_
    intro left right memberLeft memberRight both
    obtain ⟨ordered, different⟩ := both
    have occursLeft := occurs left (sameSlots.mem_iff.mp memberLeft)
    have occursRight := occurs right (sameSlots.mem_iff.mp memberRight)
    have offsets : left.offset ≠ right.offset := by
      intro same
      rw [same] at occursLeft
      exact different (Marker.eq_of_occursAt occursLeft occursRight)
    simp only [decide_eq_true_eq] at ordered
    omega

end Survey

/-! ## Overlaps within a survey -/

namespace Slot

variable {slots : List Slot}

theorem firstOverlap_spec
    {first second : Slot}
    (increasing : slots.Pairwise fun left right => left.offset < right.offset)
    (found : firstOverlap slots = some (first, second)) :
    first ∈ slots ∧ second ∈ slots ∧ first.offset < second.offset ∧
      second.offset < first.stop := by
  fun_induction firstOverlap slots with
  | case1 left right rest overlap =>
      obtain ⟨rfl, rfl⟩ := Prod.mk.inj (Option.some.inj found)
      have ordered := (List.pairwise_cons.mp increasing).1 right List.mem_cons_self
      exact ⟨List.mem_cons_self, List.mem_cons_of_mem _ List.mem_cons_self, ordered, overlap⟩
  | case2 left right rest apart inductionHypothesis =>
      obtain ⟨firstMember, secondMember, both⟩ := inductionHypothesis increasing.of_cons found
      exact ⟨List.mem_cons_of_mem _ firstMember, List.mem_cons_of_mem _ secondMember, both⟩
  | case3 => simp at found

theorem firstOverlap_leftmost
    {first second : Slot}
    (increasing : slots.Pairwise fun left right => left.offset < right.offset)
    (found : firstOverlap slots = some (first, second))
    {left right : Slot}
    (leftMember : left ∈ slots)
    (rightMember : right ∈ slots)
    (behind : left.offset < right.offset)
    (overlap : right.offset < left.stop) :
    first.offset ≤ left.offset := by
  fun_induction firstOverlap slots with
  | case1 head next rest headOverlap =>
      obtain ⟨rfl, rfl⟩ := Prod.mk.inj (Option.some.inj found)
      rcases List.mem_cons.mp leftMember with rfl | later
      · exact Nat.le_refl _
      · exact ((List.pairwise_cons.mp increasing).1 left later).le
  | case2 head next rest headApart inductionHypothesis =>
      obtain ⟨headFirst, restIncreasing⟩ := List.pairwise_cons.mp increasing
      have rightLater : right ∈ next :: rest := by
        rcases List.mem_cons.mp rightMember with rfl | later
        · -- The head is in front of all others, so it is not the right one of a pair.
          rcases List.mem_cons.mp leftMember with rfl | leftLater
          · exact absurd behind (Nat.lt_irrefl _)
          · have := headFirst left leftLater
            omega
        · exact later
      rcases List.mem_cons.mp leftMember with rfl | leftLater
      · -- The neighbour of the head is the nearest one, and it lies behind the head.
        exfalso
        rcases List.mem_cons.mp rightLater with rfl | beyond
        · omega
        · have := (List.pairwise_cons.mp restIncreasing).1 right beyond
          omega
      · exact inductionHypothesis restIncreasing found leftLater rightLater
  | case3 => simp at found

theorem apart_of_firstOverlap_eq_none
    (increasing : slots.Pairwise fun left right => left.offset < right.offset)
    (found : firstOverlap slots = none) :
    slots.Pairwise fun left right => left.stop ≤ right.offset := by
  fun_induction firstOverlap slots with
  | case1 => simp at found
  | case2 head next rest headApart inductionHypothesis =>
      obtain ⟨-, restIncreasing⟩ := List.pairwise_cons.mp increasing
      refine List.pairwise_cons.mpr ⟨?_, inductionHypothesis restIncreasing found⟩
      intro later member
      rcases List.mem_cons.mp member with rfl | beyond
      · omega
      · have := (List.pairwise_cons.mp restIncreasing).1 later beyond
        omega
  | case3 short alone =>
      match short, alone with
      | [], _ => exact List.Pairwise.nil
      | [only], _ => exact List.pairwise_singleton _ _
      | left :: right :: rest, alone => exact absurd rfl (alone left right rest)

end Slot

/-! ## The check of a text -/

namespace Template

variable {text : String}

theorem parse_of_find
    {marker : Marker}
    (found : Marker.all.find? (fun candidate => candidate.count text ≠ 1) = some marker) :
    parse text = .error (TemplateFault.ofCount text marker) := by
  unfold parse
  rw [Slot.mapM_locate_of_find found]
  rfl

/-- Where every marker occurs once, the check comes down to neighbours in a survey. -/
theorem exists_survey (once : ∀ marker, Marker.count text marker = 1) :
    ∃ slots, Survey text slots ∧
      parse text =
        match Slot.firstOverlap slots with
        | some (first, second) => .error (.overlapping first.marker second.marker)
        | none => .ok ⟨text, slots⟩ := by
  obtain ⟨found, located, marked, occurs⟩ :=
    Slot.mapM_locate_of_once fun marker (_ : marker ∈ Marker.all) => once marker
  refine ⟨_, Survey.of_mergeSort marked occurs, ?_⟩
  unfold parse
  rw [located]
  rfl

theorem once_of_parse_eq_ok
    {template : Template}
    (parsed : parse text = .ok template)
    (marker : Marker) :
    marker.count text = 1 := by
  by_contra notOnce
  have found :
      (Marker.all.find? fun candidate => candidate.count text ≠ 1).isSome = true := by
    rw [List.find?_isSome]
    exact ⟨marker, Marker.mem_all marker, by simp [notOnce]⟩
  obtain ⟨first, isFirst⟩ := Option.isSome_iff_exists.mp found
  rw [parse_of_find isFirst] at parsed
  cases parsed

/-- An accepted text has a survey without overlaps, and the template holds it. -/
theorem survey_of_parse_eq_ok
    {template : Template}
    (parsed : parse text = .ok template) :
    template.text = text ∧ Survey text template.slots ∧
      template.slots.Pairwise fun left right => left.stop ≤ right.offset := by
  obtain ⟨slots, survey, verdict⟩ := exists_survey (once_of_parse_eq_ok parsed)
  rw [parsed] at verdict
  match noOverlap : Slot.firstOverlap slots with
  | some (first, second) =>
      rw [noOverlap] at verdict
      cases verdict
  | none =>
      rw [noOverlap] at verdict
      cases verdict
      exact ⟨rfl, survey, Slot.apart_of_firstOverlap_eq_none survey.increasing noOverlap⟩

end Template

end UnitAssembly
