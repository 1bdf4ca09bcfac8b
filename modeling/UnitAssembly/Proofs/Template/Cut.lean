import Mathlib
import UnitAssembly.Proofs.Template.Survey

/-!
Contract: a template as gaps and markers, and the merge as a substitution there.

Owns:
- `Cut`, a text taken apart at its markers, and the text it gives with some content in
  the place of each marker;
- `Cut.IsCutOf`, what it means to be a cut of a text, and that there is at most one;
- `Template.slices`, the byte offsets between which the merge takes text;
- the merge of an accepted text, as a substitution at its one cut.

The walk of the merge carries byte offsets of the whole text and takes them from what
is left of it.  `Laid` says that slots and remaining text fit together at a cursor;
every fact about the walk is an induction over it.

Does not own: when a text is accepted.
-/

namespace UnitAssembly

open UnitAssembly.Text

/-- A text taken apart at its markers: each marker with the gap in front of it, and
what stands behind the last one. -/
structure Cut where
  parts : List (List Char × Marker)
  last : List Char

namespace Cut

/-- The text with the given content in the place of each marker. -/
def joined (content : Marker → List Char) : List (List Char × Marker) → List Char → List Char
  | [], last => last
  | (gap, marker) :: parts, last => gap ++ (content marker ++ joined content parts last)

def render (cut : Cut) (content : Marker → List Char) : List Char :=
  joined content cut.parts cut.last

/-- What a text holds besides its markers, from left to right. -/
def gaps (cut : Cut) : List (List Char) :=
  cut.parts.map Prod.fst ++ [cut.last]

def token (marker : Marker) : List Char :=
  marker.token.toList

/-- The cut has every marker once, gives the text back with the tokens in their
places, and no token is left in a gap. -/
structure IsCutOf (cut : Cut) (text : String) : Prop where
  markers : (cut.parts.map Prod.snd).Perm Marker.all
  tokens : cut.render token = text.toList
  free : ∀ gap ∈ cut.gaps, ∀ marker : Marker, ¬ marker.token.toList <:+: gap

theorem joined_append
    (content : Marker → List Char)
    (left : List (List Char × Marker))
    (gap : List Char)
    (marker : Marker)
    (right : List (List Char × Marker))
    (last : List Char) :
    joined content (left ++ (gap, marker) :: right) last =
      joined content left gap ++ (content marker ++ joined content right last) := by
  induction left with
  | nil => rfl
  | cons part left inductionHypothesis =>
      rw [List.cons_append, joined, joined, inductionHypothesis, List.append_assoc,
        List.append_assoc]

/-! ## One cut for a text -/

theorem token_inside_joined
    {marker : Marker}
    {parts : List (List Char × Marker)}
    (member : marker ∈ parts.map Prod.snd)
    (last : List Char) :
    token marker <:+: joined token parts last := by
  induction parts with
  | nil => cases member
  | cons part parts inductionHypothesis =>
      obtain ⟨gap, head⟩ := part
      rcases List.mem_cons.mp member with same | later
      · rw [same]
        exact ⟨gap, joined token parts last, List.append_assoc _ _ _⟩
      · obtain ⟨before, after, found⟩ := inductionHypothesis later
        refine ⟨gap ++ (token head ++ before), after, ?_⟩
        simp only [joined, ← found, List.append_assoc]

/-- A marker that comes later in a cut stands behind the first marker in the text. -/
theorem exists_place_of_mem
    {marker : Marker}
    {parts : List (List Char × Marker)}
    (member : marker ∈ parts.map Prod.snd)
    (head : Marker)
    (gap last : List Char) :
    ∃ place,
      OccursAt (token marker) place (joined token ((gap, head) :: parts) last) ∧
        byteLength gap < place := by
  obtain ⟨place, occurs, -⟩ := exists_occursAt_of_inside (token_inside_joined member last)
  refine ⟨_, occursAt_append_left gap (occursAt_append_left (token head) occurs), ?_⟩
  have positive : 0 < byteLength (token head) := byteLength_pos head.token_ne_nil
  omega

theorem occursAt_head
    (gap : List Char)
    (head : Marker)
    (parts : List (List Char × Marker))
    (last : List Char) :
    OccursAt (token head) (byteLength gap) (joined token ((gap, head) :: parts) last) :=
  ⟨gap, joined token parts last, rfl, rfl⟩

theorem joined_unique
    {parts parts' : List (List Char × Marker)}
    {last last' : List Char}
    (once : ∀ marker ∈ parts.map Prod.snd, OccursOnce (token marker) (joined token parts last))
    (markers : (parts.map Prod.snd).Perm (parts'.map Prod.snd))
    (same : joined token parts last = joined token parts' last') :
    parts = parts' ∧ last = last' := by
  induction parts generalizing parts' with
  | nil =>
      have nothing : parts' = [] := by
        have empty := markers.symm.eq_nil
        exact List.map_eq_nil_iff.mp empty
      subst nothing
      exact ⟨rfl, same⟩
  | cons part parts inductionHypothesis =>
      obtain ⟨gap, head⟩ := part
      match parts' with
      | [] => exact absurd markers.eq_nil (List.cons_ne_nil _ _)
      | (gap', head') :: parts' =>
          have headOnce := once head List.mem_cons_self
          have sameHead : head = head' := by
            -- Otherwise each of the two markers would stand behind the other.
            by_contra different
            have laterHere : head' ∈ parts.map Prod.snd := by
              have member := markers.mem_iff.mpr (List.mem_cons_self (a := head'))
              exact List.mem_of_ne_of_mem (Ne.symm different) member
            have laterThere : head ∈ parts'.map Prod.snd := by
              have member := markers.mem_iff.mp (List.mem_cons_self (a := head))
              exact List.mem_of_ne_of_mem different member
            obtain ⟨place, occurs, behind⟩ := exists_place_of_mem laterHere head gap last
            obtain ⟨place', occurs', behind'⟩ := exists_place_of_mem laterThere head' gap' last'
            rw [← same] at occurs'
            have first := headOnce _ _ occurs' (occursAt_head gap head parts last)
            have occursHead := occursAt_head gap' head' parts' last'
            rw [← same] at occursHead
            have second :=
              once head' (List.mem_cons_of_mem _ laterHere) _ _ occurs occursHead
            omega
          subst sameHead
          have occursHead := occursAt_head gap' head parts' last'
          rw [← same] at occursHead
          have measured := headOnce _ _ (occursAt_head gap head parts last) occursHead
          obtain ⟨sameGap, tail⟩ := append_inj_of_byteLength same measured
          subst sameGap
          obtain ⟨sameParts, sameLast⟩ :=
            inductionHypothesis
              (fun marker member => by
                have whole := once marker (List.mem_cons_of_mem _ member)
                exact OccursOnce.of_append (OccursOnce.of_append whole))
              ((List.perm_cons head).mp markers)
              (List.append_cancel_left tail)
          exact ⟨by rw [sameParts], sameLast⟩

theorem gap_inside_joined
    {parts : List (List Char × Marker)}
    {last gap : List Char}
    (isGap : gap ∈ parts.map Prod.fst ++ [last]) :
    gap <:+: joined token parts last := by
  induction parts with
  | nil =>
      rw [List.mem_singleton.mp isGap]
      exact List.infix_rfl
  | cons part parts inductionHypothesis =>
      obtain ⟨first, head⟩ := part
      rcases List.mem_cons.mp isGap with same | later
      · rw [same]
        exact (List.prefix_append _ _).isInfix
      · refine (inductionHypothesis later).trans ?_
        rw [joined, ← List.append_assoc]
        exact (List.suffix_append _ _).isInfix

theorem joined_gaps_free
    {marker : Marker}
    {parts : List (List Char × Marker)}
    {last : List Char}
    (once : OccursOnce (token marker) (joined token parts last))
    (member : marker ∈ parts.map Prod.snd) :
    ∀ gap ∈ parts.map Prod.fst ++ [last], ¬ token marker <:+: gap := by
  induction parts with
  | nil => cases member
  | cons part parts inductionHypothesis =>
      obtain ⟨first, head⟩ := part
      have filled := marker.token_ne_nil
      intro gap isGap inGap
      rcases List.mem_cons.mp isGap with same | later
      · -- The token stands behind this gap, so it is not in it.
        rw [same] at inGap
        apply once.not_inside_of_inside filled inGap
        rcases List.mem_cons.mp member with isHead | further
        · rw [isHead]
          exact ⟨[], joined token parts last, rfl⟩
        · exact (token_inside_joined further last).trans (List.suffix_append _ _).isInfix
      · by_cases further : marker ∈ parts.map Prod.snd
        · have behind := OccursOnce.of_append (OccursOnce.of_append once)
          exact inductionHypothesis behind further gap later inGap
        · -- The token is the first one, and the gap stands behind it.
          have isHead := (List.mem_cons.mp member).resolve_right further
          have inRest : gap <:+: joined token parts last := gap_inside_joined later
          have regrouped :
              joined token ((first, head) :: parts) last =
                (first ++ token head) ++ joined token parts last :=
            (List.append_assoc _ _ _).symm
          rw [regrouped] at once
          apply once.not_inside_of_inside filled _ (inGap.trans inRest)
          rw [isHead]
          exact (List.suffix_append first (token head)).isInfix

end Cut

/-! ## The walk of the merge -/

/-- The slots lie in the text that is left from the cursor on. -/
inductive Laid : Nat → List Char → List Slot → Prop where
  | done (cursor : Nat) (text : List Char) : Laid cursor text []
  | next {cursor : Nat} {slot : Slot} {slots : List Slot} {rest : List Char}
      (gap : List Char)
      (measured : slot.offset = cursor + byteLength gap)
      (further : Laid slot.stop rest slots) :
      Laid cursor (gap ++ (slot.marker.token.toList ++ rest)) (slot :: slots)

namespace Laid

/-- Slots at the places of their tokens, each behind the end of the one before, are
laid in the text. -/
theorem of_pairwise
    {cursor : Nat}
    {text : List Char}
    {slots : List Slot}
    (apart : slots.Pairwise fun left right => left.stop ≤ right.offset)
    (behind : ∀ slot ∈ slots, cursor ≤ slot.offset)
    (occurs : ∀ slot ∈ slots, OccursAt slot.marker.token.toList (slot.offset - cursor) text) :
    Laid cursor text slots := by
  induction slots generalizing cursor text with
  | nil => exact .done cursor text
  | cons slot slots inductionHypothesis =>
      obtain ⟨headApart, restApart⟩ := List.pairwise_cons.mp apart
      have headBehind := behind slot List.mem_cons_self
      obtain ⟨gap, rest, rfl, measured⟩ := occurs slot List.mem_cons_self
      have stop : slot.stop = slot.offset + byteLength slot.marker.token.toList := by
        rw [Marker.byteLength_token]
        rfl
      refine .next gap (by omega) (inductionHypothesis restApart headApart ?_)
      intro later member
      have laterApart := headApart later member
      have occursLater := occurs later (List.mem_cons_of_mem _ member)
      rw [← List.append_assoc] at occursLater
      have inRest := occursAt_of_append occursLater (by rw [byteLength_append]; omega)
      have place :
          later.offset - cursor - byteLength (gap ++ slot.marker.token.toList) =
            later.offset - slot.stop := by
        rw [byteLength_append]
        omega
      rwa [place] at inRest

end Laid

namespace Template

/-- The cut that the walk of the merge makes. -/
def cutFrom (cursor : Nat) (text : List Char) : List Slot → Cut
  | [] => ⟨[], text⟩
  | slot :: slots =>
      let (gap, marked) := splitAtByte (slot.offset - cursor) text
      let (_, rest) := splitAtByte (slot.stop - slot.offset) marked
      let cut := cutFrom slot.stop rest slots
      ⟨(gap, slot.marker) :: cut.parts, cut.last⟩

/-- The byte offsets between which the walk takes text, up to the end of the text. -/
def slicesFrom (finish cursor : Nat) : List Slot → List (Nat × Nat)
  | [] => [(cursor, finish)]
  | slot :: slots => (cursor, slot.offset) :: slicesFrom finish slot.stop slots

def slices (template : Template) : List (Nat × Nat) :=
  slicesFrom template.text.utf8ByteSize 0 template.slots

theorem fill_eq_render
    (sections : Sections)
    (cursor : Nat)
    (text : List Char)
    (slots : List Slot) :
    fill sections cursor text slots =
      (cutFrom cursor text slots).render fun marker => (sections.get marker).toList := by
  induction slots generalizing cursor text with
  | nil => rfl
  | cons slot slots inductionHypothesis =>
      simp only [fill, cutFrom, inductionHypothesis, List.append_assoc]
      rfl

theorem cutFrom_next
    {cursor : Nat}
    {slot : Slot}
    {gap : List Char}
    (measured : slot.offset = cursor + byteLength gap)
    (rest : List Char)
    (slots : List Slot) :
    cutFrom cursor (gap ++ (slot.marker.token.toList ++ rest)) (slot :: slots) =
      ⟨(gap, slot.marker) :: (cutFrom slot.stop rest slots).parts,
        (cutFrom slot.stop rest slots).last⟩ := by
  have toGap : slot.offset - cursor = byteLength gap := by omega
  have toToken : slot.stop - slot.offset = byteLength slot.marker.token.toList := by
    rw [Marker.byteLength_token, Slot.stop]
    omega
  rw [cutFrom, toGap, toToken]
  simp only [splitAtByte_append]

theorem cutFrom_markers (cursor : Nat) (text : List Char) (slots : List Slot) :
    (cutFrom cursor text slots).parts.map Prod.snd = slots.map Slot.marker := by
  induction slots generalizing cursor text with
  | nil => rfl
  | cons slot slots inductionHypothesis =>
      unfold cutFrom
      rw [List.map_cons, List.map_cons, inductionHypothesis]

theorem cutFrom_tokens
    {cursor : Nat}
    {text : List Char}
    {slots : List Slot}
    (laid : Laid cursor text slots) :
    (cutFrom cursor text slots).render Cut.token = text := by
  induction laid with
  | done cursor text => rfl
  | next gap measured further inductionHypothesis =>
      rw [cutFrom_next measured]
      unfold Cut.render at *
      rw [Cut.joined, inductionHypothesis]
      rfl

theorem slicesFrom_cut
    {whole : String}
    {cursor : Nat}
    {text : List Char}
    {slots : List Slot}
    (laid : Laid cursor text slots)
    (front : List Char)
    (split : whole.toList = front ++ text)
    (reached : byteLength front = cursor) :
    List.Forall₂ (SliceAt whole) (slicesFrom whole.utf8ByteSize cursor slots)
      (cutFrom cursor text slots).gaps := by
  induction laid generalizing front with
  | done cursor text =>
      refine List.Forall₂.cons ⟨front, [], ?_, reached.symm, ?_⟩ List.Forall₂.nil
      · rw [split, List.append_nil]
        rfl
      · rw [← byteLength_toList, split]
        rfl
  | @next cursor slot slots rest gap measured further inductionHypothesis =>
      rw [cutFrom_next measured]
      have behind := inductionHypothesis (front ++ gap ++ slot.marker.token.toList)
        (by rw [split]; simp only [List.append_assoc])
        (by
          rw [byteLength_append, byteLength_append, Marker.byteLength_token, Slot.stop]
          omega)
      refine List.Forall₂.cons
        ⟨front, slot.marker.token.toList ++ rest, ?_, reached.symm, ?_⟩ behind
      · rw [split, List.append_assoc]
      · rw [byteLength_append, reached]
        exact measured

/-! ## The merge of an accepted text -/

theorem laid_of_parse_eq_ok
    {text : String}
    {template : Template}
    (parsed : parse text = .ok template) :
    Laid 0 text.toList template.slots := by
  obtain ⟨-, survey, apart⟩ := survey_of_parse_eq_ok parsed
  exact Laid.of_pairwise apart (fun slot _ => Nat.zero_le slot.offset) survey.occurs

/-- The cut of a template. -/
def cut (template : Template) : Cut :=
  cutFrom 0 template.text.toList template.slots

theorem cut_isCutOf
    {text : String}
    {template : Template}
    (parsed : parse text = .ok template) :
    template.cut.IsCutOf text := by
  obtain ⟨sameText, survey, -⟩ := survey_of_parse_eq_ok parsed
  have markers : (template.cut.parts.map Prod.snd).Perm Marker.all := by
    rw [cut, cutFrom_markers]
    exact survey.markers
  have tokens : template.cut.render Cut.token = text.toList := by
    rw [cut, sameText]
    exact cutFrom_tokens (laid_of_parse_eq_ok parsed)
  refine ⟨markers, tokens, ?_⟩
  intro gap isGap marker
  have once := occursOnce_of_count (once_of_parse_eq_ok parsed marker)
  rw [← tokens] at once
  exact Cut.joined_gaps_free once (markers.mem_iff.mpr (Marker.mem_all marker)) gap isGap

theorem cut_unique
    {text : String}
    {template : Template}
    (parsed : parse text = .ok template)
    {other : Cut}
    (isCut : other.IsCutOf text) :
    other = template.cut := by
  have own := cut_isCutOf parsed
  have once : ∀ marker ∈ other.parts.map Prod.snd,
      OccursOnce (Cut.token marker) (Cut.joined Cut.token other.parts other.last) := by
    intro marker _
    have single := occursOnce_of_count (once_of_parse_eq_ok parsed marker)
    rwa [← isCut.tokens] at single
  obtain ⟨sameParts, sameLast⟩ :=
    Cut.joined_unique once (isCut.markers.trans own.markers.symm)
      (isCut.tokens.trans own.tokens.symm)
  cases other
  exact congr (congrArg Cut.mk sameParts) sameLast

/-- The merge takes the gaps of the cut from the text, in their order. -/
theorem slices_cut
    {text : String}
    {template : Template}
    (parsed : parse text = .ok template) :
    List.Forall₂ (SliceAt text) template.slices template.cut.gaps := by
  rcases survey_of_parse_eq_ok parsed with ⟨sameText, -, -⟩
  have walked := slicesFrom_cut (laid_of_parse_eq_ok parsed) [] rfl rfl
  rw [← sameText] at walked ⊢
  exact walked

theorem slices_valid
    {text : String}
    {template : Template}
    (parsed : parse text = .ok template) :
    ∀ bounds ∈ template.slices,
      bounds.1 ≤ bounds.2 ∧ bounds.2 ≤ text.utf8ByteSize ∧
        (⟨bounds.1⟩ : String.Pos.Raw).IsValid text ∧
        (⟨bounds.2⟩ : String.Pos.Raw).IsValid text := by
  have valid {bounds : Nat × Nat} {gap : List Char} (slice : SliceAt text bounds gap) :
      (bounds.1 ≤ bounds.2 ∧ bounds.2 ≤ text.utf8ByteSize ∧
        (⟨bounds.1⟩ : String.Pos.Raw).IsValid text ∧
        (⟨bounds.2⟩ : String.Pos.Raw).IsValid text) ∧ SliceAt text bounds gap := by
    rcases slice.bounds with ⟨ordered, inside, front, back, -⟩
    exact ⟨⟨ordered, inside, front, back⟩, slice⟩
  have each := (slices_cut parsed).imp fun bounds gap => valid
  exact ((List.forall₂_and_left _ _).mp each).1

theorem merge_eq_render
    (template : Template)
    (sections : Sections) :
    (template.merge sections).toList =
      template.cut.render fun marker => (sections.get marker).toList := by
  rw [merge, String.toList_ofList, fill_eq_render]
  rfl

/-- A template with its markers in another order, two of them without a gap between
them and one behind a character of two bytes. -/
def shuffled : Template where
  text := "/*GARNET_EVAL_BODY*//*GARNET_OBJ_INIT*/é/*GARNET_EVAL_INIT*/\n/*GARNET_DECLARATIONS*/"
  slots := [⟨.evalBody, 0⟩, ⟨.objectInit, 20⟩, ⟨.evalInit, 41⟩, ⟨.declarations, 62⟩]

theorem parse_shuffled : parse shuffled.text = .ok shuffled := by
  cbv

end Template

end UnitAssembly
