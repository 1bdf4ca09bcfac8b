import UnitAssembly.Proofs.Template.Cut

/-!
Contract: marker tokens in a merged text whose sections hold none.

Owns:
- `Cut.pieces`, the gaps and sections that a merged text consists of, and its seams,
  the places where one piece ends and the next begins;
- where a token can still stand: never within a piece, always across a seam;
- `Cut.Sealed`, the templates at whose seams no token can arise whatever the sections
  are, and `Cut.Isolated`, a condition on the characters next to the markers that is
  enough for it.

The merge does not look at what it has put together.  A gap that ends with the
beginning of a token is harmless in the template, where a marker follows it, but a
section may bring the rest of the token.

Does not own: sections that hold tokens.
-/

namespace UnitAssembly

open UnitAssembly.Text

/-! ## Tokens in texts that are put together -/

namespace Text

/-- A token in two texts put together stands in one of them, or has a part in each. -/
theorem inside_append_cases
    {token front back : List Char}
    (inside : token <:+: front ++ back) :
    token <:+: front ∨ token <:+: back ∨
      ∃ left right,
        token = left ++ right ∧ left ≠ [] ∧ right ≠ [] ∧ left <:+ front ∧ right <+: back := by
  obtain ⟨before, after, split⟩ := inside
  rw [List.append_assoc] at split
  rcases List.append_eq_append_iff.mp split with ⟨left, rfl, rest⟩ | ⟨between, rfl, rfl⟩
  · rcases List.append_eq_append_iff.mp rest with ⟨unused, rfl, -⟩ | ⟨right, rfl, rfl⟩
    · left
      exact ⟨before, unused, by simp⟩
    · by_cases nothingLeft : left = []
      · right
        left
        exact ⟨[], after, by simp [nothingLeft]⟩
      · by_cases nothingRight : right = []
        · left
          exact ⟨before, [], by simp [nothingRight]⟩
        · right
          right
          exact ⟨left, right, rfl, nothingLeft, nothingRight, List.suffix_append _ _,
            List.prefix_append _ _⟩
  · right
    left
    exact ⟨between, after, by simp⟩

/-- An occurrence that lies within no piece lies across a seam. -/
theorem exists_seam_of_occursAt
    {token : List Char}
    {pieces : List (List Char)}
    {place : Nat}
    (filled : token ≠ [])
    (free : ∀ piece ∈ pieces, ¬ token <:+: piece)
    (occurs : OccursAt token place pieces.flatten) :
    ∃ left right,
      pieces = left ++ right ∧ place < byteLength left.flatten ∧
        byteLength left.flatten < place + byteLength token := by
  induction pieces generalizing place with
  | nil =>
      obtain ⟨before, after, split, -⟩ := occurs
      have nothing : token = [] := by simp_all
      exact absurd nothing filled
  | cons piece pieces inductionHypothesis =>
      rw [List.flatten_cons] at occurs
      by_cases beyond : byteLength piece ≤ place
      · obtain ⟨left, right, rfl, begins, ends⟩ :=
          inductionHypothesis (fun other member => free other (List.mem_cons_of_mem _ member))
            (occursAt_of_append occurs beyond)
        refine ⟨piece :: left, right, rfl, ?_, ?_⟩
        · rw [List.flatten_cons, byteLength_append]
          omega
        · rw [List.flatten_cons, byteLength_append]
          omega
      · refine ⟨[piece], pieces, rfl, ?_, ?_⟩
        · rw [List.flatten_singleton]
          omega
        · -- An occurrence that ended within the piece would stand in it.
          rw [List.flatten_singleton]
          by_contra within
          obtain ⟨before, after, split, rfl⟩ := occurs
          rw [← List.append_assoc] at split
          have shorter : byteLength (before ++ token) ≤ byteLength piece := by
            rw [byteLength_append]
            omega
          obtain ⟨unused, rfl, -⟩ := exists_append_of_byteLength_le split.symm shorter
          exact free _ List.mem_cons_self ⟨before, unused, rfl⟩

end Text

namespace Marker

theorem count_slash (marker : Marker) : marker.token.toList.count '/' = 2 := by
  cases marker <;> decide

theorem not_inside_of_count_slash
    {text : List Char}
    (few : text.count '/' ≤ 1)
    (marker : Marker) :
    ¬ marker.token.toList <:+: text := by
  intro inside
  have most := inside.sublist.count_le '/'
  rw [count_slash] at most
  omega

/-- Each of two parts of a token has one of its slashes. -/
theorem count_slash_parts
    {marker : Marker}
    {front back : List Char}
    (divided : marker.token.toList = front ++ back)
    (frontFilled : front ≠ [])
    (backFilled : back ≠ []) :
    front.count '/' = 1 ∧ back.count '/' = 1 := by
  have both : front.count '/' + back.count '/' = 2 := by
    rw [← List.count_append, ← divided, count_slash]
  rw [token_eq_inner] at divided
  have inFront : '/' ∈ front := by
    cases front with
    | nil => exact absurd rfl frontFilled
    | cons first front =>
        rw [(List.cons.inj divided).1]
        exact List.mem_cons_self
  have inBack : '/' ∈ back := by
    rcases List.eq_nil_or_concat back with nothing | ⟨within, last, rfl⟩
    · exact absurd nothing backFilled
    · rw [List.concat_eq_append, ← List.cons_append, ← List.append_assoc] at divided
      have lastSlash := List.cons.inj (List.append_inj_right' divided rfl)
      rw [List.concat_eq_append, lastSlash.1]
      exact List.mem_append_right _ List.mem_cons_self
  have frontSome := List.count_pos_iff.mpr inFront
  have backSome := List.count_pos_iff.mpr inBack
  omega

end Marker

/-! ## Templates that seal their sections -/

namespace Cut

/-- The gaps and the contents of the markers, as they follow one another. -/
def piecesOf (content : Marker → List Char) :
    List (List Char × Marker) → List Char → List (List Char)
  | [], last => [last]
  | (gap, marker) :: parts, last => gap :: content marker :: piecesOf content parts last

def pieces (cut : Cut) (content : Marker → List Char) : List (List Char) :=
  piecesOf content cut.parts cut.last

/-- The text ends with the beginning of a token. -/
def OpensToken (text : List Char) : Prop :=
  ∃ marker front back,
    token marker = front ++ back ∧ front ≠ [] ∧ back ≠ [] ∧ front <:+ text

/-- The text begins with the end of a token. -/
def ClosesToken (text : List Char) : Prop :=
  ∃ marker front back,
    token marker = front ++ back ∧ front ≠ [] ∧ back ≠ [] ∧ back <+: text

/-- The text is what lies between the beginning and the end of a token. -/
def CarriesToken (text : List Char) : Prop :=
  ∃ marker front back, token marker = front ++ (text ++ back) ∧ front ≠ [] ∧ back ≠ []

/-- The gaps in front of a marker. -/
def gapsBefore (cut : Cut) : List (List Char) :=
  cut.parts.map Prod.fst

/-- No gap can have a part in a token together with the content of a marker next to it. -/
structure Sealed (cut : Cut) : Prop where
  before : ∀ gap ∈ cut.gapsBefore, ¬ OpensToken gap
  behind : ∀ gap ∈ cut.gaps.tail, ¬ ClosesToken gap
  between : ∀ gap ∈ cut.gapsBefore.tail, ¬ CarriesToken gap

/-- The character is in no token. -/
def isForeign (character : Char) : Bool :=
  Marker.all.all fun marker => !(token marker).contains character

/-- The characters next to a marker are in no token, and no two markers touch. -/
structure Isolated (cut : Cut) : Prop where
  before : ∀ gap ∈ cut.gapsBefore, gap.getLast?.all isForeign = true
  behind : ∀ gap ∈ cut.gaps.tail, gap.head?.all isForeign = true
  between : ∀ gap ∈ cut.gapsBefore.tail, gap ≠ []

/-- No token stands in the content of a marker. -/
def TokenFree (content : Marker → List Char) : Prop :=
  ∀ place marker : Marker, ¬ token marker <:+: content place

theorem flatten_piecesOf
    (content : Marker → List Char)
    (parts : List (List Char × Marker))
    (last : List Char) :
    (piecesOf content parts last).flatten = joined content parts last := by
  induction parts with
  | nil => simp [piecesOf, joined]
  | cons part parts inductionHypothesis =>
      rw [piecesOf, joined, List.flatten_cons, List.flatten_cons, inductionHypothesis]

theorem mem_piecesOf
    {content : Marker → List Char}
    {parts : List (List Char × Marker)}
    {last piece : List Char}
    (member : piece ∈ piecesOf content parts last) :
    piece ∈ parts.map Prod.fst ++ [last] ∨ ∃ marker, piece = content marker := by
  induction parts with
  | nil => exact Or.inl member
  | cons part parts inductionHypothesis =>
      rcases List.mem_cons.mp member with rfl | further
      · exact Or.inl List.mem_cons_self
      · rcases List.mem_cons.mp further with rfl | further
        · exact Or.inr ⟨part.2, rfl⟩
        · rcases inductionHypothesis further with isGap | isContent
          · exact Or.inl (List.mem_cons_of_mem _ isGap)
          · exact Or.inr isContent

/-! ## A sealed template keeps tokens out -/

/-- A token that arises where two texts meet has its beginning in one and its end in the
other. -/
theorem opens_and_closes_of_inside
    {marker : Marker}
    {front back : List Char}
    (inside : token marker <:+: front ++ back)
    (notInFront : ¬ token marker <:+: front)
    (notInBack : ¬ token marker <:+: back) :
    OpensToken front ∧ ClosesToken back := by
  rcases inside_append_cases inside with
    inFront | inBack | ⟨left, right, divided, leftFilled, rightFilled, ends, begins⟩
  · exact absurd inFront notInFront
  · exact absurd inBack notInBack
  · exact ⟨⟨marker, left, right, divided, leftFilled, rightFilled, ends⟩,
      ⟨marker, left, right, divided, leftFilled, rightFilled, begins⟩⟩

/-- The end of a token ends in the first of two texts or reaches through it. -/
theorem closes_or_carries_of_append
    {gap rest : List Char}
    (closes : ClosesToken (gap ++ rest)) :
    ClosesToken gap ∨ CarriesToken gap := by
  obtain ⟨marker, front, back, divided, frontFilled, backFilled, after, whole⟩ := closes
  rcases List.append_eq_append_iff.mp whole with ⟨unused, rfl, -⟩ | ⟨beyond, rfl, -⟩
  · left
    exact ⟨marker, front, back, divided, frontFilled, backFilled, List.prefix_append _ _⟩
  · by_cases nothing : beyond = []
    · left
      rw [nothing, List.append_nil] at divided backFilled
      exact ⟨marker, front, gap, divided, frontFilled, backFilled, List.prefix_rfl⟩
    · right
      exact ⟨marker, front, beyond, divided, frontFilled, nothing⟩

/-- Behind the content of a marker no token arises: it would have to end in the gap that
follows, or to reach through it into the next content. -/
theorem not_inside_behind
    {content : Marker → List Char}
    {parts : List (List Char × Marker)}
    {last : List Char}
    (contentFree : TokenFree content)
    (gapsFree : ∀ gap ∈ parts.map Prod.fst ++ [last], ∀ marker, ¬ token marker <:+: gap)
    (before : ∀ gap ∈ parts.map Prod.fst, ¬ OpensToken gap)
    (behind : ∀ gap ∈ parts.map Prod.fst ++ [last], ¬ ClosesToken gap)
    (between : ∀ gap ∈ parts.map Prod.fst, ¬ CarriesToken gap)
    (place marker : Marker) :
    ¬ token marker <:+: content place ++ joined content parts last := by
  induction parts generalizing place with
  | nil =>
      intro inside
      have meeting := opens_and_closes_of_inside inside (contentFree place marker)
        (gapsFree last List.mem_cons_self marker)
      exact behind last List.mem_cons_self meeting.2
  | cons part parts inductionHypothesis =>
      obtain ⟨gap, next⟩ := part
      have restFree := inductionHypothesis
        (fun other member => gapsFree other (List.mem_cons_of_mem _ member))
        (fun other member => before other (List.mem_cons_of_mem _ member))
        (fun other member => behind other (List.mem_cons_of_mem _ member))
        (fun other member => between other (List.mem_cons_of_mem _ member))
        next
      have behindFree :
          ¬ token marker <:+: gap ++ (content next ++ joined content parts last) := by
        intro inside
        have meeting := opens_and_closes_of_inside inside
          (gapsFree gap List.mem_cons_self marker) restFree
        exact before gap List.mem_cons_self meeting.1
      intro inside
      have meeting := opens_and_closes_of_inside inside (contentFree place marker) behindFree
      rcases closes_or_carries_of_append meeting.2 with closes | carries
      · exact behind gap List.mem_cons_self closes
      · exact between gap List.mem_cons_self carries

theorem not_inside_of_sealed
    {cut : Cut}
    {content : Marker → List Char}
    (gapsFree : ∀ gap ∈ cut.gaps, ∀ marker, ¬ token marker <:+: gap)
    (sealed : cut.Sealed)
    (contentFree : TokenFree content)
    (marker : Marker) :
    ¬ token marker <:+: cut.render content := by
  obtain ⟨parts, last⟩ := cut
  obtain ⟨before, behind, between⟩ := sealed
  cases parts with
  | nil => exact gapsFree last List.mem_cons_self marker
  | cons part parts =>
      have restFree := not_inside_behind contentFree
        (fun gap member => gapsFree gap (List.mem_cons_of_mem _ member))
        (fun gap member => before gap (List.mem_cons_of_mem _ member))
        behind between part.2 marker
      intro inside
      have meeting := opens_and_closes_of_inside inside
        (gapsFree part.1 List.mem_cons_self marker) restFree
      exact before part.1 List.mem_cons_self meeting.1

theorem not_isForeign_of_mem_token
    (marker : Marker)
    {character : Char}
    (member : character ∈ token marker) :
    ¬ isForeign character = true := by
  intro foreign
  have absent := List.all_eq_true.mp foreign marker (Marker.mem_all marker)
  rw [List.contains_iff_mem.mpr member] at absent
  cases absent

/-- Foreign characters next to the markers seal a template: a token across a seam would
hold one of them. -/
theorem sealed_of_isolated {cut : Cut} (isolated : cut.Isolated) : cut.Sealed := by
  refine ⟨?_, ?_, ?_⟩
  · rintro _ member ⟨marker, front, back, divided, filled, -, more, rfl⟩
    have foreign := isolated.before _ member
    rw [List.getLast?_append_of_ne_nil more filled, List.getLast?_eq_getLast_of_ne_nil filled]
      at foreign
    apply not_isForeign_of_mem_token marker _ foreign
    rw [divided]
    exact List.mem_append_left _ (List.getLast_mem filled)
  · rintro _ member ⟨marker, front, back, divided, -, filled, more, rfl⟩
    have foreign := isolated.behind _ member
    rw [List.head?_append_of_ne_nil back filled, List.head?_eq_some_head filled] at foreign
    apply not_isForeign_of_mem_token marker _ foreign
    rw [divided]
    exact List.mem_append_right _ (List.head_mem filled)
  · rintro gap member ⟨marker, front, back, divided, -, -⟩
    have filled := isolated.between gap member
    have followsMarker : gap ∈ cut.gaps.tail := by
      have nonempty : cut.gapsBefore ≠ [] := List.ne_nil_of_mem (List.mem_of_mem_tail member)
      show gap ∈ (cut.gapsBefore ++ [cut.last]).tail
      rw [List.tail_append_of_ne_nil nonempty]
      exact List.mem_append_left _ member
    have foreign := isolated.behind gap followsMarker
    rw [List.head?_eq_some_head filled] at foreign
    apply not_isForeign_of_mem_token marker _ foreign
    rw [divided]
    exact List.mem_append_right _ (List.mem_append_left _ (List.head_mem filled))

/-! ## A template that is not sealed lets a token arise -/

theorem gap_suffix_joined
    (content : Marker → List Char)
    (left : List (List Char × Marker))
    (gap : List Char) :
    gap <:+ joined content left gap := by
  induction left with
  | nil => exact List.suffix_rfl
  | cons part left inductionHypothesis =>
      rw [joined, ← List.append_assoc]
      exact inductionHypothesis.trans (List.suffix_append _ _)

/-- A gap that follows a marker begins all that stands behind it. -/
theorem exists_marker_in_front
    {parts : List (List Char × Marker)}
    {last gap : List Char}
    (member : gap ∈ (parts.map Prod.fst ++ [last]).tail) :
    ∃ left before marker right,
      parts = left ++ (before, marker) :: right ∧
        ∀ content, gap <+: joined content right last := by
  induction parts with
  | nil => cases member
  | cons part parts inductionHypothesis =>
      cases parts with
      | nil =>
          have isLast := List.mem_singleton.mp member
          exact ⟨[], part.1, part.2, [], rfl, fun content => isLast ▸ List.prefix_rfl⟩
      | cons next parts =>
          rcases List.mem_cons.mp member with rfl | further
          · exact ⟨[], part.1, part.2, next :: parts, rfl, fun content => List.prefix_append _ _⟩
          · obtain ⟨left, before, marker, right, split, begins⟩ := inductionHypothesis further
            exact ⟨part :: left, before, marker, right, by rw [split]; rfl, begins⟩

/-- A gap between two markers stands between neighbours of the cut. -/
theorem exists_markers_around
    {parts : List (List Char × Marker)}
    {gap : List Char}
    (member : gap ∈ (parts.map Prod.fst).tail) :
    ∃ left before first second right,
      parts = left ++ (before, first) :: (gap, second) :: right := by
  induction parts with
  | nil => cases member
  | cons part parts inductionHypothesis =>
      cases parts with
      | nil => cases member
      | cons next parts =>
          rcases List.mem_cons.mp member with rfl | further
          · exact ⟨[], part.1, part.2, next.2, parts, rfl⟩
          · obtain ⟨left, before, first, second, right, split⟩ := inductionHypothesis further
            exact ⟨part :: left, before, first, second, right, by rw [split]; rfl⟩

theorem tokenFree_nothing : TokenFree fun _ => [] := by
  intro place marker inside
  exact marker.token_ne_nil (List.infix_nil.mp inside)

theorem tokenFree_update
    {content : Marker → List Char}
    (free : TokenFree content)
    (place : Marker)
    {part : List Char}
    (few : part.count '/' ≤ 1) :
    TokenFree (Function.update content place part) := by
  intro candidate marker
  by_cases here : candidate = place
  · rw [here, Function.update_self]
    exact Marker.not_inside_of_count_slash few marker
  · rw [Function.update_of_ne here]
    exact free candidate marker

/-- Some contents without tokens give a text with one. -/
def AdmitsToken (cut : Cut) : Prop :=
  ∃ content, TokenFree content ∧ ∃ marker, token marker <:+: cut.render content

theorem admitsToken_of_opens
    {cut : Cut}
    {gap : List Char}
    (member : gap ∈ cut.gapsBefore)
    (opens : OpensToken gap) :
    cut.AdmitsToken := by
  obtain ⟨⟨_, place⟩, isPart, rfl⟩ := List.mem_map.mp member
  obtain ⟨left, right, parts⟩ := List.append_of_mem isPart
  obtain ⟨marker, front, back, divided, frontFilled, backFilled, ends⟩ := opens
  have slashes := Marker.count_slash_parts divided frontFilled backFilled
  let content := Function.update (fun _ => []) place back
  refine ⟨content, tokenFree_update tokenFree_nothing place slashes.2.le, marker, ?_⟩
  have supplied : content place = back := Function.update_self _ _ _
  obtain ⟨more, gapFront⟩ := ends.trans (gap_suffix_joined content left _)
  rw [render, parts, joined_append, supplied, ← gapFront, divided]
  exact ⟨more, joined content right cut.last, by simp⟩

theorem admitsToken_of_closes
    {cut : Cut}
    {gap : List Char}
    (member : gap ∈ cut.gaps.tail)
    (closes : ClosesToken gap) :
    cut.AdmitsToken := by
  obtain ⟨left, before, place, right, parts, gapBegins⟩ := exists_marker_in_front member
  obtain ⟨marker, front, back, divided, frontFilled, backFilled, begins⟩ := closes
  have slashes := Marker.count_slash_parts divided frontFilled backFilled
  let content := Function.update (fun _ => []) place front
  refine ⟨content, tokenFree_update tokenFree_nothing place slashes.1.le, marker, ?_⟩
  have supplied : content place = front := Function.update_self _ _ _
  obtain ⟨more, gapBack⟩ := begins.trans (gapBegins content)
  rw [render, parts, joined_append, supplied, ← gapBack, divided]
  exact ⟨joined content left before, more, by simp⟩

theorem admitsToken_of_carries
    {cut : Cut}
    {gap : List Char}
    (distinct : (cut.parts.map Prod.snd).Nodup)
    (member : gap ∈ cut.gapsBefore.tail)
    (carries : CarriesToken gap) :
    cut.AdmitsToken := by
  obtain ⟨left, before, first, second, right, parts⟩ := exists_markers_around member
  obtain ⟨marker, front, back, divided, frontFilled, backFilled⟩ := carries
  have slashes := Marker.count_slash_parts divided frontFilled (by simp [backFilled])
  have backFew : back.count '/' ≤ 1 := by
    have both := slashes.2
    rw [List.count_append] at both
    omega
  have different : first ≠ second := by
    rw [parts, List.map_append, List.map_cons, List.map_cons] at distinct
    have neighbours := (List.nodup_append.mp distinct).2.1
    exact List.ne_of_not_mem_cons (List.nodup_cons.mp neighbours).1
  let content := Function.update (Function.update (fun _ => []) second back) first front
  refine ⟨content, tokenFree_update (tokenFree_update tokenFree_nothing second backFew) first
    slashes.1.le, marker, ?_⟩
  have suppliedFirst : content first = front := Function.update_self _ _ _
  have suppliedSecond : content second = back :=
    (Function.update_of_ne different.symm _ _).trans (Function.update_self _ _ _)
  rw [render, parts, joined_append, joined, suppliedFirst, suppliedSecond, divided]
  exact ⟨joined content left before, joined content right cut.last, by simp⟩

theorem admitsToken_iff_not_sealed
    {cut : Cut}
    {text : String}
    (isCut : cut.IsCutOf text) :
    cut.AdmitsToken ↔ ¬ cut.Sealed := by
  constructor
  · rintro ⟨content, free, marker, inside⟩ isSealed
    exact not_inside_of_sealed isCut.free isSealed free marker inside
  · intro notSealed
    by_contra none
    apply notSealed
    refine ⟨?_, ?_, ?_⟩
    · exact fun gap member opens => none (admitsToken_of_opens member opens)
    · exact fun gap member closes => none (admitsToken_of_closes member closes)
    · have distinct : (cut.parts.map Prod.snd).Nodup := isCut.markers.symm.nodup (by decide)
      exact fun gap member carries => none (admitsToken_of_carries distinct member carries)

end Cut

/-! ## The merge of an accepted text -/

namespace Sections

/-- No token stands in a section. -/
def TokenFree (sections : Sections) : Prop :=
  Cut.TokenFree fun marker => (sections.get marker).toList

/-- The sections with the given contents. -/
def ofContent (content : Marker → List Char) : Sections where
  declarations := String.ofList (content .declarations)
  objectInit := String.ofList (content .objectInit)
  evalInit := String.ofList (content .evalInit)
  evalBody := String.ofList (content .evalBody)

theorem toList_get_ofContent (content : Marker → List Char) (marker : Marker) :
    ((ofContent content).get marker).toList = content marker := by
  cases marker <;> exact String.toList_ofList

end Sections

namespace Template

/-- For sections without tokens the merge of a template gives no token exactly when no
contents at all let one arise in its cut. -/
theorem forall_merge_token_free_iff (template : Template) :
    (∀ sections : Sections, sections.TokenFree →
      ∀ marker : Marker, ¬ marker.token.toList <:+: (template.merge sections).toList) ↔
    ¬ template.cut.AdmitsToken := by
  constructor
  · rintro keepsOut ⟨content, free, marker, inside⟩
    have same : (fun marker => ((Sections.ofContent content).get marker).toList) = content :=
      funext (Sections.toList_get_ofContent content)
    apply keepsOut (.ofContent content) (by rwa [Sections.TokenFree, same]) marker
    rwa [merge_eq_render, same]
  · intro none sections free marker inside
    rw [merge_eq_render] at inside
    exact none ⟨_, free, marker, inside⟩

/-- **Tokens arise at seams only, and in templates that are not sealed.**  Where the
sections hold no token, every occurrence of a token in the merged text begins before and
ends behind a place where a section meets the text around it.  No sections without
tokens give a text with one exactly when the template is sealed; markers between
characters that are in no token, such as line feeds, seal it. -/
theorem merge_token_free_iff_sealed
    (text : String)
    (template : Template)
    (parsed : parse text = .ok template) :
    template.cut.IsCutOf text ∧
    (∀ sections : Sections,
      let pieces := template.cut.pieces fun marker => (sections.get marker).toList
      (template.merge sections).toList = pieces.flatten ∧
      (sections.TokenFree →
        ∀ (marker : Marker) (place : Nat),
          OccursAt marker.token.toList place (template.merge sections).toList →
          ∃ left right,
            pieces = left ++ right ∧ place < byteLength left.flatten ∧
              byteLength left.flatten < place + marker.token.utf8ByteSize)) ∧
    ((∀ sections : Sections, sections.TokenFree →
        ∀ marker : Marker, ¬ marker.token.toList <:+: (template.merge sections).toList) ↔
      template.cut.Sealed) ∧
    (template.cut.Isolated → template.cut.Sealed) := by
  have isCut := cut_isCutOf parsed
  refine ⟨isCut, ?_, ?_, Cut.sealed_of_isolated⟩
  · intro sections pieces
    have whole : (template.merge sections).toList = pieces.flatten := by
      rw [merge_eq_render, Cut.render]
      exact (Cut.flatten_piecesOf _ _ _).symm
    refine ⟨whole, ?_⟩
    intro free marker place occurs
    rw [whole] at occurs
    rw [← Marker.byteLength_token]
    refine exists_seam_of_occursAt marker.token_ne_nil ?_ occurs
    intro piece member
    rcases Cut.mem_piecesOf member with isGap | ⟨other, rfl⟩
    · exact isCut.free piece isGap marker
    · exact free other marker
  · rw [forall_merge_token_free_iff, Cut.admitsToken_iff_not_sealed isCut, not_not]

/-- A template with each marker on a line of its own. -/
def ownLines : Template where
  text :=
    "// unit\n/*GARNET_DECLARATIONS*/\n/*GARNET_OBJ_INIT*/\n/*GARNET_EVAL_INIT*/\n/*GARNET_EVAL_BODY*/\n"
  slots := [⟨.declarations, 8⟩, ⟨.objectInit, 32⟩, ⟨.evalInit, 52⟩, ⟨.evalBody, 73⟩]

theorem merge_token_free_own_lines :
    parse ownLines.text = .ok ownLines ∧
      ∀ sections : Sections, sections.TokenFree →
        ∀ marker : Marker, ¬ marker.token.toList <:+: (ownLines.merge sections).toList := by
  have parsed : parse ownLines.text = .ok ownLines := by cbv
  have cutApart :
      ownLines.cut =
        ⟨[("// unit\n".toList, .declarations), (['\n'], .objectInit), (['\n'], .evalInit),
          (['\n'], .evalBody)], ['\n']⟩ := by
    cbv
  have isolated : ownLines.cut.Isolated := by
    rw [cutApart]
    exact ⟨by decide, by decide, by decide⟩
  obtain ⟨-, -, keepsOut, isSealed⟩ := merge_token_free_iff_sealed ownLines.text ownLines parsed
  exact ⟨parsed, keepsOut.mpr (isSealed isolated)⟩

/-- A template with the beginning of a token in front of its first marker. -/
def openGap : Template where
  text :=
    "/*GARNET_/*GARNET_DECLARATIONS*/\n/*GARNET_OBJ_INIT*/\n/*GARNET_EVAL_INIT*/\n/*GARNET_EVAL_BODY*/\n"
  slots := [⟨.declarations, 9⟩, ⟨.objectInit, 33⟩, ⟨.evalInit, 53⟩, ⟨.evalBody, 74⟩]

/-- Sections of which the first is the end of a token. -/
def closingSections : Sections := ⟨"EVAL_BODY*/", "", "", ""⟩

theorem merge_completes_token :
    parse openGap.text = .ok openGap ∧ closingSections.TokenFree ∧
      openGap.merge closingSections = "/*GARNET_EVAL_BODY*/\n\n\n\n" ∧
      Marker.evalBody.token.toList <:+: (openGap.merge closingSections).toList := by
  have merged : openGap.merge closingSections = "/*GARNET_EVAL_BODY*/\n\n\n\n" := by cbv
  refine ⟨by cbv, ?_, merged, ?_⟩
  · intro place marker
    cases place <;> cases marker <;> decide
  · rw [merged]
    decide

end Template

end UnitAssembly
