import UnitAssembly.Proofs.Text.Places

/-!
Contract: the search for a token that stops at each hit and goes on behind it.

Owns:
- occurrences by their bytes: the UTF-8 form of a token stands nowhere in a text but where
  its characters do;
- `hitsFrom`, a search that looks for the leftmost occurrence from an offset on and resumes
  one character behind the beginning of each hit;
- its agreement with `occurrences`, which tries every character: the search skips none, and
  resumes between two characters or at the end of the text, where it can go on.

A search that went on behind a whole hit would miss those that begin inside it.  One that
went on a single byte behind its beginning would stand inside a character wherever the
token begins with one of several bytes, and end there.

Does not own: any particular token.
-/

namespace UnitAssembly.Text

/-! ## Occurrences by their bytes -/

theorem utf8_append (front back : String) : utf8 (front ++ back) = utf8 front ++ utf8 back := by
  unfold utf8
  rw [String.toUTF8_eq_toByteArray, String.toByteArray_append, ByteArray.data_append,
    Array.toList_append]
  rfl

theorem utf8_eq_flatMap (text : String) :
    utf8 text = text.toList.flatMap String.utf8EncodeChar := by
  unfold utf8
  rw [String.toUTF8_eq_toByteArray, ← String.ofList_toList (s := text),
    String.toByteArray_ofList, List.utf8Encode, String.toList_ofList]
  simp

/-- The bytes of a character tell which one it is, whatever stands behind them. -/
theorem eq_of_utf8EncodeChar_append
    {left right : Char}
    {behind behind' : List UInt8}
    (same : String.utf8EncodeChar left ++ behind = String.utf8EncodeChar right ++ behind') :
    left = right := by
  have decoded (character : Char) (rest : List UInt8) :
      (String.utf8EncodeChar character ++ rest).toByteArray.utf8DecodeChar? 0 =
        some character := by
    rw [List.toByteArray_append]
    exact ByteArray.utf8DecodeChar?_utf8EncodeChar_append
  have both := decoded left behind
  rw [same, decoded right behind'] at both
  exact (Option.some.inj both).symm

theorem flatMap_utf8EncodeChar_prefix_iff (token text : List Char) :
    token.flatMap String.utf8EncodeChar <+: text.flatMap String.utf8EncodeChar ↔
      token <+: text := by
  constructor
  · intro begins
    induction token generalizing text with
    | nil => exact List.nil_prefix
    | cons first token inductionHypothesis =>
        cases text with
        | nil =>
            rw [List.flatMap_nil, List.prefix_nil, List.flatMap_cons,
              List.append_eq_nil_iff] at begins
            exact absurd begins.1 String.utf8EncodeChar_ne_nil
        | cons character rest =>
            rw [List.flatMap_cons, List.flatMap_cons] at begins
            have same : first = character := by
              obtain ⟨more, whole⟩ := begins
              rw [List.append_assoc] at whole
              exact eq_of_utf8EncodeChar_append whole
            subst same
            rw [List.prefix_append_right_inj] at begins
            rw [List.prefix_cons_inj]
            exact inductionHypothesis rest begins
  · rintro ⟨rest, rfl⟩
    rw [List.flatMap_append]
    exact List.prefix_append _ _

/-- The bytes of a text that is not empty begin with one that can only begin a character. -/
theorem exists_first_byte {text : String} (filled : text ≠ "") :
    ∃ first rest, utf8 text = first :: rest ∧ first.IsUTF8FirstByte := by
  rw [utf8_eq_flatMap]
  cases characters : text.toList with
  | nil => exact absurd (String.toList_eq_nil_iff.mp characters) filled
  | cons character behind =>
      have begins := UInt8.isUTF8FirstByte_getElem_zero_utf8EncodeChar (c := character)
      cases bytes : String.utf8EncodeChar character with
      | nil => exact absurd bytes String.utf8EncodeChar_ne_nil
      | cons first rest =>
          simp only [bytes, List.getElem_cons_zero] at begins
          rw [List.flatMap_cons, bytes]
          exact ⟨first, _, rfl, begins⟩

theorem isValid_of_first_byte
    {text : String}
    {place : Nat}
    {first : UInt8}
    (found : (utf8 text)[place]? = some first)
    (begins : first.IsUTF8FirstByte) :
    (⟨place⟩ : String.Pos.Raw).IsValid text := by
  obtain ⟨inside, byte⟩ := List.getElem?_eq_some_iff.mp found
  have below : (⟨place⟩ : String.Pos.Raw) < text.rawEndPos := by
    rw [length_utf8] at inside
    exact inside
  rw [← byte] at begins
  exact String.Pos.Raw.isValid_iff_isUTF8FirstByte.mpr (Or.inr ⟨below, begins⟩)

/-- A token occurs exactly where its bytes stand among those of the text: they cannot begin
in the middle of a character. -/
theorem occursAt_iff_utf8
    {token : String}
    (filled : token ≠ "")
    (text : String)
    (place : Nat) :
    OccursAt token.toList place text.toList ↔ utf8 token <+: (utf8 text).drop place := by
  constructor
  · rintro ⟨before, after, split, rfl⟩
    have whole : text = String.ofList before ++ (token ++ String.ofList after) := by
      apply String.toList_inj.mp
      rw [split, String.toList_append, String.toList_append, String.toList_ofList,
        String.toList_ofList]
    have measured : byteLength before = (utf8 (String.ofList before)).length := by
      rw [length_utf8, ← byteLength_toList, String.toList_ofList]
    rw [whole, utf8_append, utf8_append, measured, List.drop_left]
    exact List.prefix_append _ _
  · intro begins
    obtain ⟨first, rest, bytes, isFirst⟩ := exists_first_byte filled
    have found : (utf8 text)[place]? = some first := by
      obtain ⟨more, whole⟩ := begins
      have head := congrArg (·[0]?) whole
      simp only [bytes, List.cons_append, List.getElem?_cons_zero, List.getElem?_drop,
        Nat.add_zero] at head
      exact head.symm
    obtain ⟨front, back, whole, measured⟩ :=
      String.Pos.Raw.isValid_iff_exists_append.mp (isValid_of_first_byte found isFirst)
    have place_eq : place = (utf8 front).length := by
      rw [length_utf8]
      exact congrArg String.Pos.Raw.byteIdx measured
    rw [whole, utf8_append, place_eq, List.drop_left, utf8_eq_flatMap, utf8_eq_flatMap,
      flatMap_utf8EncodeChar_prefix_iff] at begins
    obtain ⟨after, split⟩ := begins
    refine ⟨front.toList, after, ?_, ?_⟩
    · rw [whole, String.toList_append, split]
    · rw [byteLength_toList, place_eq, length_utf8]

/-! ## The next hit -/

theorem append_splitAtByte (count : Nat) (text : List Char) :
    (splitAtByte count text).1 ++ (splitAtByte count text).2 = text := by
  induction text generalizing count with
  | nil => rfl
  | cons character rest inductionHypothesis =>
      unfold splitAtByte
      split
      · exact congrArg (character :: ·) (inductionHypothesis (count - character.utf8Size))
      · rfl

/-- The text from an offset on.  There is none if the offset lies inside a character or
behind the end. -/
def tailAt? (start : Nat) (text : List Char) : Option (List Char) :=
  let (front, back) := splitAtByte start text
  if byteLength front = start then some back else none

theorem tailAt?_eq_some_iff (start : Nat) (text rest : List Char) :
    tailAt? start text = some rest ↔ ∃ front, text = front ++ rest ∧ byteLength front = start := by
  unfold tailAt?
  constructor
  · intro found
    rw [Option.ite_none_right_eq_some] at found
    obtain ⟨measured, back⟩ := found
    refine ⟨(splitAtByte start text).1, ?_, measured⟩
    rw [← Option.some.inj back, append_splitAtByte]
  · rintro ⟨front, rfl, rfl⟩
    rw [splitAtByte_append]
    exact if_pos rfl

/-- The place of the leftmost occurrence of a token. -/
def leftmost? (token : List Char) : List Char → Option Nat
  | [] => if token.isPrefixOf [] then some 0 else none
  | character :: rest =>
      if token.isPrefixOf (character :: rest) then some 0
      else (leftmost? token rest).map (character.utf8Size + ·)

theorem occurrencesFrom_of_leftmost?_eq_none
    {token text : List Char}
    (nowhere : leftmost? token text = none)
    (offset : Nat) :
    occurrencesFrom token offset text = [] := by
  induction text generalizing offset with
  | nil =>
      unfold leftmost? at nowhere
      split at nowhere
      · cases nowhere
      · next other => exact if_neg other
  | cons character rest inductionHypothesis =>
      unfold leftmost? at nowhere
      split at nowhere
      · cases nowhere
      · next other =>
          rw [Option.map_eq_none_iff] at nowhere
          rw [occurrencesFrom]
          simp only [if_neg other]
          exact inductionHypothesis nowhere (offset + character.utf8Size)

/-- The leftmost occurrence is the first, and the others begin behind its first character:
there is no place for one in between. -/
theorem occurrencesFrom_of_leftmost?_eq_some
    {first : Char}
    {token text : List Char}
    {place : Nat}
    (found : leftmost? (first :: token) text = some place)
    (offset : Nat) :
    ∃ front after,
      text = front ++ first :: after ∧
        byteLength front = place ∧
        occurrencesFrom (first :: token) offset text =
          (offset + place) ::
            occurrencesFrom (first :: token) (offset + place + first.utf8Size) after := by
  induction text generalizing offset place with
  | nil => cases found
  | cons character rest inductionHypothesis =>
      unfold leftmost? at found
      split at found
      · next begins =>
          obtain rfl := Option.some.inj found
          obtain ⟨rfl, -⟩ : first = character ∧ token <+: rest := by
            rwa [List.isPrefixOf_iff_prefix, List.cons_prefix_cons] at begins
          refine ⟨[], rest, rfl, rfl, ?_⟩
          rw [occurrencesFrom]
          simp only [if_pos begins, Nat.add_zero]
      · next other =>
          obtain ⟨further, later, rfl⟩ := Option.map_eq_some_iff.mp found
          obtain ⟨front, after, rfl, rfl, listed⟩ :=
            inductionHypothesis later (offset + character.utf8Size)
          refine ⟨character :: front, after, rfl, rfl, ?_⟩
          rw [occurrencesFrom]
          simp only [if_neg other]
          rw [listed, Nat.add_assoc offset]

/-- The next hit of a search that stands at an offset. -/
def nextHit? (token text : List Char) (start : Nat) : Option Nat := do
  let rest ← tailAt? start text
  let place ← leftmost? token rest
  return start + place

theorem nextHit?_eq_some_iff (token text : List Char) (start hit : Nat) :
    nextHit? token text start = some hit ↔
      ∃ rest, tailAt? start text = some rest ∧
        ∃ place, leftmost? token rest = some place ∧ start + place = hit := by
  unfold nextHit?
  simp only [Option.bind_eq_bind, Option.bind_eq_some_iff, Option.pure_def, Option.some.injEq]

/-! ## All hits -/

/-- How far behind the beginning of a hit a search goes on: as far as the first character of
the token reaches.  A token without characters counts as one byte. -/
def stride (token : List Char) : Nat :=
  (token.head?.map Char.utf8Size).getD 1

theorem stride_pos (token : List Char) : 0 < stride token := by
  cases token with
  | nil => exact Nat.one_pos
  | cons first rest => exact first.utf8Size_pos

theorem bounds_of_nextHit?
    {token text : List Char}
    {start hit : Nat}
    (found : nextHit? token text start = some hit) :
    start ≤ byteLength text ∧ start < hit + stride token := by
  obtain ⟨rest, tail, place, -, rfl⟩ := (nextHit?_eq_some_iff token text start hit).mp found
  obtain ⟨front, rfl, rfl⟩ := (tailAt?_eq_some_iff start text rest).mp tail
  have further := stride_pos token
  rw [byteLength_append]
  omega

/-- The hits of a search that stands at an offset, each with the offset at which the search
is resumed. -/
def hitsFrom (token text : List Char) (start : Nat) : List (Nat × Nat) :=
  match found : nextHit? token text start with
  | none => []
  | some hit =>
      have := bounds_of_nextHit? found
      (hit, hit + stride token) :: hitsFrom token text (hit + stride token)
termination_by byteLength text + 1 - start

/-- A search that stands between two characters, or at the end, finds all that occurs from
there on, and is resumed at such places only. -/
theorem hitsFrom_of_tailAt?
    (first : Char)
    (token : List Char)
    {text rest : List Char}
    {start : Nat}
    (tail : tailAt? start text = some rest) :
    (hitsFrom (first :: token) text start).map Prod.fst =
        occurrencesFrom (first :: token) start rest ∧
      ∀ point ∈ (hitsFrom (first :: token) text start).map Prod.snd,
        ∃ further, tailAt? point text = some further := by
  fun_induction hitsFrom (first :: token) text start generalizing rest with
  | case1 start nothing =>
      have nowhere : leftmost? (first :: token) rest = none := by
        by_contra somewhere
        obtain ⟨place, found⟩ := Option.ne_none_iff_exists'.mp somewhere
        rw [(nextHit?_eq_some_iff _ _ _ _).mpr ⟨rest, tail, place, found, rfl⟩] at nothing
        cases nothing
      rw [occurrencesFrom_of_leftmost?_eq_none nowhere]
      exact ⟨rfl, fun point member => absurd member List.not_mem_nil⟩
  | case2 start hit found bounds inductionHypothesis =>
      obtain ⟨rest', tail', place, leftmost, rfl⟩ := (nextHit?_eq_some_iff _ _ _ _).mp found
      obtain rfl := Option.some.inj (tail.symm.trans tail')
      obtain ⟨between, after, rfl, rfl, listed⟩ :=
        occurrencesFrom_of_leftmost?_eq_some leftmost start
      -- The hit begins with the first character of the token, and is passed by just that.
      have resumed :
          tailAt? (start + byteLength between + stride (first :: token)) text = some after := by
        obtain ⟨front, rfl, rfl⟩ := (tailAt?_eq_some_iff _ _ _).mp tail
        rw [tailAt?_eq_some_iff]
        refine ⟨front ++ between ++ [first], by simp, ?_⟩
        rw [byteLength_append, byteLength_append]
        rfl
      obtain ⟨hits, points⟩ := inductionHypothesis resumed
      refine ⟨?_, ?_⟩
      · rw [List.map_cons, hits, listed]
        rfl
      · intro point member
        rcases List.mem_cons.mp member with rfl | later
        · exact ⟨after, resumed⟩
        · exact points point later

/-- **The search is exact.**  For every text and every token that is not empty, the places
of the occurrences are listed in increasing order, and they are the byte offsets at which
the bytes of the token stand in those of the text, whether or not they overlap.  The search
that is resumed behind the first character of each hit ends and has hit all of them; it
starts and is resumed at offsets within the text at which a character begins or the text
ends, so that there always is a text to go on with. -/
theorem occurrences_exact (token text : String) (filled : token ≠ "") :
    (occurrences token text).Pairwise (· < ·) ∧
    (∀ place, place ∈ occurrences token text ↔ utf8 token <+: (utf8 text).drop place) ∧
    (hitsFrom token.toList text.toList 0).map Prod.fst = occurrences token text ∧
    ∀ point ∈ 0 :: (hitsFrom token.toList text.toList 0).map Prod.snd,
      point ≤ text.utf8ByteSize ∧
        (⟨point⟩ : String.Pos.Raw).IsValid text ∧
        ∃ rest, tailAt? point text.toList = some rest := by
  have start : tailAt? 0 text.toList = some text.toList :=
    (tailAt?_eq_some_iff 0 _ _).mpr ⟨[], rfl, rfl⟩
  obtain ⟨first, more, characters⟩ :=
    List.exists_cons_of_ne_nil (mt String.toList_eq_nil_iff.mp filled)
  obtain ⟨hits, points⟩ := hitsFrom_of_tailAt? first more start
  rw [← characters] at hits points
  refine ⟨occurrences_pairwise token text, ?_, hits, ?_⟩
  · intro place
    rw [mem_occurrences_iff, occursAt_iff_utf8 filled]
  · intro point member
    have goesOn : ∃ rest, tailAt? point text.toList = some rest := by
      rcases List.mem_cons.mp member with rfl | resumed
      · exact ⟨_, start⟩
      · exact points point resumed
    obtain ⟨rest, tail⟩ := goesOn
    obtain ⟨front, split, rfl⟩ := (tailAt?_eq_some_iff _ _ _).mp tail
    refine ⟨?_, isValid_of_append split, rest, tail⟩
    rw [← byteLength_toList, split, byteLength_append]
    omega

/-- Two hits of which one begins inside the other, with characters of two bytes. -/
theorem occurrences_exact_overlapping :
    "éé" ≠ "" ∧
      (hitsFrom "éé".toList "éééa".toList 0).map Prod.fst = [0, 2] ∧
      utf8 "éé" <+: (utf8 "éééa").drop 2 ∧
      ¬utf8 "éé" <+: (utf8 "éééa").drop 3 ∧
      ∀ point ∈ 0 :: (hitsFrom "éé".toList "éééa".toList 0).map Prod.snd,
        point ≤ 7 ∧ (⟨point⟩ : String.Pos.Raw).IsValid "éééa" := by
  have filled : "éé" ≠ "" := by decide
  have listed : occurrences "éé" "éééa" = [0, 2] := by decide
  obtain ⟨-, places, hits, points⟩ := occurrences_exact "éé" "éééa" filled
  rw [listed] at places hits
  refine ⟨filled, hits, (places 2).mp (by decide), fun occurs => ?_, fun point member => ?_⟩
  · exact absurd ((places 3).mpr occurs) (by decide)
  · exact ⟨(points point member).1, (points point member).2.1⟩

end UnitAssembly.Text
