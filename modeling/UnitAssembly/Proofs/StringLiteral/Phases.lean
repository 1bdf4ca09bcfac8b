import Mathlib.Data.List.Chain
import Mathlib.Data.List.Forall2
import UnitAssembly.Proofs.StringLiteral.Reader

/-!
Contract: written literals on their way through the translation phases of C++.

Owns:
- the two phases that change the characters of a source in front of the reader,
  `replaceTrigraphs` and `spliceLines`;
- what neither of them touches: a text without the pair of characters that the phase
  looks for;
- `Spells`, a piece of a literal that is one element for the reader;
- `write_lossless`, the way of a literal from the source back to the bytes of its text.

A phase looks at neighbouring characters, so a literal is safe from it only if no pair
of its characters is one that the phase looks for, and none forms with what follows.

Does not own: the reader, or where literals stand in generated code.
-/

namespace UnitAssembly.StringLiteral

/-! ## The phases -/

/-- The characters that trigraphs stand for, by the character behind the two question
marks. -/
def trigraphs : List (Char × Char) :=
  [('=', '#'), ('/', '\\'), (Char.ofNat 0x27, '^'), ('(', '['), (')', ']'), ('!', '|'),
    ('<', '{'), ('>', '}'), ('-', '~')]

/-- Replace the trigraphs of a text, from its front on. -/
def replaceTrigraphs : List Char → List Char
  | '?' :: '?' :: third :: rest =>
      match trigraphs.lookup third with
      | some character => character :: replaceTrigraphs rest
      | none => '?' :: replaceTrigraphs ('?' :: third :: rest)
  | first :: rest => first :: replaceTrigraphs rest
  | [] => []

/-- Join each line that ends with a backslash to the next one. -/
def spliceLines : List Char → List Char
  | '\\' :: '\n' :: rest => spliceLines rest
  | first :: rest => first :: spliceLines rest
  | [] => []

/-- A phase that changes a text only where one given character follows another. -/
def LooksFor (phase : List Char → List Char) (left right : Char) : Prop :=
  ∀ (first : Char) (rest : List Char),
    ¬ (first = left ∧ rest.head? = some right) → phase (first :: rest) = first :: phase rest

theorem replaceTrigraphs_looksFor : LooksFor replaceTrigraphs '?' '?' := by
  intro first rest apart
  rw [replaceTrigraphs]
  rintro third behind rfl rfl
  exact apart ⟨rfl, rfl⟩

theorem spliceLines_looksFor : LooksFor spliceLines '\\' '\n' := by
  intro first rest apart
  rw [spliceLines]
  rintro behind rfl rfl
  exact apart ⟨rfl, rfl⟩

/-- A text without the pair goes through, unless its last character makes one with what
follows. -/
theorem LooksFor.phase_append
    {phase : List Char → List Char}
    {left right : Char}
    (looks : LooksFor phase left right)
    {front : List Char}
    (noPair : ¬ [left, right] <:+: front)
    (ends : front.getLast? ≠ some left)
    (back : List Char) :
    phase (front ++ back) = front ++ phase back := by
  induction front with
  | nil => rfl
  | cons first rest inductionHypothesis =>
      have further : phase (rest ++ back) = rest ++ phase back := by
        cases rest with
        | nil => rfl
        | cons second others =>
            apply inductionHypothesis
            · exact fun pair => noPair (List.infix_cons pair)
            · rwa [List.getLast?_cons_cons] at ends
      rw [List.cons_append, looks, further, List.cons_append]
      rintro ⟨isLeft, follows⟩
      cases rest with
      | nil => exact ends (congrArg some isLeft)
      | cons second others =>
          have isRight : second = right := Option.some.inj follows
          apply noPair
          rw [isLeft, isRight]
          exact (List.prefix_append [left, right] others).isInfix

/-! ## Question marks in a literal -/

/-- Of two neighbours the second is a question mark only behind a backslash. -/
def EscapesQuestion (left right : Char) : Prop :=
  right = '?' → left = '\\'

theorem question_not_mem_octalDigits (byte : UInt8) : '?' ∉ octalDigits byte := by
  intro member
  rcases exists_digit_of_mem_octalDigits member with ⟨digit, small, isDigit⟩
  have code := congrArg Char.toNat isDigit
  rw [Nat.toNat_digitChar_of_lt_ten (by omega)] at code
  have : '?'.toNat = 63 := rfl
  omega

/-- The spelling of a byte begins with something else than a question mark, and holds
one only behind a backslash. -/
theorem question_in_writeByte (byte : UInt8) :
    (∃ first behind, writeByte byte = first :: behind ∧ first ≠ '?') ∧
      (writeByte byte).IsChain EscapesQuestion := by
  have named (character : Char) :
      (∃ first behind, ['\\', character] = first :: behind ∧ first ≠ '?') ∧
        ['\\', character].IsChain EscapesQuestion :=
    ⟨⟨'\\', [character], rfl, by decide⟩, List.isChain_pair.mpr fun _ => rfl⟩
  unfold writeByte
  split_ifs with backslash quote lineFeed carriageReturn tab question printable
  · exact named _
  · exact named _
  · exact named _
  · exact named _
  · exact named _
  · exact named _
  · refine ⟨⟨_, [], rfl, ?_⟩, List.isChain_singleton _⟩
    intro isQuestion
    apply question
    obtain ⟨-, -, code⟩ := toNat_ofNat_of_printable printable
    rw [isQuestion] at code
    exact UInt8.toNat_inj.mp code.symm
  · refine ⟨⟨'\\', octalDigits byte, rfl, by decide⟩, ?_⟩
    apply List.Pairwise.isChain
    refine List.pairwise_of_forall_mem_list fun left _ right member isQuestion => ?_
    rw [isQuestion] at member
    rcases List.mem_cons.mp member with slash | digit
    · exact absurd slash (by decide)
    · exact absurd digit (question_not_mem_octalDigits byte)

theorem isChain_flatMap_writeByte
    (bytes : List UInt8)
    {rest : List Char}
    (chain : rest.IsChain EscapesQuestion)
    (begins : rest.head? ≠ some '?') :
    (bytes.flatMap writeByte ++ rest).IsChain EscapesQuestion ∧
      (bytes.flatMap writeByte ++ rest).head? ≠ some '?' := by
  induction bytes with
  | nil => exact ⟨chain, begins⟩
  | cons byte bytes inductionHypothesis =>
      obtain ⟨⟨first, behind, spelled, notQuestion⟩, spellingChain⟩ := question_in_writeByte byte
      rw [List.flatMap_cons, List.append_assoc]
      constructor
      · refine List.isChain_append.mpr ⟨spellingChain, inductionHypothesis.1, ?_⟩
        intro left _ right next isQuestion
        rw [isQuestion] at next
        exact absurd next inductionHypothesis.2
      · rw [spelled]
        exact fun isQuestion => notQuestion (Option.some.inj isQuestion)

/-- Every question mark of a literal stands behind a backslash. -/
theorem isChain_write (text : String) : (write text).toList.IsChain EscapesQuestion := by
  unfold write writeBytes
  rw [String.toList_ofList]
  obtain ⟨chain, begins⟩ := isChain_flatMap_writeByte (Text.utf8 text)
    (List.isChain_singleton '"') (by decide)
  refine List.isChain_cons.mpr ⟨?_, chain⟩
  intro right next isQuestion
  rw [isQuestion] at next
  exact absurd next begins

theorem no_question_pair_write (text : String) : ¬ ['?', '?'] <:+: (write text).toList := by
  rintro ⟨front, back, whole⟩
  have chain := isChain_write text
  rw [← whole, List.append_assoc] at chain
  have escaped := (List.isChain_append_cons_cons.mp chain).2.1
  exact absurd (escaped rfl) (by decide)

theorem no_splice_pair_write (text : String) : ¬ ['\\', '\n'] <:+: (write text).toList := by
  intro pair
  exact lineFeed_not_mem_write text (pair.mem (by decide))

theorem getLast?_write (text : String) : (write text).toList.getLast? = some '"' := by
  unfold write writeBytes
  rw [String.toList_ofList, ← List.cons_append, List.getLast?_concat]

/-! ## From the source back to the bytes -/

/-- A piece of a literal that is one element: it does not end the literal, and it is read
as the byte, whatever stands behind it. -/
def Spells (piece : List Char) (byte : UInt8) : Prop :=
  ∀ behind, ∃ first rest,
    piece ++ behind = first :: rest ∧ first ≠ '"' ∧
      readElement first rest = some ([byte], behind)

theorem exists_pieces_of_write (text : String) :
    ∃ pieces,
      List.Forall₂ Spells pieces (Text.utf8 text) ∧
        (write text).toList = '"' :: (pieces.flatten ++ ['"']) := by
  refine ⟨(Text.utf8 text).map writeByte, ?_, ?_⟩
  · rw [List.forall₂_map_left_iff, List.forall₂_same]
    intro byte _
    exact exists_element_of_writeByte byte
  · unfold write writeBytes
    rw [String.toList_ofList, List.flatMap_def]

theorem write_injective {text other : String} (same : write text = write other) :
    text = other := by
  have readBack := read_write text []
  rw [same, read_write other []] at readBack
  exact Text.utf8_injective (congrArg Prod.fst (Option.some.inj readBack)).symm

/-- **Literals lose nothing and end where they end.**  A literal holds printable ASCII
and no two question marks in a row.  Neither phase changes it, alone or in front of any
text.  With any text behind it, the reader takes exactly the literal and gives the UTF-8
bytes of its text; each byte has a piece of the literal of its own, read as that byte
whatever the neighbours are.  So different texts have different literals. -/
theorem write_lossless (text : String) :
    (∀ character ∈ (write text).toList,
        0x20 ≤ character.toNat ∧ character.toNat ≤ 0x7E) ∧
      ¬ ['?', '?'] <:+: (write text).toList ∧
      replaceTrigraphs (write text).toList = (write text).toList ∧
      spliceLines (write text).toList = (write text).toList ∧
      (∀ following,
        replaceTrigraphs ((write text).toList ++ following) =
            (write text).toList ++ replaceTrigraphs following ∧
          spliceLines ((write text).toList ++ following) =
            (write text).toList ++ spliceLines following ∧
          read ((write text).toList ++ following) = some (Text.utf8 text, following)) ∧
      (∃ pieces,
        List.Forall₂ Spells pieces (Text.utf8 text) ∧
          (write text).toList = '"' :: (pieces.flatten ++ ['"'])) ∧
      ∀ other, write other = write text ↔ other = text := by
  have lastOf (character : Char) (different : '"' ≠ character) :
      (write text).toList.getLast? ≠ some character := by
    rw [getLast?_write]
    exact fun same => different (Option.some.inj same)
  have trigraphsStay :=
    replaceTrigraphs_looksFor.phase_append (no_question_pair_write text) (lastOf '?' (by decide))
  have splicesStay :=
    spliceLines_looksFor.phase_append (no_splice_pair_write text) (lastOf '\\' (by decide))
  refine ⟨fun character member => printable_of_mem_write member, no_question_pair_write text,
    ?_, ?_, fun following => ⟨trigraphsStay following, splicesStay following,
      read_write text following⟩, exists_pieces_of_write text, ?_⟩
  · have alone := trigraphsStay []
    rwa [List.append_nil, replaceTrigraphs, List.append_nil] at alone
  · have alone := splicesStay []
    rwa [List.append_nil, spliceLines, List.append_nil] at alone
  · intro other
    exact ⟨write_injective, fun same => by rw [same]⟩

end UnitAssembly.StringLiteral
