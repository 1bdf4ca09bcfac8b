import Mathlib.Data.String.Basic
import Mathlib.Tactic.IntervalCases
import UnitAssembly.StringLiteral

/-!
Contract: how a C++ string literal is read, and that what is written is read back.

Owns:
- `read`, the bytes of the literal at the front of a text and what follows it: simple
  escapes, octal escapes of up to three digits taken greedily, all other characters in
  their UTF-8 form, up to the first quote that no backslash escapes;
- the reading of every written literal, whatever follows it;
- the characters of a written literal.

The reader does not know the writer.  Hexadecimal escapes and universal character
names are refused, as is a line feed.

Does not own: where literals stand in generated code.
-/

namespace UnitAssembly.StringLiteral

/-! ## The reader -/

/-- The bytes of the simple escapes, by the character behind the backslash. -/
def simpleEscapes : List (Char × UInt8) :=
  [(Char.ofNat 0x27, 0x27), ('"', 0x22), ('?', 0x3F), ('\\', 0x5C), ('a', 0x07), ('b', 0x08),
    ('f', 0x0C), ('n', 0x0A), ('r', 0x0D), ('t', 0x09), ('v', 0x0B)]

def octalDigit? (character : Char) : Option Nat :=
  if '0' ≤ character ∧ character ≤ '7' then some (character.toNat - '0'.toNat) else none

/-- Read octal digits behind a value, as many as there are but at most `most`. -/
def readOctal (value : Nat) : Nat → List Char → Nat × List Char
  | 0, text => (value, text)
  | _ + 1, [] => (value, [])
  | most + 1, character :: rest =>
      match octalDigit? character with
      | some digit => readOctal (8 * value + digit) most rest
      | none => (value, character :: rest)

/-- Read what follows a backslash. -/
def readEscape : List Char → Option (UInt8 × List Char)
  | [] => none
  | character :: rest =>
      match octalDigit? character with
      | some digit =>
          let (value, following) := readOctal digit 2 rest
          if value < 256 then some (UInt8.ofNat value, following) else none
      | none => (simpleEscapes.lookup character).map fun byte => (byte, rest)

/-- Read one character or escape of a literal. -/
def readElement (first : Char) (rest : List Char) : Option (List UInt8 × List Char) :=
  if first = '\\' then (readEscape rest).map fun (byte, following) => ([byte], following)
  else if first = '\n' then none
  else some (String.utf8EncodeChar first, rest)

theorem readOctal_length_le (value most : Nat) (text : List Char) :
    (readOctal value most text).2.length ≤ text.length := by
  fun_induction readOctal value most text with
  | case1 value text => exact Nat.le_refl _
  | case2 value most => exact Nat.le_refl _
  | case3 value most character rest digit isDigit inductionHypothesis =>
      exact Nat.le_succ_of_le inductionHypothesis
  | case4 value most character rest noDigit => exact Nat.le_refl _

theorem readEscape_length_le
    {text following : List Char}
    {byte : UInt8}
    (found : readEscape text = some (byte, following)) :
    following.length ≤ text.length := by
  cases text with
  | nil => simp [readEscape] at found
  | cons character rest =>
      unfold readEscape at found
      cases digit : octalDigit? character with
      | some value =>
          have bound := readOctal_length_le value 2 rest
          simp only [digit] at found
          split at found
          · cases found
            exact Nat.le_succ_of_le bound
          · cases found
      | none =>
          simp only [digit, Option.map_eq_some_iff, Prod.mk.injEq] at found
          rcases found with ⟨named, -, -, rfl⟩
          exact Nat.le_succ _

theorem readElement_length_le
    {first : Char}
    {rest following : List Char}
    {bytes : List UInt8}
    (found : readElement first rest = some (bytes, following)) :
    following.length ≤ rest.length := by
  unfold readElement at found
  split at found
  · simp only [Option.map_eq_some_iff, Prod.mk.injEq] at found
    rcases found with ⟨⟨byte, remaining⟩, escape, -, rfl⟩
    exact readEscape_length_le escape
  · split at found
    · cases found
    · cases found
      exact Nat.le_refl _

/-- Read the rest of a literal, up to the quote that ends it. -/
def readContent : List Char → Option (List UInt8 × List Char)
  | [] => none
  | first :: rest =>
      if first = '"' then some ([], rest)
      else
        match _ : readElement first rest with
        | none => none
        | some (bytes, following) =>
            (readContent following).map fun (more, behind) => (bytes ++ more, behind)
termination_by text => text.length
decreasing_by
  have shorter := readElement_length_le ‹_›
  simp only [List.length_cons]
  omega

/-- Read the literal at the front of a text: its bytes, and what follows it. -/
def read : List Char → Option (List UInt8 × List Char)
  | [] => none
  | first :: rest => if first = '"' then readContent rest else none

theorem readContent_quote (rest : List Char) : readContent ('"' :: rest) = some ([], rest) := by
  rw [readContent, if_pos rfl]

theorem readContent_element
    {first : Char}
    {rest following : List Char}
    {bytes : List UInt8}
    (notQuote : first ≠ '"')
    (found : readElement first rest = some (bytes, following)) :
    readContent (first :: rest) =
      (readContent following).map fun (more, behind) => (bytes ++ more, behind) := by
  rw [readContent, if_neg notQuote]
  split
  · rename_i refused
    rw [found] at refused
    cases refused
  · rename_i bytes' following' accepted
    rw [found] at accepted
    cases accepted
    rfl

/-! ## What is written is read back -/

theorem octalDigit_digitChar {digit : Nat} (small : digit < 8) :
    octalDigit? (Nat.digitChar digit) = some digit := by
  interval_cases digit <;> rfl

/-- Three octal digits are read as one byte, whatever follows them. -/
theorem readEscape_octalDigits (byte : UInt8) (rest : List Char) :
    readEscape (octalDigits byte ++ rest) = some (byte, rest) := by
  have small : byte.toNat < 256 := byte.toNat_lt
  have high := octalDigit_digitChar (show byte.toNat / 64 < 8 by omega)
  have middle := octalDigit_digitChar (show byte.toNat / 8 % 8 < 8 by omega)
  have low := octalDigit_digitChar (show byte.toNat % 8 < 8 by omega)
  have value : 8 * (8 * (byte.toNat / 64) + byte.toNat / 8 % 8) + byte.toNat % 8 = byte.toNat := by
    omega
  unfold octalDigits
  simp only [List.cons_append, List.nil_append, readEscape, high, readOctal, middle, low, value]
  rw [if_pos small, UInt8.ofNat_toNat]

theorem toNat_ofNat_of_ascii {code : Nat} (ascii : code < 128) :
    (Char.ofNat code).toNat = code := by
  rw [Char.toNat, Char.ofNat, dif_pos (Or.inl (by omega))]
  rfl

/-- The character of a printable byte has the byte as its code. -/
theorem toNat_ofNat_of_printable
    {byte : UInt8}
    (printable : 0x20 ≤ byte ∧ byte ≤ 0x7E) :
    0x20 ≤ byte.toNat ∧ byte.toNat ≤ 0x7E ∧ (Char.ofNat byte.toNat).toNat = byte.toNat := by
  have above := UInt8.le_iff_toNat_le.mp printable.1
  have below := UInt8.le_iff_toNat_le.mp printable.2
  simp only [UInt8.reduceToNat] at above below
  exact ⟨above, below, toNat_ofNat_of_ascii (by omega)⟩

theorem readElement_printable
    {byte : UInt8}
    (printable : 0x20 ≤ byte ∧ byte ≤ 0x7E)
    (notBackslash : byte ≠ 0x5C)
    (rest : List Char) :
    readElement (Char.ofNat byte.toNat) rest = some ([byte], rest) := by
  obtain ⟨above, below, code⟩ := toNat_ofNat_of_printable printable
  unfold readElement
  rw [if_neg, if_neg]
  · have short : (Char.ofNat byte.toNat).val.toNat ≤ 0x7F := by
      rw [Char.toNat] at code
      omega
    unfold String.utf8EncodeChar
    simp only [short, if_true]
    rw [Char.toNat] at code
    rw [code, UInt8.ofNat_toNat]
  · intro lineFeed
    rw [lineFeed] at code
    have : '\n'.toNat = 10 := rfl
    omega
  · intro backslash
    rw [backslash] at code
    apply notBackslash
    apply UInt8.toNat_inj.mp
    exact code.symm

/-- Whatever follows it, a written byte is read as one element that is no quote. -/
theorem exists_element_of_writeByte (byte : UInt8) (rest : List Char) :
    ∃ first behind,
      writeByte byte ++ rest = first :: behind ∧ first ≠ '"' ∧
        readElement first behind = some ([byte], rest) := by
  unfold writeByte
  split_ifs with backslash quote lineFeed carriageReturn tab question printable
  · subst backslash
    exact ⟨'\\', '\\' :: rest, rfl, by decide, rfl⟩
  · subst quote
    exact ⟨'\\', '"' :: rest, rfl, by decide, rfl⟩
  · subst lineFeed
    exact ⟨'\\', 'n' :: rest, rfl, by decide, rfl⟩
  · subst carriageReturn
    exact ⟨'\\', 'r' :: rest, rfl, by decide, rfl⟩
  · subst tab
    exact ⟨'\\', 't' :: rest, rfl, by decide, rfl⟩
  · subst question
    exact ⟨'\\', '?' :: rest, rfl, by decide, rfl⟩
  · refine ⟨_, rest, rfl, ?_, readElement_printable printable backslash rest⟩
    intro isQuote
    apply quote
    obtain ⟨-, -, code⟩ := toNat_ofNat_of_printable printable
    rw [isQuote] at code
    exact UInt8.toNat_inj.mp code.symm
  · refine ⟨'\\', octalDigits byte ++ rest, rfl, by decide, ?_⟩
    unfold readElement
    rw [if_pos rfl, readEscape_octalDigits]
    rfl

theorem readContent_writeByte (byte : UInt8) (rest : List Char) :
    readContent (writeByte byte ++ rest) =
      (readContent rest).map fun (more, behind) => (byte :: more, behind) := by
  rcases exists_element_of_writeByte byte rest with ⟨first, behind, written, notQuote, found⟩
  rw [written, readContent_element notQuote found]
  rfl

theorem readContent_flatMap (bytes : List UInt8) (rest : List Char) :
    readContent (bytes.flatMap writeByte ++ '"' :: rest) = some (bytes, rest) := by
  induction bytes with
  | nil => exact readContent_quote rest
  | cons byte bytes inductionHypothesis =>
      rw [List.flatMap_cons, List.append_assoc, readContent_writeByte, inductionHypothesis]
      rfl

/-- A literal is read as the bytes of its text, and reading stops at its end. -/
theorem read_write (text : String) (rest : List Char) :
    read ((write text).toList ++ rest) = some (Text.utf8 text, rest) := by
  unfold write writeBytes
  rw [String.toList_ofList, List.cons_append, read, if_pos rfl, List.append_assoc]
  exact readContent_flatMap (Text.utf8 text) rest

/-! ## The characters of a literal -/

/-- Printable ASCII. -/
def IsPrintable (character : Char) : Prop :=
  0x20 ≤ character.toNat ∧ character.toNat ≤ 0x7E

instance (character : Char) : Decidable (IsPrintable character) := by
  unfold IsPrintable
  infer_instance

theorem exists_digit_of_mem_octalDigits
    {byte : UInt8}
    {character : Char}
    (member : character ∈ octalDigits byte) :
    ∃ digit, digit < 8 ∧ character = Nat.digitChar digit := by
  have small : byte.toNat < 256 := byte.toNat_lt
  unfold octalDigits at member
  simp only [List.mem_cons, List.not_mem_nil, or_false] at member
  rcases member with high | middle | low
  · exact ⟨_, by omega, high⟩
  · exact ⟨_, by omega, middle⟩
  · exact ⟨_, by omega, low⟩

theorem printable_of_mem_octalDigits
    {byte : UInt8}
    {character : Char}
    (member : character ∈ octalDigits byte) :
    IsPrintable character := by
  rcases exists_digit_of_mem_octalDigits member with ⟨digit, small, rfl⟩
  unfold IsPrintable
  rw [Nat.toNat_digitChar_of_lt_ten (by omega)]
  omega

theorem printable_of_mem_writeByte
    {byte : UInt8}
    {character : Char}
    (member : character ∈ writeByte byte) :
    IsPrintable character := by
  have ofPair (first second : Char)
      (pair : character ∈ [first, second])
      (firstPrintable : IsPrintable first)
      (secondPrintable : IsPrintable second) :
      IsPrintable character := by
    rcases List.mem_pair.mp pair with rfl | rfl
    · exact firstPrintable
    · exact secondPrintable
  unfold writeByte at member
  split_ifs at member with backslash quote lineFeed carriageReturn tab question printable
  · exact ofPair _ _ member (by decide) (by decide)
  · exact ofPair _ _ member (by decide) (by decide)
  · exact ofPair _ _ member (by decide) (by decide)
  · exact ofPair _ _ member (by decide) (by decide)
  · exact ofPair _ _ member (by decide) (by decide)
  · exact ofPair _ _ member (by decide) (by decide)
  · obtain ⟨above, below, code⟩ := toNat_ofNat_of_printable printable
    rw [List.mem_singleton.mp member, IsPrintable, code]
    exact ⟨above, below⟩
  · rcases List.mem_cons.mp member with slash | digit
    · rw [slash]
      decide
    · exact printable_of_mem_octalDigits digit

/-- A literal holds printable ASCII only, whatever its text holds. -/
theorem printable_of_mem_write
    {text : String}
    {character : Char}
    (member : character ∈ (write text).toList) :
    IsPrintable character := by
  unfold write writeBytes at member
  rw [String.toList_ofList] at member
  simp only [List.mem_cons, List.mem_append, List.mem_flatMap, List.not_mem_nil, or_false] at member
  rcases member with quote | ⟨byte, -, spelled⟩ | quote
  · rw [quote]
    decide
  · exact printable_of_mem_writeByte spelled
  · rw [quote]
    decide

theorem lineFeed_not_mem_write (text : String) : '\n' ∉ (write text).toList := by
  intro member
  exact absurd (printable_of_mem_write member) (by decide)

end UnitAssembly.StringLiteral
