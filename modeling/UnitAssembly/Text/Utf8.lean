/-!
Contract: the UTF-8 form of a text.

Owns:
- `utf8`, the bytes of a text;
- `byteLength`, the number of bytes of some characters.

Does not own: the reading of bytes as text.
-/

namespace UnitAssembly.Text

def utf8 (text : String) : List UInt8 :=
  text.toUTF8.data.toList

theorem utf8_injective {text other : String} (same : utf8 text = utf8 other) : text = other := by
  unfold utf8 at same
  apply String.toByteArray_inj.mp
  exact ByteArray.ext (Array.toList_inj.mp same)

def byteLength : List Char → Nat
  | [] => 0
  | character :: rest => character.utf8Size + byteLength rest

@[simp]
theorem byteLength_nil : byteLength [] = 0 :=
  rfl

@[simp]
theorem byteLength_cons (character : Char) (rest : List Char) :
    byteLength (character :: rest) = character.utf8Size + byteLength rest :=
  rfl

@[simp]
theorem byteLength_append (front back : List Char) :
    byteLength (front ++ back) = byteLength front + byteLength back := by
  induction front with
  | nil => simp
  | cons character rest inductionHypothesis =>
      simp only [List.cons_append, byteLength_cons, inductionHypothesis]
      omega

end UnitAssembly.Text
