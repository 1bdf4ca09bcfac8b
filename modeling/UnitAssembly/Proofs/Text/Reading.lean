import UnitAssembly.FileSystem.Basic
import UnitAssembly.Text.Affix

/-!
Contract: when a text can be read from bytes or taken out of another text, and what is
read then.

Owns: the exact results of `withoutBeginning?`, of `withoutEnding?` and of reading UTF-8,
for names and for files.

Does not own: what the texts mean.
-/

namespace UnitAssembly

namespace Text

theorem exists_append_iff_isPrefixOf (beginning text : String) :
    (∃ rest, text = beginning ++ rest) ↔ beginning.toList.isPrefixOf text.toList = true := by
  rw [List.isPrefixOf_iff_prefix]
  constructor
  · rintro ⟨rest, rfl⟩
    rw [String.toList_append]
    exact List.prefix_append _ _
  · rintro ⟨rest, whole⟩
    refine ⟨String.ofList rest, ?_⟩
    rw [← String.toList_inj, String.toList_append, String.toList_ofList, whole]

theorem withoutBeginning?_eq_some_iff (beginning text rest : String) :
    withoutBeginning? beginning text = some rest ↔ text = beginning ++ rest := by
  unfold withoutBeginning?
  rw [← String.toList_inj, String.toList_append]
  constructor
  · intro taken
    split at taken
    · next begins =>
        rcases List.isPrefixOf_iff_prefix.mp begins with ⟨behind, whole⟩
        rw [← Option.some.inj taken, ← whole, String.toList_ofList, List.drop_left]
    · cases taken
  · intro whole
    rw [whole, if_pos (List.isPrefixOf_iff_prefix.mpr (List.prefix_append _ _)), List.drop_left,
      String.ofList_toList]

theorem withoutEnding?_eq_some_iff (ending text rest : String) :
    withoutEnding? ending text = some rest ↔ text = rest ++ ending := by
  unfold withoutEnding?
  rw [← String.toList_inj, String.toList_append]
  constructor
  · intro taken
    split at taken
    · next ends =>
        rcases List.isSuffixOf_iff_suffix.mp ends with ⟨front, whole⟩
        rw [← Option.some.inj taken, ← whole, String.toList_ofList, List.length_append,
          Nat.add_sub_cancel, List.take_left]
    · cases taken
  · intro whole
    rw [whole, if_pos (List.isSuffixOf_iff_suffix.mpr (List.suffix_append _ _)),
      List.length_append, Nat.add_sub_cancel, List.take_left, String.ofList_toList]

theorem fromUTF8?_eq_some_iff (bytes : ByteArray) (text : String) :
    String.fromUTF8? bytes = some text ↔ bytes = text.toUTF8 := by
  unfold String.fromUTF8?
  constructor
  · intro read
    split at read
    · rw [← Option.some.inj read]
      rfl
    · cases read
  · intro same
    subst same
    exact dif_pos text.isValidUTF8

end Text

theorem FileName.text?_eq_some_iff (name : FileName) (text : String) :
    name.text? = some text ↔ name = .ofText text := by
  unfold FileName.text? FileName.ofText Text.utf8
  rw [Text.fromUTF8?_eq_some_iff]
  rcases name with ⟨bytes⟩
  constructor
  · intro same
    rw [← same]
  · intro same
    rw [FileName.mk.injEq] at same
    rw [same]

theorem FileSystem.readText_eq_ok_iff (files : FileSystem) (path text : String) :
    files.readText path = .ok text ↔ files.content path = .ok text.toUTF8 := by
  unfold FileSystem.readText
  cases files.content path with
  | error fault => simp
  | ok bytes =>
      rw [Except.ok.injEq, ← Text.fromUTF8?_eq_some_iff]
      cases decoded : String.fromUTF8? bytes <;> simp [decoded]

end UnitAssembly
