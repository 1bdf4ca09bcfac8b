import Mathlib.Data.List.Lex
import Mathlib.Data.List.Sort
import UnitAssembly.Library.LinkOrder
import UnitAssembly.Proofs.FirstSeen

/-!
Contract: the link order of the names it is made from.

Owns:
- names in increasing order of a key, which their set determines;
- `LinkOrder.Arranged`, the two parts of a link order behind the designated module, and
  that there is one such arrangement;
- which modules are linked, which comes first, and that each is linked once;
- `LinkOrder.ofParts_congr`, the discovered names matter as a set only, and
  `LinkOrder.ofParts_eraseDups`, the required ones by their first requests only.

Sorting by code point makes equal names neighbours and leaves one order for a set of
names, so neither the order in which modules are found nor how often one is found shows
in the link order.

Does not own: where the names come from.
-/

namespace UnitAssembly

/-! ## Names by a key -/

/-- Names in increasing order of a key are determined by their set. -/
theorem eq_of_increasing
    {β : Type}
    [Preorder β]
    {key : String → β}
    {names names' : List String}
    (increasing : names.Pairwise fun left right => key left < key right)
    (increasing' : names'.Pairwise fun left right => key left < key right)
    (same : ∀ name, name ∈ names ↔ name ∈ names') :
    names = names' := by
  have irreflexive : Std.Irrefl fun left right : String => key left < key right :=
    ⟨fun _ => lt_irrefl _⟩
  have antisymmetric : Std.Antisymm fun left right : String => key left < key right :=
    ⟨fun _ _ below above => absurd above (lt_asymm below)⟩
  exact List.Pairwise.eq_of_mem_iff increasing increasing' same

/-- The code points of a name, which are compared from the first one on. -/
def codePoints (name : String) : List Nat :=
  name.toList.map Char.toNat

theorem codePoints_lt_of_lt {left right : String} (below : left < right) :
    codePoints left < codePoints right :=
  List.map_lt (fun _ _ smaller => smaller) (String.lt_iff.mp below)

theorem pairwise_sortNames (names : List String) : (sortNames names).Pairwise (· ≤ ·) := by
  have sorted :
      (sortNames names).Pairwise fun left right => decide (left ≤ right) = true := by
    apply List.pairwise_mergeSort
    · intro first second third below above
      simp only [decide_eq_true_eq] at *
      exact String.le_trans below above
    · intro first second
      simp only [Bool.or_eq_true, decide_eq_true_eq]
      exact String.le_total first second
  exact sorted.imp of_decide_eq_true

/-- Sorted names increase once their repetitions are left out. -/
theorem increasing_of_sorted {names : List String} (sorted : names.Pairwise (· ≤ ·)) :
    names.eraseDups.Pairwise fun left right => codePoints left < codePoints right := by
  have different : names.eraseDups.Pairwise (· ≠ ·) := nodup_eraseDups names
  refine ((sorted.sublist (eraseDups_sublist names)).and different).imp ?_
  intro left right ⟨notAbove, notSame⟩
  apply codePoints_lt_of_lt
  by_contra notBelow
  exact notSame (String.le_antisymm notAbove (String.not_lt.mp notBelow))

/-! ## Link orders -/

namespace LinkOrder

/-- The parts of a link order behind the designated module: what was found, by code
point, and what was asked for besides, by first request. -/
structure Arranged (discovered required found asked : List String) : Prop where
  increasing : found.Pairwise fun left right => codePoints left < codePoints right
  mem_found : ∀ name, name ∈ found ↔ name ∈ discovered ∧ name ≠ designated
  byFirstRequest :
    asked.Pairwise fun earlier later => required.idxOf earlier < required.idxOf later
  mem_asked :
    ∀ name, name ∈ asked ↔ name ∈ required ∧ name ≠ designated ∧ name ∉ discovered

theorem Arranged.unique
    {discovered required found asked found' asked' : List String}
    (arranged : Arranged discovered required found asked)
    (arranged' : Arranged discovered required found' asked') :
    found = found' ∧ asked = asked' := by
  constructor
  · apply eq_of_increasing arranged.increasing arranged'.increasing
    intro name
    rw [arranged.mem_found, arranged'.mem_found]
  · apply eq_of_increasing arranged.byFirstRequest arranged'.byFirstRequest
    intro name
    rw [arranged.mem_asked, arranged'.mem_asked]

/-- A link order is the designated module and the two parts, in this order: what is found
is new behind the designated module, and what is asked for is new behind both. -/
theorem exists_arranged (discovered required : List String) :
    ∃ found asked,
      (ofParts discovered required).names = designated :: (found ++ asked) ∧
        Arranged discovered required found asked := by
  have mem_sorted (name : String) : name ∈ sortNames discovered ↔ name ∈ discovered := by
    rw [sortNames, List.mem_mergeSort]
  refine ⟨((sortNames discovered).filter (· != designated)).eraseDups,
    (required.removeAll (designated :: sortNames discovered)).eraseDups, ?_, ?_, ?_, ?_, ?_⟩
  · unfold ofParts
    rw [← List.cons_append, List.eraseDups_append, List.eraseDups_cons]
    rfl
  · exact increasing_of_sorted ((pairwise_sortNames discovered).filter _)
  · intro name
    rw [List.mem_eraseDups, List.mem_filter, mem_sorted, bne_iff_ne]
  · rw [List.removeAll, eraseDups_filter]
    exact (eraseDups_pairwise required).filter _
  · intro name
    rw [List.mem_eraseDups, List.removeAll, List.mem_filter]
    simp [mem_sorted]

theorem nodup_names (discovered required : List String) :
    (ofParts discovered required).names.Nodup :=
  nodup_eraseDups _

/-- The designated module is linked first, whatever is found or required. -/
theorem names_ofParts (discovered required : List String) :
    (ofParts discovered required).names =
      designated :: ((sortNames discovered ++ required).filter (· != designated)).eraseDups := by
  unfold ofParts
  exact List.eraseDups_cons

theorem mem_names_iff (discovered required : List String) (name : String) :
    name ∈ (ofParts discovered required).names ↔
      name = designated ∨ name ∈ discovered ∨ name ∈ required := by
  unfold ofParts sortNames
  rw [List.mem_eraseDups, List.mem_cons, List.mem_append, List.mem_mergeSort]

/-- Discovered names that form the same set give the same link order, whatever their
order and however often each of them was found. -/
theorem ofParts_congr
    {discovered discovered' : List String}
    (same : ∀ name, name ∈ discovered ↔ name ∈ discovered')
    (required : List String) :
    ofParts discovered required = ofParts discovered' required := by
  obtain ⟨found, asked, names, arranged⟩ := exists_arranged discovered required
  obtain ⟨found', asked', names', arranged'⟩ := exists_arranged discovered' required
  have sameArrangement : Arranged discovered' required found asked := by
    refine ⟨arranged.increasing, ?_, arranged.byFirstRequest, ?_⟩
    · intro name
      rw [arranged.mem_found, same]
    · intro name
      rw [arranged.mem_asked, same]
  obtain ⟨sameFound, sameAsked⟩ := sameArrangement.unique arranged'
  have sameNames : (ofParts discovered required).names = (ofParts discovered' required).names := by
    rw [names, names', sameFound, sameAsked]
  exact congrArg LinkOrder.mk sameNames

/-- Required names that are requested again are left out of the link order, so it makes no
difference if they have been left out before. -/
theorem ofParts_eraseDups (discovered required : List String) :
    ofParts discovered required.eraseDups = ofParts discovered required := by
  have again : required.eraseDups.eraseDups = required.eraseDups :=
    eraseDups_of_nodup (nodup_eraseDups required)
  unfold ofParts
  rw [← List.cons_append, ← List.cons_append, List.eraseDups_append, List.eraseDups_append,
    List.removeAll, List.removeAll, eraseDups_filter, eraseDups_filter, again]

/-- **The link order is exact.**  It is the one list that begins with the designated
module and goes on with the other discovered names, strictly increasing by code point,
and then with those required names that are neither, once each, in the order of their
first requests.  So each module is linked once, and those linked are the designated one,
the discovered and the required ones, and no others. -/
theorem ofParts_exact (discovered required : List String) :
    (∀ names,
      (ofParts discovered required).names = names ↔
        ∃ found asked,
          names = "exception" :: (found ++ asked) ∧
            (found.Pairwise fun left right =>
              left.toList.map Char.toNat < right.toList.map Char.toNat) ∧
            (∀ name, name ∈ found ↔ name ∈ discovered ∧ name ≠ "exception") ∧
            (asked.Pairwise fun earlier later =>
              required.idxOf earlier < required.idxOf later) ∧
            ∀ name, name ∈ asked ↔
              name ∈ required ∧ name ≠ "exception" ∧ name ∉ discovered) ∧
      (ofParts discovered required).names.Nodup ∧
      ∀ name,
        (name ∈ (ofParts discovered required).names ↔
          name = "exception" ∨ name ∈ discovered ∨ name ∈ required) ∧
        ((ofParts discovered required).contains name = true ↔
          name = "exception" ∨ name ∈ discovered ∨ name ∈ required) := by
  obtain ⟨found, asked, linked, arranged⟩ := exists_arranged discovered required
  refine ⟨fun names => ⟨?_, ?_⟩, nodup_names discovered required, fun name => ⟨?_, ?_⟩⟩
  · intro same
    rw [← same]
    exact ⟨found, asked, linked, arranged.increasing, arranged.mem_found,
      arranged.byFirstRequest, arranged.mem_asked⟩
  · rintro ⟨found', asked', rfl, increasing, mem_found, byFirstRequest, mem_asked⟩
    have arranged' : Arranged discovered required found' asked' :=
      ⟨increasing, mem_found, byFirstRequest, mem_asked⟩
    obtain ⟨rfl, rfl⟩ := arranged.unique arranged'
    exact linked
  · exact mem_names_iff discovered required name
  · unfold contains
    rw [List.contains_iff_mem]
    exact mem_names_iff discovered required name

end LinkOrder

end UnitAssembly
