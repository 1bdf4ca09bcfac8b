import Mathlib
import UnitAssembly.FileSystem.Tree
import UnitAssembly.Library.Discovery
import UnitAssembly.Proofs.Library.LinkOrder

/-!
Contract: which modules share an initializer.

Owns:
- `ModuleName.Confusable`, names that differ only in slashes against underscores, and
  that exactly these have the same initializer;
- the initializers of an enumerated library: distinct, and each declared and called once,
  exactly as long as no two of its modules are confusable;
- a library in which two modules are.

A link order has every name once.  The names of the initializers are made from these by
writing an underscore for each slash, and a segment may hold underscores of its own.

Does not own: the order of the initializers.
-/

namespace UnitAssembly

namespace ModuleName

/-- The characters are the same, or one is a slash and the other an underscore. -/
def ConfusableCharacters (left right : Char) : Prop :=
  left = right ∨ (left = '/' ∧ right = '_') ∨ (left = '_' ∧ right = '/')

/-- The names agree, character by character, if slashes and underscores are not told
apart. -/
def Confusable (left right : String) : Prop :=
  List.Forall₂ ConfusableCharacters left.toList right.toList

theorem identifierCharacter_eq_iff (left right : Char) :
    identifierCharacter left = identifierCharacter right ↔ ConfusableCharacters left right := by
  unfold identifierCharacter ConfusableCharacters
  by_cases leftSlash : left = '/'
  · by_cases rightSlash : right = '/'
    · simp [leftSlash, rightSlash]
    · simp [leftSlash, rightSlash, eq_comm]
  · by_cases rightSlash : right = '/'
    · simp [leftSlash, rightSlash]
    · simp [leftSlash, rightSlash]

theorem initFunction_eq_iff (left right : String) :
    initFunction left = initFunction right ↔ Confusable left right := by
  unfold initFunction Confusable
  rw [String.append_right_inj, String.ofList_inj, ← List.forall₂_eq_eq_eq,
    List.forall₂_map_left_iff, List.forall₂_map_right_iff]
  simp only [identifierCharacter_eq_iff]

theorem initPrototype_eq_iff (left right : String) :
    initPrototype left = initPrototype right ↔ Confusable left right := by
  unfold initPrototype
  rw [String.append_left_inj, String.append_right_inj, initFunction_eq_iff]

theorem initCall_eq_iff (left right : String) :
    initCall left = initCall right ↔ Confusable left right := by
  unfold initCall
  rw [String.append_left_inj, initFunction_eq_iff]

/-- Different names can be confused only where one has a slash and the other an
underscore. -/
theorem Confusable.slash_and_underscore
    {left right : String}
    (confusable : Confusable left right)
    (different : left ≠ right) :
    ('/' ∈ left.toList ∧ '_' ∈ right.toList) ∨ ('_' ∈ left.toList ∧ '/' ∈ right.toList) := by
  have differentLists : left.toList ≠ right.toList := mt String.toList_inj.mp different
  unfold Confusable at confusable
  generalize left.toList = leftList at *
  generalize right.toList = rightList at *
  induction confusable with
  | nil => exact absurd rfl differentLists
  | cons here further inductionHypothesis =>
      rcases here with rfl | ⟨rfl, rfl⟩ | ⟨rfl, rfl⟩
      · have furtherDifferent := mt (congrArg _) differentLists
        rcases inductionHypothesis furtherDifferent with ⟨slash, underscore⟩ | ⟨underscore, slash⟩
        · exact Or.inl ⟨List.mem_cons_of_mem _ slash, List.mem_cons_of_mem _ underscore⟩
        · exact Or.inr ⟨List.mem_cons_of_mem _ underscore, List.mem_cons_of_mem _ slash⟩
      · exact Or.inl ⟨List.mem_cons_self, List.mem_cons_self⟩
      · exact Or.inr ⟨List.mem_cons_self, List.mem_cons_self⟩

end ModuleName

namespace LinkOrder

open ModuleName (Confusable)

/-- A text made from distinct names comes up once exactly for a name that no other one is
confusable with. -/
theorem count_map_eq_one_iff
    {names : List String}
    (distinct : names.Nodup)
    {text : String → String}
    (sameText : ∀ left right, text left = text right ↔ Confusable left right)
    {name : String}
    (member : name ∈ names) :
    (names.map text).count (text name) = 1 ↔
      ∀ other ∈ names, Confusable other name → other = name := by
  let confused := names.filter fun other => text other == text name
  have mem_confused (other : String) :
      other ∈ confused ↔ other ∈ names ∧ Confusable other name := by
    rw [List.mem_filter, beq_iff_eq, sameText]
  have counted : (names.map text).count (text name) = confused.length := by
    rw [List.count_eq_countP, List.countP_map, List.countP_eq_length_filter]
    rfl
  have itself : name ∈ confused := by
    rw [mem_confused, ← sameText]
    exact ⟨member, rfl⟩
  rw [counted]
  constructor
  · intro single other isName confusable
    obtain ⟨only, alone⟩ := List.length_eq_one_iff.mp single
    have isOnly := (mem_confused other).mpr ⟨isName, confusable⟩
    rw [alone, List.mem_singleton] at isOnly itself
    rw [isOnly, itself]
  · intro unconfused
    have allSame : confused = List.replicate confused.length name := by
      apply List.eq_replicate_of_mem
      intro other isConfused
      obtain ⟨isName, confusable⟩ := (mem_confused other).mp isConfused
      exact unconfused other isName confusable
    have confusedDistinct : confused.Nodup := distinct.filter _
    rw [allSame, List.nodup_replicate] at confusedDistinct
    have positive := List.length_pos_of_mem itself
    omega

theorem nodup_map_initFunction_iff {names : List String} (distinct : names.Nodup) :
    (names.map ModuleName.initFunction).Nodup ↔
      ∀ left ∈ names, ∀ right ∈ names, Confusable left right → left = right := by
  constructor
  · intro functionsDistinct left leftMember right rightMember confusable
    have sameFunction := (ModuleName.initFunction_eq_iff left right).mpr confusable
    exact List.inj_on_of_nodup_map functionsDistinct leftMember rightMember sameFunction
  · intro unconfused
    apply List.Nodup.map_on _ distinct
    intro left leftMember right rightMember sameFunction
    have confusable := (ModuleName.initFunction_eq_iff left right).mp sameFunction
    exact unconfused left leftMember right rightMember confusable

end LinkOrder

namespace Discovery

open ModuleName (Confusable initFunction initPrototype initCall)

/-- **One initializer for each module, but for confusable ones.**  In the link order of
every library and every list of required modules each name stands once.  Two modules
have the same initializer exactly when their names are confusable; so the initializers
are distinct exactly when no two different modules are, and a module is the only one to
declare and to call its initializer exactly when no other is confusable with it. -/
theorem initializers_distinct_iff
    (files : FileSystem)
    (location : LibraryLocation)
    (required : List String) :
    let order := (enumerate files location required).value
    order.names.Nodup ∧
    (∀ left ∈ order.names, ∀ right ∈ order.names,
      (initFunction left = initFunction right ↔ Confusable left right) ∧
      (Confusable left right → left ≠ right →
        ('/' ∈ left.toList ∧ '_' ∈ right.toList) ∨
          ('_' ∈ left.toList ∧ '/' ∈ right.toList))) ∧
    ((order.names.map initFunction).Nodup ↔
      ∀ left ∈ order.names, ∀ right ∈ order.names, Confusable left right → left = right) ∧
    ∀ name ∈ order.names,
      (order.initPrototypes.count (initPrototype name) = 1 ↔
        ∀ other ∈ order.names, Confusable other name → other = name) ∧
      (order.initCalls.count (initCall name) = 1 ↔
        ∀ other ∈ order.names, Confusable other name → other = name) := by
  intro order
  have distinct : order.names.Nodup := LinkOrder.nodup_names _ required
  refine ⟨distinct, ?_, LinkOrder.nodup_map_initFunction_iff distinct, ?_⟩
  · intro left _ right _
    exact ⟨ModuleName.initFunction_eq_iff left right,
      ModuleName.Confusable.slash_and_underscore⟩
  · intro name member
    exact ⟨LinkOrder.count_map_eq_one_iff distinct ModuleName.initPrototype_eq_iff member,
      LinkOrder.count_map_eq_one_iff distinct ModuleName.initCall_eq_iff member⟩

/-- A library with a module in a group beside one whose name has an underscore instead. -/
def confusableLibrary : FileTree :=
  .ofList
    [(Text.utf8 "lib/a/b.rb", .file .empty), (Text.utf8 "lib/a_b.rb", .file .empty)]

theorem initializers_coincide :
    let order := (enumerate confusableLibrary.fileSystem { root := "lib" } []).value
    order.names = ["exception", "a/b", "a_b"] ∧
      order.initCalls =
        ["init_exception(env, self);", "init_a_b(env, self);", "init_a_b(env, self);"] ∧
      ¬ (order.names.map initFunction).Nodup := by
  intro order
  have names : order.names = ["exception", "a/b", "a_b"] := by cbv
  refine ⟨names, ?_, ?_⟩
  · rw [LinkOrder.initCalls, names]
    decide
  · rw [names]
    decide

end Discovery

end UnitAssembly
