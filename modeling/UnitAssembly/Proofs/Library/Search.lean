import UnitAssembly.Library.Discovery
import UnitAssembly.Proofs.Text.Reading

/-!
Contract: what the search for library modules finds, said by the entries of directories.

Owns:
- `IsModuleFile` and `IsGroup`, the entries that count, by their names;
- `mem_discover_iff`, the names that are discovered;
- `moduleFiles`, the files that they stand for, and that there are as many of them.

Does not own: the order in which names are linked.
-/

namespace UnitAssembly

theorem ModuleName.isSegment_iff (text : String) :
    isSegment text = true ↔
      text ≠ "" ∧ ∀ character ∈ text.toList, isSegmentCharacter character = true := by
  unfold isSegment
  rw [Bool.and_eq_true, List.all_eq_true, Bool.not_eq_true', List.isEmpty_eq_false_iff, ne_eq,
    String.toList_eq_nil_iff]

namespace Discovery

/-- The entries of the directory at a path; none, if it cannot be listed. -/
def entriesOf (files : FileSystem) (path : String) : List DirectoryEntry :=
  (files.list? path).getD []

/-- The entry is the file of a module with the given stem. -/
structure IsModuleFile (extension : String) (entry : DirectoryEntry) (stem : String) : Prop where
  file : entry.isDirectory = false
  segment : ModuleName.isSegment stem = true
  named : entry.name = .ofText (stem ++ ("." ++ extension))

/-- The entry is a directory that groups modules under its name. -/
structure IsGroup (entry : DirectoryEntry) (group : String) : Prop where
  directory : entry.isDirectory = true
  segment : ModuleName.isSegment group = true
  named : entry.name = .ofText group

theorem moduleStem?_eq_some_iff (extension : String) (entry : DirectoryEntry) (stem : String) :
    moduleStem? extension entry = some stem ↔ IsModuleFile extension entry stem := by
  unfold moduleStem? ModuleName.stem?
  constructor
  · intro found
    split at found
    · cases found
    · next notDirectory =>
        rcases Option.bind_eq_some_iff.mp found with ⟨text, readable, stemmed⟩
        rcases Option.filter_eq_some_iff.mp stemmed with ⟨taken, segment⟩
        rw [Text.withoutEnding?_eq_some_iff] at taken
        rw [FileName.text?_eq_some_iff, taken] at readable
        exact ⟨Bool.not_eq_true _ ▸ notDirectory, segment, readable⟩
  · rintro ⟨file, segment, named⟩
    rw [if_neg (by simp [file]), (FileName.text?_eq_some_iff _ _).mpr named, Option.bind_some,
      (Text.withoutEnding?_eq_some_iff _ _ _).mpr rfl, Option.filter_some, if_pos segment]

theorem group?_eq_some_iff (entry : DirectoryEntry) (group : String) :
    group? entry = some group ↔ IsGroup entry group := by
  unfold group?
  constructor
  · intro found
    split at found
    · next directory =>
        rcases Option.filter_eq_some_iff.mp found with ⟨readable, segment⟩
        exact ⟨directory, segment, (FileName.text?_eq_some_iff _ _).mp readable⟩
    · cases found
  · rintro ⟨directory, segment, named⟩
    rw [if_pos directory, (FileName.text?_eq_some_iff _ _).mpr named, Option.filter_some,
      if_pos segment]

theorem mem_stemsIn_iff (files : FileSystem) (extension path stem : String) :
    stem ∈ stemsIn files extension path ↔
      ∃ entry ∈ entriesOf files path, IsModuleFile extension entry stem := by
  unfold stemsIn entriesOf
  simp only [List.mem_filterMap, moduleStem?_eq_some_iff]

theorem mem_modulesAt_iff
    (files : FileSystem)
    (location : LibraryLocation)
    (entry : DirectoryEntry)
    (name : String) :
    name ∈ modulesAt files location entry ↔
      IsModuleFile location.extension entry name ∨
        ∃ group stem, IsGroup entry group ∧
          stem ∈ stemsIn files location.extension (joinPath location.root group) ∧
          name = ModuleName.inGroup group stem := by
  unfold modulesAt
  cases grouped : group? entry with
  | some group =>
      have isGroup := (group?_eq_some_iff entry group).mp grouped
      rw [List.mem_map]
      constructor
      · rintro ⟨stem, listed, rfl⟩
        exact Or.inr ⟨group, stem, isGroup, listed, rfl⟩
      · rintro (isFile | ⟨other, stem, isOther, listed, rfl⟩)
        · -- A directory is no file.
          have directory := isGroup.directory
          rw [isFile.file] at directory
          cases directory
        · rw [← group?_eq_some_iff, grouped] at isOther
          obtain rfl := Option.some.inj isOther
          exact ⟨stem, listed, rfl⟩
  | none =>
      rw [Option.mem_toList, moduleStem?_eq_some_iff]
      constructor
      · exact Or.inl
      · rintro (isFile | ⟨group, stem, isGroup, -, -⟩)
        · exact isFile
        · rw [← group?_eq_some_iff, grouped] at isGroup
          cases isGroup

/-- The discovered names are the stems of the module files in the root, and behind the
name of a group those of the module files in it. -/
theorem mem_discover_iff (files : FileSystem) (location : LibraryLocation) (name : String) :
    name ∈ discover files location ↔
      (∃ entry ∈ entriesOf files location.root, IsModuleFile location.extension entry name) ∨
        ∃ entry ∈ entriesOf files location.root, ∃ group stem, IsGroup entry group ∧
          stem ∈ stemsIn files location.extension (joinPath location.root group) ∧
          name = ModuleName.inGroup group stem := by
  unfold discover
  rw [List.mem_flatMap, ← entriesOf]
  simp only [mem_modulesAt_iff, and_or_left, exists_or]

/-- A discovered name is not empty, and it holds no other characters than a segment does,
but for the slash behind a group. -/
theorem characters_of_mem_discover
    {files : FileSystem}
    {location : LibraryLocation}
    {name : String}
    (discovered : name ∈ discover files location) :
    name ≠ "" ∧
      ∀ character ∈ name.toList,
        ModuleName.isSegmentCharacter character = true ∨ character = '/' := by
  rcases (mem_discover_iff files location name).mp discovered with
    ⟨entry, -, isFile⟩ | ⟨entry, -, group, stem, isGroup, listed, rfl⟩
  · obtain ⟨filled, characters⟩ := (ModuleName.isSegment_iff name).mp isFile.segment
    exact ⟨filled, fun character member => Or.inl (characters character member)⟩
  · obtain ⟨file, -, isFile⟩ := (mem_stemsIn_iff files _ _ stem).mp listed
    obtain ⟨-, inGroup⟩ := (ModuleName.isSegment_iff group).mp isGroup.segment
    obtain ⟨-, inStem⟩ := (ModuleName.isSegment_iff stem).mp isFile.segment
    unfold ModuleName.inGroup
    refine ⟨fun empty => ?_, ?_⟩
    · rw [← String.toList_inj] at empty
      simp at empty
    · intro character member
      rw [String.toList_append, String.toList_append, List.mem_append, List.mem_append] at member
      rcases member with (here | slash) | here
      · exact Or.inl (inGroup character here)
      · exact Or.inr (List.mem_singleton.mp slash)
      · exact Or.inl (inStem character here)

/-! ## Counting module files -/

instance (extension : String) (entry : DirectoryEntry) :
    Decidable (∃ stem, IsModuleFile extension entry stem) :=
  decidable_of_iff ((moduleStem? extension entry).isSome = true) (by
    simp only [Option.isSome_iff_exists, moduleStem?_eq_some_iff])

/-- The module files in the directory at a path. -/
def moduleFilesIn (files : FileSystem) (extension path : String) : List DirectoryEntry :=
  (entriesOf files path).filter fun entry => ∃ stem, IsModuleFile extension entry stem

/-- The groups of a library. -/
def groups (files : FileSystem) (location : LibraryLocation) : List String :=
  (entriesOf files location.root).filterMap group?

/-- The module files of a library, those of the root and those of its groups. -/
def moduleFiles (files : FileSystem) (location : LibraryLocation) : List DirectoryEntry :=
  moduleFilesIn files location.extension location.root ++
    (groups files location).flatMap fun group =>
      moduleFilesIn files location.extension (joinPath location.root group)

theorem length_stemsIn (files : FileSystem) (extension path : String) :
    (stemsIn files extension path).length = (moduleFilesIn files extension path).length := by
  unfold stemsIn moduleFilesIn
  rw [List.length_filterMap_eq_countP, List.countP_eq_length_filter]
  simp only [← moduleStem?_eq_some_iff, ← Option.isSome_iff_exists, Bool.decide_eq_true]
  rfl

theorem length_modulesAt_of_group
    {files : FileSystem}
    {location : LibraryLocation}
    {entry : DirectoryEntry}
    {group : String}
    (grouped : group? entry = some group) :
    (modulesAt files location entry).length =
      (moduleFilesIn files location.extension (joinPath location.root group)).length := by
  unfold modulesAt
  rw [grouped, List.length_map, length_stemsIn]

theorem length_modulesAt_of_not_group
    {files : FileSystem}
    {location : LibraryLocation}
    {entry : DirectoryEntry}
    (notGroup : group? entry = none) :
    (modulesAt files location entry).length =
      if ∃ stem, IsModuleFile location.extension entry stem then 1 else 0 := by
  unfold modulesAt
  rw [notGroup]
  simp only [← moduleStem?_eq_some_iff, ← Option.isSome_iff_exists]
  cases moduleStem? location.extension entry <;> rfl

/-- Every discovered name comes from a module file of its own: entry by entry, since a
group adds the files in it and any other entry at most itself. -/
theorem length_discover (files : FileSystem) (location : LibraryLocation) :
    (discover files location).length = (moduleFiles files location).length := by
  unfold discover moduleFiles groups
  rw [List.length_append, moduleFilesIn, ← entriesOf]
  generalize entriesOf files location.root = entries
  induction entries with
  | nil => rfl
  | cons entry entries inductionHypothesis =>
      rw [List.flatMap_cons, List.length_append, inductionHypothesis]
      cases grouped : group? entry with
      | some group =>
          have notFile : ¬ ∃ stem, IsModuleFile location.extension entry stem := by
            rintro ⟨stem, isFile⟩
            have directory := ((group?_eq_some_iff entry group).mp grouped).directory
            rw [isFile.file] at directory
            cases directory
          rw [length_modulesAt_of_group grouped, List.filterMap_cons_some grouped,
            List.flatMap_cons, List.length_append, List.filter_cons_of_neg (by simpa using notFile)]
          omega
      | none =>
          rw [length_modulesAt_of_not_group grouped, List.filterMap_cons_none grouped]
          by_cases isFile : ∃ stem, IsModuleFile location.extension entry stem
          · rw [if_pos isFile, List.filter_cons_of_pos (by simpa using isFile), List.length_cons]
            omega
          · rw [if_neg isFile, List.filter_cons_of_neg (by simpa using isFile)]
            omega

end Discovery

end UnitAssembly
