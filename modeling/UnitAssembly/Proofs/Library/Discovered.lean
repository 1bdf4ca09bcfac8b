import Mathlib.Data.List.Nodup
import UnitAssembly.Proofs.FileSystem.Listing
import UnitAssembly.Proofs.Library.Search

/-!
Contract: the discovered modules of a library, exactly.

Owns:
- `IsSegmentText`, `HoldsFile` and `HoldsDirectory`, in which the modules of a library are
  said without the search;
- that no module is found twice, since the entries of a directory have different names and
  a segment holds no slash;
- what the search does not depend on: directories that cannot be listed, and everything
  below a group;
- `discover_exact`, which has it all together.

Does not own: the order in which names are linked.
-/

namespace UnitAssembly

/-! ## Segments -/

namespace ModuleName

/-- The characters of a segment. -/
def segmentAlphabet : String :=
  "abcdefghijklmnopqrstuvwxyz0123456789_"

/-- A text over the alphabet of segments that is not empty. -/
def IsSegmentText (text : String) : Prop :=
  text ≠ "" ∧ ∀ character ∈ text.toList, character ∈ segmentAlphabet.toList

theorem isSegmentCharacter_of_mem_alphabet
    {character : Char}
    (member : character ∈ segmentAlphabet.toList) :
    isSegmentCharacter character = true := by
  have all : segmentAlphabet.toList.all isSegmentCharacter = true := by decide +kernel
  exact List.all_eq_true.mp all character member

theorem mem_alphabet_of_isSegmentCharacter
    {character : Char}
    (segment : isSegmentCharacter character = true) :
    character ∈ segmentAlphabet.toList := by
  have below : character.toNat < 123 := by
    unfold isSegmentCharacter at segment
    simp only [Bool.or_eq_true, Bool.and_eq_true, decide_eq_true_eq, beq_iff_eq, Char.le_def,
      UInt32.le_iff_toNat_le] at segment
    rcases segment with (letter | digit) | rfl
    · exact Nat.lt_succ_of_le letter.2
    · exact Nat.lt_of_le_of_lt digit.2 (by decide)
    · decide
  have all :
      (List.range 123).all (fun code =>
        !isSegmentCharacter (Char.ofNat code) ||
          segmentAlphabet.toList.contains (Char.ofNat code)) = true := by
    decide +kernel
  have here := List.all_eq_true.mp all character.toNat (List.mem_range.mpr below)
  rw [Char.ofNat_toNat, segment] at here
  simpa using here

theorem isSegment_iff_isSegmentText (text : String) :
    isSegment text = true ↔ IsSegmentText text := by
  rw [isSegment_iff, IsSegmentText]
  have alphabet (character : Char) :
      isSegmentCharacter character = true ↔ character ∈ segmentAlphabet.toList :=
    ⟨mem_alphabet_of_isSegmentCharacter, isSegmentCharacter_of_mem_alphabet⟩
  simp only [alphabet]

theorem slash_not_mem_of_isSegment
    {text : String}
    (segment : isSegment text = true) :
    '/' ∉ text.toList := by
  intro member
  exact absurd (((isSegment_iff text).mp segment).2 '/' member) (by decide)

theorem toList_inGroup (group stem : String) :
    (inGroup group stem).toList = group.toList ++ '/' :: stem.toList := by
  simp [inGroup]

/-- A name in a group is no segment. -/
theorem not_isSegment_inGroup (group stem : String) : ¬ isSegment (inGroup group stem) = true := by
  intro segment
  apply slash_not_mem_of_isSegment segment
  simp [toList_inGroup]

/-- The only slash of a name in a group stands behind the group. -/
theorem inGroup_split
    {group stem : String}
    {front back : List Char}
    (groupSegment : isSegment group = true)
    (stemSegment : isSegment stem = true)
    (split : (inGroup group stem).toList = front ++ '/' :: back) :
    group.toList = front ∧ stem.toList = back := by
  rw [toList_inGroup, List.append_cons_inj_of_notMem (slash_not_mem_of_isSegment groupSegment)
    (slash_not_mem_of_isSegment stemSegment)] at split
  exact ⟨split.1, split.2.2⟩

theorem inGroup_inj
    {group group' stem stem' : String}
    (groupSegment : isSegment group = true)
    (stemSegment : isSegment stem = true)
    (same : inGroup group stem = inGroup group' stem') :
    group = group' ∧ stem = stem' := by
  rw [← String.toList_inj, toList_inGroup group' stem'] at same
  obtain ⟨groups, stems⟩ := inGroup_split groupSegment stemSegment same
  exact ⟨String.toList_inj.mp groups, String.toList_inj.mp stems⟩

/-- The name stands for a module in the group. -/
def isIn (group name : String) : Bool :=
  (group ++ "/").toList.isPrefixOf name.toList

theorem isIn_iff (group name : String) :
    isIn group name = true ↔ ∃ back, name.toList = group.toList ++ '/' :: back := by
  unfold isIn
  rw [List.isPrefixOf_iff_prefix, String.toList_append]
  constructor
  · intro ⟨back, whole⟩
    exact ⟨back, by simpa using whole.symm⟩
  · intro ⟨back, whole⟩
    exact ⟨back, by simpa using whole.symm⟩

theorem not_isIn_of_isSegment
    {name : String}
    (segment : isSegment name = true)
    (group : String) :
    isIn group name = false := by
  rw [Bool.eq_false_iff, ne_eq, isIn_iff]
  intro ⟨back, whole⟩
  apply slash_not_mem_of_isSegment segment
  simp [whole]

theorem isIn_inGroup
    {group' stem : String}
    (groupSegment : isSegment group' = true)
    (stemSegment : isSegment stem = true)
    (group : String) :
    isIn group (inGroup group' stem) = decide (group' = group) := by
  rw [Bool.eq_iff_iff, isIn_iff, decide_eq_true_eq]
  constructor
  · intro ⟨back, whole⟩
    exact String.toList_inj.mp (inGroup_split groupSegment stemSegment whole).1
  · intro same
    rw [← same]
    exact ⟨stem.toList, toList_inGroup group' stem⟩

end ModuleName

/-! ## Paths -/

/-- The names of entries are told apart by their paths. -/
theorem joinPath_inj (path : String) {name name' : String} :
    joinPath path name = joinPath path name' ↔ name = name' := by
  unfold joinPath
  split <;> exact String.append_right_inj _

/-- The path of an entry is not the path of its directory. -/
theorem joinPath_ne (path : String) {name : String} (filled : name ≠ "") :
    joinPath path name ≠ path := by
  unfold joinPath
  split
  · rw [ne_eq, String.append_eq_left_iff]
    exact filled
  · rw [ne_eq, String.append_assoc, String.append_eq_left_iff, String.append_eq_empty_iff]
    exact fun empty => filled empty.2

namespace FileSystem

/-- A file of the given name is in the directory at a path: an entry that is no directory. -/
def HoldsFile (files : FileSystem) (path name : String) : Prop :=
  files.Lists path ⟨.ofText name, false⟩

def HoldsDirectory (files : FileSystem) (path name : String) : Prop :=
  files.Lists path ⟨.ofText name, true⟩

/-- The file system without the right to list the directory at a path. -/
def withoutListing (files : FileSystem) (path : String) : FileSystem :=
  { files with list? := fun other => if other = path then none else files.list? other }

theorem mem_entries_iff (files : FileSystem) (path : String) (entry : DirectoryEntry) :
    entry ∈ Discovery.entriesOf files path ↔ files.Lists path entry := by
  unfold Discovery.entriesOf Lists
  cases files.list? path <;> simp

theorem ListsOnce.nodup_entries
    {files : FileSystem}
    (once : files.ListsOnce)
    (path : String) :
    ((Discovery.entriesOf files path).map DirectoryEntry.name).Nodup := by
  unfold Discovery.entriesOf
  cases listed : files.list? path with
  | none => exact List.nodup_nil
  | some entries => exact once path entries listed

end FileSystem

namespace Discovery

open ModuleName

variable {files : FileSystem} {location : LibraryLocation}

/-! ## Every module once -/

theorem isSegment_of_mem_stemsIn
    {extension path stem : String}
    (found : stem ∈ stemsIn files extension path) :
    isSegment stem = true := by
  obtain ⟨entry, -, isFile⟩ := (mem_stemsIn_iff files extension path stem).mp found
  exact isFile.segment

theorem nodup_stemsIn (once : files.ListsOnce) (extension path : String) :
    (stemsIn files extension path).Nodup := by
  refine List.Nodup.filterMap ?_ (once.nodup_entries path).of_map
  intro entry entry' stem found found'
  have isFile := (moduleStem?_eq_some_iff extension entry stem).mp found
  have isFile' := (moduleStem?_eq_some_iff extension entry' stem).mp found'
  rcases entry with ⟨name, isDirectory⟩
  rcases entry' with ⟨name', isDirectory'⟩
  rw [DirectoryEntry.mk.injEq]
  exact ⟨isFile.named.trans isFile'.named.symm, isFile.file.trans isFile'.file.symm⟩

theorem nodup_modulesAt
    (once : files.ListsOnce)
    (location : LibraryLocation)
    (entry : DirectoryEntry) :
    (modulesAt files location entry).Nodup := by
  unfold modulesAt
  cases grouped : group? entry with
  | none => cases moduleStem? location.extension entry <;> simp
  | some group =>
      have isGroup := (group?_eq_some_iff entry group).mp grouped
      refine List.Nodup.map_on ?_ (nodup_stemsIn once _ _)
      intro stem found stem' _ same
      exact (inGroup_inj isGroup.segment (isSegment_of_mem_stemsIn found) same).2

/-- A module comes from entries of one name only. -/
theorem name_eq_of_mem_modulesAt
    {entry entry' : DirectoryEntry}
    {name : String}
    (found : name ∈ modulesAt files location entry)
    (found' : name ∈ modulesAt files location entry') :
    entry.name = entry'.name := by
  rw [mem_modulesAt_iff] at found found'
  rcases found with isFile | ⟨group, stem, isGroup, listed, named⟩
  · rcases found' with isFile' | ⟨group', stem', -, -, named'⟩
    · exact isFile.named.trans isFile'.named.symm
    · exact absurd (named' ▸ isFile.segment) (not_isSegment_inGroup group' stem')
  · rcases found' with isFile' | ⟨group', stem', isGroup', -, named'⟩
    · exact absurd (named ▸ isFile'.segment) (not_isSegment_inGroup group stem)
    · obtain ⟨rfl, -⟩ :=
        inGroup_inj isGroup.segment (isSegment_of_mem_stemsIn listed) (named.symm.trans named')
      exact isGroup.named.trans isGroup'.named.symm

theorem nodup_discover (once : files.ListsOnce) (location : LibraryLocation) :
    (discover files location).Nodup := by
  unfold discover
  rw [List.nodup_flatMap]
  refine ⟨fun entry _ => nodup_modulesAt once location entry, ?_⟩
  have apart := List.pairwise_map.mp (once.nodup_entries location.root)
  refine apart.imp ?_
  intro entry entry' different name found found'
  exact different (name_eq_of_mem_modulesAt found found')

/-! ## The modules of a library -/

theorem exists_isModuleFile_iff (files : FileSystem) (extension path stem : String) :
    (∃ entry ∈ entriesOf files path, IsModuleFile extension entry stem) ↔
      IsSegmentText stem ∧ files.HoldsFile path (stem ++ "." ++ extension) := by
  rw [← isSegment_iff_isSegmentText, FileSystem.HoldsFile, ← FileSystem.mem_entries_iff,
    String.append_assoc]
  constructor
  · intro ⟨⟨name, isDirectory⟩, member, isFile⟩
    refine ⟨isFile.segment, ?_⟩
    rw [← isFile.named, ← isFile.file]
    exact member
  · intro ⟨segment, member⟩
    exact ⟨_, member, rfl, segment, rfl⟩

theorem exists_isGroup_iff (files : FileSystem) (path group : String) :
    (∃ entry ∈ entriesOf files path, IsGroup entry group) ↔
      IsSegmentText group ∧ files.HoldsDirectory path group := by
  rw [← isSegment_iff_isSegmentText, FileSystem.HoldsDirectory, ← FileSystem.mem_entries_iff]
  constructor
  · intro ⟨⟨name, isDirectory⟩, member, isGroup⟩
    refine ⟨isGroup.segment, ?_⟩
    rw [← isGroup.named, ← isGroup.directory]
    exact member
  · intro ⟨segment, member⟩
    exact ⟨_, member, rfl, segment, rfl⟩

/-- A module of a library, by its name: a file in the root, or one in a group. -/
def IsModule (files : FileSystem) (location : LibraryLocation) (name : String) : Prop :=
  (IsSegmentText name ∧ files.HoldsFile location.root (name ++ "." ++ location.extension)) ∨
    ∃ group stem, name = group ++ "/" ++ stem ∧
      (IsSegmentText group ∧ files.HoldsDirectory location.root group) ∧
      (IsSegmentText stem ∧
        files.HoldsFile (joinPath location.root group) (stem ++ "." ++ location.extension))

theorem mem_discover_iff_isModule
    (files : FileSystem)
    (location : LibraryLocation)
    (name : String) :
    name ∈ discover files location ↔ IsModule files location name := by
  rw [mem_discover_iff, IsModule, exists_isModuleFile_iff]
  simp only [mem_stemsIn_iff, exists_isModuleFile_iff, ← exists_isGroup_iff]
  apply or_congr Iff.rfl
  constructor
  · intro ⟨entry, member, group, stem, isGroup, stemmed, named⟩
    exact ⟨group, stem, named, ⟨entry, member, isGroup⟩, stemmed⟩
  · intro ⟨group, stem, named, ⟨entry, member, isGroup⟩, stemmed⟩
    exact ⟨entry, member, group, stem, isGroup, stemmed, named⟩

/-! ## What the search does not depend on -/

theorem modulesAt_congr
    {files' : FileSystem}
    {entry : DirectoryEntry}
    (same : ∀ group, IsGroup entry group →
      files'.list? (joinPath location.root group) = files.list? (joinPath location.root group)) :
    modulesAt files' location entry = modulesAt files location entry := by
  unfold modulesAt
  cases grouped : group? entry with
  | none => rfl
  | some group =>
      simp only
      unfold stemsIn
      rw [same group ((group?_eq_some_iff entry group).mp grouped)]

/-- The search looks at the root and at its groups, and nowhere else. -/
theorem discover_congr
    {files' : FileSystem}
    (sameRoot : files'.list? location.root = files.list? location.root)
    (sameGroups : ∀ group, IsSegmentText group → files.HoldsDirectory location.root group →
      files'.list? (joinPath location.root group) = files.list? (joinPath location.root group)) :
    discover files' location = discover files location := by
  unfold discover
  rw [sameRoot]
  apply List.flatMap_congr
  intro entry member
  apply modulesAt_congr
  intro group isGroup
  obtain ⟨segment, holds⟩ :=
    (exists_isGroup_iff files location.root group).mp ⟨entry, member, isGroup⟩
  exact sameGroups group segment holds

/-- One entry, when a group cannot be listed: the names in the group are gone, and all
others stay. -/
theorem modulesAt_withoutListing (group : String) (entry : DirectoryEntry) :
    modulesAt (files.withoutListing (joinPath location.root group)) location entry =
      (modulesAt files location entry).filter fun name => !isIn group name := by
  by_cases isGroup : IsGroup entry group
  · have grouped := (group?_eq_some_iff entry group).mpr isGroup
    unfold modulesAt
    rw [grouped]
    simp only
    rw [List.filter_eq_nil_iff.mpr]
    · unfold stemsIn FileSystem.withoutListing
      simp
    · intro name member
      obtain ⟨stem, found, rfl⟩ := List.mem_map.mp member
      simp [isIn_inGroup isGroup.segment (isSegment_of_mem_stemsIn found)]
  · rw [List.filter_eq_self.mpr]
    · apply modulesAt_congr
      intro other isOther
      refine if_neg ?_
      rw [joinPath_inj]
      intro same
      exact isGroup (same ▸ isOther)
    · intro name member
      rw [mem_modulesAt_iff] at member
      rcases member with isFile | ⟨other, stem, isOther, listed, rfl⟩
      · rw [not_isIn_of_isSegment isFile.segment group, Bool.not_false]
      · have different : other ≠ group := fun same => isGroup (same ▸ isOther)
        simp [isIn_inGroup isOther.segment (isSegment_of_mem_stemsIn listed), different]

theorem discover_withoutListing {group : String} (filled : group ≠ "") :
    discover (files.withoutListing (joinPath location.root group)) location =
      (discover files location).filter fun name => !isIn group name := by
  have sameRoot :
      (files.withoutListing (joinPath location.root group)).list? location.root =
        files.list? location.root :=
    if_neg (joinPath_ne location.root filled).symm
  unfold discover
  rw [sameRoot, List.filter_flatMap]
  exact List.flatMap_congr fun entry _ => modulesAt_withoutListing group entry

theorem discover_of_root_unlisted (unlisted : files.list? location.root = none) :
    discover files location = [] := by
  unfold discover
  rw [unlisted]
  rfl

/-- **The search finds the modules of a library, each of them once.**  A root that cannot be
listed has none.  Without the right to list a group, its modules are missing and all others
stay as they are, in their order.  Nothing but the listings of the root and of its groups
counts.  In a tree, links are followed to tell directories from files, each to its target as
seen from the top of the tree, and a link that leads nowhere is a file. -/
theorem discover_exact
    (files : FileSystem)
    (once : files.ListsOnce)
    (location : LibraryLocation) :
    (discover files location).Nodup ∧
      (∀ name, name ∈ discover files location ↔ IsModule files location name) ∧
      (files.list? location.root = none → discover files location = []) ∧
      (∀ group, group ≠ "" →
        discover (files.withoutListing (joinPath location.root group)) location =
          (discover files location).filter fun name => !isIn group name) ∧
      (∀ files' : FileSystem, files'.list? location.root = files.list? location.root →
        (∀ group, IsSegmentText group → files.HoldsDirectory location.root group →
          files'.list? (joinPath location.root group) =
            files.list? (joinPath location.root group)) →
        discover files' location = discover files location) ∧
      ∀ tree : FileTree, files = tree.fileSystem → ∀ path name,
        (files.HoldsFile path name ↔
          tree.StandsIn path (.ofText name) ∧
            tree.leadsToDirectory (FileTree.entryPath (Text.utf8 path) (.ofText name)) = false) ∧
        (files.HoldsDirectory path name ↔
          tree.StandsIn path (.ofText name) ∧
            tree.leadsToDirectory (FileTree.entryPath (Text.utf8 path) (.ofText name)) = true) := by
  refine ⟨nodup_discover once location, mem_discover_iff_isModule files location,
    discover_of_root_unlisted, fun group filled => discover_withoutListing filled,
    fun files' sameRoot sameGroups => discover_congr sameRoot sameGroups, ?_⟩
  intro tree inTree path name
  subst inTree
  exact ⟨tree.lists_iff path (.ofText name) false, tree.lists_iff path (.ofText name) true⟩

/-- A library with a link from below its root back to the root, a link that leads nowhere, a
directory with the ending of a module file, and a file too deep to be found.  Both links
name their targets as seen from the top of the tree, not from `lib`. -/
def linkedLibrary : FileTree :=
  .ofList
    [(Text.utf8 "lib/core.in.rb", .file .empty),
      (Text.utf8 "lib/net/http.in.rb", .file .empty),
      (Text.utf8 "lib/net/deep/socket.in.rb", .file .empty),
      (Text.utf8 "lib/loop", .link (Text.utf8 "lib")),
      (Text.utf8 "lib/gone.in.rb", .link (Text.utf8 "nowhere")),
      (Text.utf8 "lib/dir.in.rb", .directory),
      (Text.utf8 "lib/Upper.in.rb", .file .empty)]

/-- Files whose names end in a dotted extension. -/
def linkedLocation : LibraryLocation :=
  ⟨"lib", "in.rb"⟩

theorem discover_exact_linked :
    linkedLibrary.fileSystem.ListsOnce ∧
      (["core", "net/http", "loop/core", "loop/gone", "gone"] : List String).Nodup ∧
      IsModule linkedLibrary.fileSystem linkedLocation "loop/gone" ∧
      ¬ IsModule linkedLibrary.fileSystem linkedLocation "loop/net/http" ∧
      linkedLibrary.fileSystem.HoldsDirectory "lib" "loop" ∧
      linkedLibrary.fileSystem.HoldsFile "lib" "gone.in.rb" ∧
      discover (linkedLibrary.fileSystem.withoutListing "lib/loop") linkedLocation =
        ["core", "net/http", "gone"] := by
  have once : linkedLibrary.fileSystem.ListsOnce := FileTree.listsOnce_ofList _
  have found :
      discover linkedLibrary.fileSystem linkedLocation =
        ["core", "net/http", "loop/core", "loop/gone", "gone"] := by
    decide +kernel
  obtain ⟨nodup, modules, -, withoutGroup, -, inTree⟩ :=
    discover_exact linkedLibrary.fileSystem once linkedLocation
  have remaining := withoutGroup "loop" (by decide)
  have stands {name : FileName} {node : FileNode}
      (child : linkedLibrary.childNode? name (.inside [.ofText "lib"]) = some node) :
      linkedLibrary.StandsIn "lib" name :=
    ⟨.inside [.ofText "lib"], rfl, rfl, node, child⟩
  rw [found] at nodup remaining
  simp only [← modules, found]
  have loops := (inTree linkedLibrary rfl "lib" "loop").2.mpr ⟨stands rfl, by decide +kernel⟩
  have gone := (inTree linkedLibrary rfl "lib" "gone.in.rb").1.mpr ⟨stands rfl, by decide +kernel⟩
  exact ⟨once, nodup, by decide, by decide, loops, gone, remaining⟩

end Discovery

end UnitAssembly
