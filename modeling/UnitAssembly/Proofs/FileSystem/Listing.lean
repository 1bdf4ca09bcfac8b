import Mathlib.Data.List.Induction
import Mathlib.Data.List.Nodup
import UnitAssembly.FileSystem.Tree

/-!
Contract: what a directory of a file tree lists.

Owns:
- `FileSystem.ListsOnce`, file systems whose directories list every name once;
- `FileTree.Distinct`, trees with one node at a place, which placing nodes keeps;
- `FileTree.listsOnce_ofList`, every tree that is built by placing nodes lists every name
  once, whatever is placed and wherever links lead;
- `FileTree.lists_iff`, the entries that are listed, by what stands in the directory and by
  where the paths of the entries lead.

Does not own: what the entries are for.
-/

namespace UnitAssembly

namespace FileSystem

/-- The directory at a path can be listed, and the entry is in it. -/
def Lists (files : FileSystem) (path : String) (entry : DirectoryEntry) : Prop :=
  ∃ entries, files.list? path = some entries ∧ entry ∈ entries

/-- No directory lists a name twice. -/
def ListsOnce (files : FileSystem) : Prop :=
  ∀ path entries, files.list? path = some entries → (entries.map DirectoryEntry.name).Nodup

end FileSystem

namespace FileTree

/-- No two nodes stand at the same place. -/
def Distinct (tree : FileTree) : Prop :=
  (tree.nodes.map Prod.fst).Nodup

theorem distinct_empty : empty.Distinct :=
  List.nodup_nil

/-! ## Placing nodes -/

private theorem exists_of_bind_eq_ok
    {α β : Type}
    {first : Except ReadFault α}
    {next : α → Except ReadFault β}
    {result : β}
    (ran : first >>= next = .ok result) :
    ∃ value, first = .ok value ∧ next value = .ok result := by
  cases first with
  | error fault => cases ran
  | ok value => exact ⟨value, rfl, ran⟩

private theorem exists_of_map_eq_ok
    {α β : Type}
    {first : Except ReadFault α}
    {change : α → β}
    {result : β}
    (ran : change <$> first = .ok result) :
    ∃ value, first = .ok value ∧ change value = result := by
  cases first with
  | error fault => cases ran
  | ok value => exact ⟨value, rfl, Except.ok.inj ran⟩

namespace Distinct

variable {tree : FileTree}

/-- What stood at a place makes room for a new node. -/
theorem set (distinct : tree.Distinct) (node : FileNode) (place : Place) :
    (tree.set node place).Distinct := by
  cases place with
  | outside => exact distinct
  | inside names =>
      unfold FileTree.set Distinct
      rw [List.map_append, List.map_singleton, ← List.concat_eq_append]
      apply List.Nodup.concat
      · intro still
        obtain ⟨entry, kept, here⟩ := List.mem_map.mp still
        have elsewhere := (List.mem_filter.mp kept).2
        rw [here] at elsewhere
        simp at elsewhere
      · exact distinct.sublist (List.filter_sublist.map Prod.fst)

theorem descend
    {state state' : FileTree × Place}
    {name : FileName}
    (distinct : state.1.Distinct)
    (descended : FileTree.descend state name = .ok state') :
    state'.1.Distinct := by
  unfold FileTree.descend at descended
  simp only at descended
  split at descended
  · cases descended
    exact distinct
  · cases descended
    exact distinct.set _ _
  · cases descended

/-- All directories on a way, one after the other. -/
theorem foldlM_descend
    {names : List FileName}
    {state state' : FileTree × Place}
    (distinct : state.1.Distinct)
    (descended : names.foldlM FileTree.descend state = .ok state') :
    state'.1.Distinct := by
  induction names generalizing state with
  | nil =>
      cases descended
      exact distinct
  | cons name rest inductionHypothesis =>
      rw [List.foldlM_cons] at descended
      obtain ⟨next, first, further⟩ := exists_of_bind_eq_ok descended
      exact inductionHypothesis (distinct.descend first) further

theorem write
    {content : ByteArray}
    {place : Place}
    {name : FileName}
    {tree' : FileTree}
    (distinct : tree.Distinct)
    (written : tree.write content place name = .ok tree') :
    tree'.Distinct := by
  unfold FileTree.write at written
  obtain ⟨reached, -, placed⟩ := exists_of_bind_eq_ok written
  split at placed
  · cases placed
  · cases placed
    exact distinct.set _ _

theorem insert
    {path : List UInt8}
    {node : FileNode}
    {tree' : FileTree}
    (distinct : tree.Distinct)
    (inserted : tree.insert path node = .ok tree') :
    tree'.Distinct := by
  unfold FileTree.insert at inserted
  simp only at inserted
  split at inserted
  · cases inserted
    exact distinct
  · next name _ =>
      obtain ⟨⟨grown, place⟩, descended, placed⟩ := exists_of_bind_eq_ok inserted
      have grownDistinct : grown.Distinct := distinct.foldlM_descend descended
      simp only at placed
      split at placed
      · exact grownDistinct.write placed
      · obtain ⟨stepped, further, made⟩ := exists_of_map_eq_ok placed
        rw [← made]
        exact Distinct.descend grownDistinct further
      · cases placed
        exact grownDistinct.set _ _
      · cases placed
        exact grownDistinct

end Distinct

theorem distinct_ofList (entries : List (List UInt8 × FileNode)) : (ofList entries).Distinct := by
  unfold ofList
  induction entries using List.reverseRecOn with
  | nil => exact distinct_empty
  | append_singleton front last inductionHypothesis =>
      rw [List.foldl_append, List.foldl_cons, List.foldl_nil]
      simp only
      split
      · next grown inserted => exact inductionHypothesis.insert inserted
      · exact inductionHypothesis

/-! ## Listings -/

/-- The names in a directory are the last parts of places that have the rest in common. -/
theorem Distinct.nodup_namesIn {tree : FileTree} (distinct : tree.Distinct) (place : Place) :
    (tree.namesIn place).Nodup := by
  cases place with
  | outside => exact List.nodup_nil
  | inside directory =>
      have lastParts :
          tree.namesIn (.inside directory) =
            (tree.nodes.map Prod.fst).filterMap fun names =>
              if names.dropLast = directory then names.getLast? else none := by
        rw [List.filterMap_map]
        rfl
      rw [lastParts]
      refine List.Nodup.filterMap ?_ distinct
      intro names names' name last last'
      simp only [Option.mem_def, Option.ite_none_right_eq_some] at last last'
      rw [← List.dropLast_append_getLast? name last.2, ← List.dropLast_append_getLast? name last'.2,
        last.1, last'.1]

theorem mem_namesIn_iff (tree : FileTree) (place : Place) (name : FileName) :
    name ∈ tree.namesIn place ↔ ∃ node, tree.childNode? name place = some node := by
  cases place with
  | outside => simp [namesIn, childNode?]
  | inside directory =>
      unfold namesIn childNode?
      rw [List.mem_filterMap, ← Option.isSome_iff_exists, List.lookup_isSome_iff]
      constructor
      · rintro ⟨entry, stands, last⟩
        simp only [Option.ite_none_right_eq_some] at last
        refine ⟨entry, stands, ?_⟩
        rw [← last.1, List.dropLast_append_getLast? name last.2, beq_self_eq_true]
      · rintro ⟨entry, stands, same⟩
        refine ⟨entry, stands, ?_⟩
        rw [beq_iff_eq] at same
        simp [← same]

theorem list?_eq_some_iff (tree : FileTree) (path : String) (entries : List DirectoryEntry) :
    tree.list? path = some entries ↔
      ∃ place, tree.resolve (Text.utf8 path) = .ok place ∧ tree.isDirectory place = true ∧
        entries = (tree.namesIn place).map fun name =>
          ⟨name, tree.leadsToDirectory (entryPath (Text.utf8 path) name)⟩ := by
  unfold list?
  simp only
  cases tree.resolve (Text.utf8 path) with
  | error fault => simp
  | ok place =>
      simp only [Option.ite_none_right_eq_some, Option.some.injEq, Except.ok.injEq]
      constructor
      · rintro ⟨directory, listed⟩
        exact ⟨place, rfl, directory, listed.symm⟩
      · rintro ⟨_, rfl, directory, listed⟩
        exact ⟨directory, listed.symm⟩

theorem Distinct.listsOnce {tree : FileTree} (distinct : tree.Distinct) :
    tree.fileSystem.ListsOnce := by
  intro path entries listed
  obtain ⟨place, -, -, rfl⟩ := (tree.list?_eq_some_iff path entries).mp listed
  rw [List.map_map]
  change ((tree.namesIn place).map id).Nodup
  rw [List.map_id]
  exact distinct.nodup_namesIn place

theorem listsOnce_ofList (entries : List (List UInt8 × FileNode)) :
    (ofList entries).fileSystem.ListsOnce :=
  (distinct_ofList entries).listsOnce

/-- A name is in the directory at a path, whatever it stands for. -/
def StandsIn (tree : FileTree) (path : String) (name : FileName) : Prop :=
  ∃ place, tree.resolve (Text.utf8 path) = .ok place ∧ tree.isDirectory place = true ∧
    ∃ node, tree.childNode? name place = some node

/-- All names in a directory are listed, and as a directory those whose paths lead to one.
Links are followed for that, and a link that leads nowhere leads to no directory. -/
theorem lists_iff (tree : FileTree) (path : String) (name : FileName) (isDirectory : Bool) :
    tree.fileSystem.Lists path ⟨name, isDirectory⟩ ↔
      tree.StandsIn path name ∧
        tree.leadsToDirectory (entryPath (Text.utf8 path) name) = isDirectory := by
  unfold FileSystem.Lists StandsIn
  change (∃ entries, tree.list? path = some entries ∧ _) ↔ _
  simp only [list?_eq_some_iff, ← mem_namesIn_iff]
  constructor
  · rintro ⟨_, ⟨place, reached, directory, rfl⟩, listed⟩
    obtain ⟨name', named, same⟩ := List.mem_map.mp listed
    obtain ⟨rfl, leads⟩ := DirectoryEntry.mk.inj same
    exact ⟨⟨place, reached, directory, named⟩, leads⟩
  · rintro ⟨⟨place, reached, directory, named⟩, leads⟩
    refine ⟨_, ⟨place, reached, directory, rfl⟩, List.mem_map.mpr ⟨name, named, ?_⟩⟩
    rw [leads]

end FileTree

end UnitAssembly
