import Mathlib
import UnitAssembly.Command
import UnitAssembly.Proofs.Library.LinkOrder

/-!
Contract: the order in which directories list their entries shows nowhere.

Owns:
- `Discovery.Reordered`, two looks at a library that see the same entries in another
  order;
- the consequence for what is discovered, for the link order, for the generated source
  of every unit and for the printed module list, the trace included.

The search appends what it finds in a group where the group is listed, so its result
depends on both levels of listings.  It is a permutation of any other, and a link order
depends on the set of discovered names only.

Does not own: file systems that change between two looks.
-/

namespace UnitAssembly

namespace Discovery

/-- The two file systems list the same entries in the root of a library and in each of
its groups, in whatever order; what cannot be listed in one cannot in the other. -/
structure Reordered (files files' : FileSystem) (location : LibraryLocation) : Prop where
  root : Option.Rel List.Perm (files.list? location.root) (files'.list? location.root)
  groups :
    ∀ entry ∈ (files.list? location.root).getD [],
      ∀ group, group? entry = some group →
        Option.Rel List.Perm (files.list? (joinPath location.root group))
          (files'.list? (joinPath location.root group))

namespace Reordered

variable {files files' : FileSystem} {location : LibraryLocation}

private theorem perm_getD
    {listing listing' : Option (List DirectoryEntry)}
    (same : Option.Rel List.Perm listing listing') :
    (listing.getD []).Perm (listing'.getD []) := by
  cases same with
  | some permuted => exact permuted
  | none => exact List.Perm.refl []

theorem modulesAt_perm
    (reordered : Reordered files files' location)
    {entry : DirectoryEntry}
    (listed : entry ∈ (files.list? location.root).getD []) :
    (modulesAt files location entry).Perm (modulesAt files' location entry) := by
  unfold modulesAt
  cases grouped : group? entry with
  | none => exact List.Perm.refl _
  | some group =>
      have members := perm_getD (reordered.groups entry listed group grouped)
      exact (members.filterMap (moduleStem? location.extension)).map (ModuleName.inGroup group)

theorem discover_perm (reordered : Reordered files files' location) :
    (discover files location).Perm (discover files' location) :=
  (perm_getD reordered.root).flatMap fun _ listed => reordered.modulesAt_perm listed

theorem enumerate_eq
    (reordered : Reordered files files' location)
    (required : List String) :
    enumerate files location required = enumerate files' location required := by
  have found := reordered.discover_perm
  unfold enumerate
  simp only [found.length_eq, LinkOrder.ofParts_congr (fun _ => found.mem_iff) required]

end Reordered

/-- **The order of listings does not show.**  Two looks at a library that differ only in
the order of the listings give the same link order, the same source or the same fault
for every unit and front end, and the same printed module list, each with the same
trace.  A link order depends on the set of discovered names alone. -/
theorem listing_order_irrelevant
    (files files' : FileSystem)
    (location : LibraryLocation)
    (reordered : Reordered files files' location) :
    (∀ required : List String,
      enumerate files location required = enumerate files' location required) ∧
    (∀ (σ : Type) (unit : CompilationUnit) (frontend : Frontend unit σ) (before : σ),
      Emission.emit files location unit frontend before =
        Emission.emit files' location unit frontend before) ∧
    (∀ (environmentRoot root : Option String) (required : List (String × String)),
      Command.locate environmentRoot root = location →
      Command.listModules files environmentRoot root required =
        Command.listModules files' environmentRoot root required) ∧
    ∀ discovered discovered' required : List String,
      (∀ name, name ∈ discovered ↔ name ∈ discovered') →
      LinkOrder.ofParts discovered required = LinkOrder.ofParts discovered' required := by
  refine ⟨reordered.enumerate_eq, ?_, ?_, ?_⟩
  · intro σ unit frontend before
    have finished (template : Template) (session : Session unit) (body : String) :
        Emission.finish files location template session body =
          Emission.finish files' location template session body := by
      unfold Emission.finish
      rw [reordered.enumerate_eq]
    unfold Emission.emit
    simp only [finished]
  · intro environmentRoot root required located
    unfold Command.listModules
    simp only [located, reordered.enumerate_eq]
  · intro discovered discovered' required same
    exact LinkOrder.ofParts_congr same required

/-- A library with a group, whose directories list their entries as `arrange` says. -/
def arranged (arrange : List DirectoryEntry → List DirectoryEntry) : FileSystem where
  list? path :=
    if path = "src" then
      some (arrange [⟨.ofText "net", true⟩, ⟨.ofText "io.rb", false⟩, ⟨.ofText "net.rb", false⟩])
    else if path = "src/net" then
      some (arrange [⟨.ofText "http.rb", false⟩, ⟨.ofText "ftp.rb", false⟩])
    else
      none
  content _ := .error .notFound

theorem listing_order_irrelevant_reversed :
    Reordered (arranged id) (arranged List.reverse) .default ∧
      discover (arranged id) .default = ["net/http", "net/ftp", "io", "net"] ∧
      discover (arranged List.reverse) .default = ["net", "io", "net/ftp", "net/http"] ∧
      ∀ required,
        enumerate (arranged id) .default required =
          enumerate (arranged List.reverse) .default required := by
  have reordered : Reordered (arranged id) (arranged List.reverse) .default := by
    have everywhere (path : String) :
        Option.Rel List.Perm ((arranged id).list? path) ((arranged List.reverse).list? path) := by
      unfold arranged
      simp only
      split
      · exact .some (List.reverse_perm _).symm
      · split
        · exact .some (List.reverse_perm _).symm
        · exact .none
    exact ⟨everywhere _, fun _ _ _ _ => everywhere _⟩
  refine ⟨reordered, by cbv, by cbv, ?_⟩
  exact (listing_order_irrelevant (arranged id) (arranged List.reverse) .default reordered).1

end Discovery

end UnitAssembly
