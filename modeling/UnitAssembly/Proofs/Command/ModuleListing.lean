import UnitAssembly.Command
import UnitAssembly.Proofs.Emission.Placement
import UnitAssembly.Proofs.Library.Requirements

/-!
Contract: the listing of modules, against the emission of a unit with the same library and
the same requirements.

Owns:
- the lines of the listing, and `readListing`, which divides them at the first empty one;
- that the names are those an emission links, and the calls those it writes, for every
  library and all requests;
- when the listing can be read back: no discovered name is empty or holds a line feed, so
  this rests with the required ones alone.

Does not own: the order in which modules are linked.
-/

namespace UnitAssembly

open UnitAssembly.Layout (lines reindent)

namespace Command

/-! ## Lines that are ended -/

theorem toList_terminated (texts : List String) :
    (terminated texts).toList = texts.flatMap fun text => text.toList ++ ['\n'] := by
  induction texts with
  | nil => rfl
  | cons text rest inductionHypothesis =>
      unfold terminated
      rw [String.toList_append, String.toList_append, inductionHypothesis, List.flatMap_cons]
      rfl

theorem toList_moduleListing (order : LinkOrder) :
    (moduleListing order).toList =
      (order.names ++ "" :: order.initCalls).flatMap fun line => line.toList ++ ['\n'] := by
  unfold moduleListing
  rw [String.toList_append, String.toList_append, toList_terminated, toList_terminated,
    List.flatMap_append, List.flatMap_cons, List.append_assoc]
  rfl

/-- The lines of a text that a line feed ends. -/
def endedLines (text : String) : List String :=
  (lines text).dropLast.map String.ofList

theorem endedLines_eq
    {text : String}
    {texts : List String}
    (written : text.toList = texts.flatMap fun line => line.toList ++ ['\n'])
    (oneLine : ∀ line ∈ texts, '\n' ∉ line.toList) :
    endedLines text = texts := by
  have split : lines text = texts.map String.toList ++ [[]] := by
    unfold lines
    rw [written]
    clear written
    induction texts with
    | nil => rfl
    | cons line rest inductionHypothesis =>
        have further := inductionHypothesis fun line member =>
          oneLine line (List.mem_cons_of_mem _ member)
        rw [List.flatMap_cons, List.append_assoc, List.singleton_append,
          List.splitOn_append_cons_self_of_not_mem (oneLine line List.mem_cons_self), further]
        rfl
  have same : String.ofList ∘ String.toList = id := funext fun _ => String.ofList_toList
  unfold endedLines
  rw [split, List.dropLast_concat, List.map_map, same, List.map_id]

/-- What stands in front of the first empty line of a text, and what stands behind it. -/
def readListing (text : String) : List String × List String :=
  ((endedLines text).takeWhile (· != ""), ((endedLines text).dropWhile (· != "")).tail)

theorem readListing_eq
    {text : String}
    {front back : List String}
    (written : text.toList = (front ++ "" :: back).flatMap fun line => line.toList ++ ['\n'])
    (frontOneLine : ∀ line ∈ front, '\n' ∉ line.toList)
    (backOneLine : ∀ line ∈ back, '\n' ∉ line.toList)
    (filled : ∀ line ∈ front, line ≠ "") :
    readListing text = (front, back) := by
  have oneLine : ∀ line ∈ front ++ "" :: back, '\n' ∉ line.toList := by
    intro line member
    rcases List.mem_append.mp member with inFront | behind
    · exact frontOneLine line inFront
    · rcases List.mem_cons.mp behind with rfl | inBack
      · decide
      · exact backOneLine line inBack
  have nonempty : ∀ line ∈ front, (line != "") = true := by
    intro line member
    exact bne_iff_ne.mpr (filled line member)
  unfold readListing
  rw [endedLines_eq written oneLine, List.takeWhile_append_of_pos nonempty,
    List.dropWhile_append_of_pos nonempty]
  simp

/-! ## The library that is listed -/

theorem locate_eq (environmentRoot root : Option String) :
    locate environmentRoot root =
      { root := (root <|> environmentRoot.filter (· != "")).getD "src" } := by
  cases root with
  | some root => rfl
  | none =>
      cases environmentRoot with
      | none => rfl
      | some root =>
          by_cases empty : root = ""
          · rw [empty]
            rfl
          · simp [locate, LibraryLocation.ofEnvironment, Option.filter, empty]

theorem listModules_value
    (files : FileSystem)
    (environmentRoot root : Option String)
    (required : List (String × String)) :
    (listModules files environmentRoot root required).value =
      moduleListing
        (.ofParts (Discovery.discover files (locate environmentRoot root))
          (required.map Prod.fst).eraseDups) := by
  rw [← Requirements.names_ofList]
  rfl

/-- Every linked name has characters, if every required one has. -/
theorem ne_empty_of_linked
    (files : FileSystem)
    (location : LibraryLocation)
    {required : List String}
    (filled : ∀ name ∈ required, name ≠ "") :
    ∀ name ∈ (LinkOrder.ofParts (Discovery.discover files location) required).names,
      name ≠ "" := by
  intro name linked
  rcases (LinkOrder.mem_names_iff _ _ name).mp linked with rfl | discovered | asked
  · decide
  · exact (Discovery.characters_of_mem_discover discovered).1
  · exact filled name asked

theorem lineFeed_not_mem_initCall {name : String} (oneLine : '\n' ∉ name.toList) :
    '\n' ∉ (ModuleName.initCall name).toList := by
  have inIdentifier := Ingredients.lineFeed_not_mem_identifier oneLine
  show '\n' ∉ ("init_" ++ Ingredients.identifier name ++ "(env, self);").toList
  simp [inIdentifier]

/-- **The listing agrees with the emission.**  For every library, root and list of
requests, the listing is the link order, one name to a line, an empty line, and the call of
each module's initializer, one to a line.  Every emission that succeeds with this library,
for a unit that makes the same requests, links the same modules in the same order, and its
object section is those calls, joined by line feeds.  If no required name is empty or holds
a line feed, the first empty line divides the listing into the names and the calls, and the
lines of that section are the calls. -/
theorem listModules_matches_emission
    (files : FileSystem)
    (environmentRoot root : Option String)
    (required : List (String × String)) :
    let location : LibraryLocation :=
      { root := (root <|> environmentRoot.filter (· != "")).getD "src" }
    let order :=
      LinkOrder.ofParts (Discovery.discover files location) (required.map Prod.fst).eraseDups
    let calls :=
      order.names.map fun name => "init_" ++ Ingredients.identifier name ++ "(env, self);"
    let listing := (listModules files environmentRoot root required).value
    (listing.toList =
      (order.names ++ "" :: calls).flatMap fun line => line.toList ++ ['\n']) ∧
    (∀ base : CompilationUnit, base.required = .empty →
      let unit := base.requiringAll required
      ∀ {σ : Type} (frontend : Frontend unit σ) (before after : σ) (template : Template)
        (session : Session unit) (body : String),
        Template.parse base.template = .ok template →
        (frontend (.start unit) before).value = ((.ok body, session), after) →
        let sections := (Assembly.assemble session order).value.sections body
        (Emission.emit files location unit frontend before).value =
            (.ok (reindent (template.merge sections)).value, after) ∧
          sections.objectInit = "\n".intercalate calls) ∧
    ((∀ request ∈ required, request.1 ≠ "" ∧ '\n' ∉ request.1.toList) →
      readListing listing = (order.names, calls) ∧
        lines ("\n".intercalate calls) = calls.map String.toList) := by
  intro location order calls listing
  have written :
      listing.toList = (order.names ++ "" :: calls).flatMap fun line => line.toList ++ ['\n'] := by
    show (listModules files environmentRoot root required).value.toList = _
    rw [listModules_value, locate_eq, toList_moduleListing]
    rfl
  refine ⟨written, ?_, ?_⟩
  · intro base fresh unit σ frontend before after template session body parsed succeeds sections
    have requiring : unit = { base with required := .ofList required } :=
      CompilationUnit.requiringAll_eq fresh required
    have names : unit.required.names = (required.map Prod.fst).eraseDups := by
      rw [requiring, Requirements.names_ofList]
    have accepted : Template.parse unit.template = .ok template := by
      rw [requiring, parsed]
    refine ⟨?_, rfl⟩
    rw [Emission.emit_of_success files location accepted succeeds, names]
  · intro plain
    have asked : ∀ name ∈ (required.map Prod.fst).eraseDups, name ≠ "" ∧ '\n' ∉ name.toList := by
      intro name member
      rcases List.mem_map.mp (List.mem_eraseDups.mp member) with ⟨request, made, rfl⟩
      exact plain request made
    have filled := ne_empty_of_linked files location fun name member => (asked name member).1
    have oneLine :=
      Discovery.lineFeed_not_mem_linked files location fun name member => (asked name member).2
    have callOneLine : ∀ call ∈ calls, '\n' ∉ call.toList := by
      intro call member
      rcases List.mem_map.mp member with ⟨name, linked, rfl⟩
      exact lineFeed_not_mem_initCall (oneLine name linked)
    refine ⟨readListing_eq written oneLine callOneLine filled, ?_⟩
    unfold lines
    rw [String.toList_intercalate]
    apply List.splitOn_intercalate
    · intro line member
      rcases List.mem_map.mp member with ⟨call, listed, rfl⟩
      exact callOneLine call listed
    · -- The designated module is always linked.
      simp [calls, order, LinkOrder.names_ofParts]

/-- Requests for a module twice and for one that the library has. -/
def repeatedRequests : List (String × String) :=
  [("net/http", "a.rb"), ("io", "b=c.rb"), ("net/http", "d.rb")]

/-- The unit on the shuffled template, before it requires anything. -/
def freshUnit : CompilationUnit :=
  { Emission.shuffledUnit with required := .empty }

/-- A front end that looks at nothing and counts its runs. -/
def fixedFrontend (unit : CompilationUnit) : Frontend unit Nat := fun session runs =>
  pure ((.ok "body", session), runs + 1)

theorem listModules_matches_emission_repeated :
    let unit := freshUnit.requiringAll repeatedRequests
    let listing := (listModules Emission.oneModule (some "") none repeatedRequests).value
    freshUnit.required = .empty ∧
      Template.parse freshUnit.template = .ok Template.shuffled ∧
      (fixedFrontend unit (.start unit) 7).value = ((.ok "body", .start unit), 8) ∧
      (∀ request ∈ repeatedRequests, request.1 ≠ "" ∧ '\n' ∉ request.1.toList) ∧
      readListing listing =
        (["exception", "io", "net/http"],
          ["init_exception(env, self);", "init_io(env, self);", "init_net_http(env, self);"]) ∧
      ∃ sections : Sections,
        (Emission.emit Emission.oneModule .default unit (fixedFrontend unit) 7).value =
            (.ok (reindent (Template.shuffled.merge sections)).value, 8) ∧
          sections.objectInit =
            "init_exception(env, self);\ninit_io(env, self);\ninit_net_http(env, self);" := by
  intro unit listing
  have plain :
      ∀ request ∈ repeatedRequests, request.1 ≠ "" ∧ '\n' ∉ request.1.toList := by
    decide
  have linked :
      (LinkOrder.ofParts (Discovery.discover Emission.oneModule .default)
        (repeatedRequests.map Prod.fst).eraseDups).names = ["exception", "io", "net/http"] := by
    cbv
  have calls :
      (["exception", "io", "net/http"].map fun name =>
          "init_" ++ Ingredients.identifier name ++ "(env, self);") =
        ["init_exception(env, self);", "init_io(env, self);", "init_net_http(env, self);"] := by
    decide
  obtain ⟨-, emits, reads⟩ :=
    listModules_matches_emission Emission.oneModule (some "") none repeatedRequests
  have emitted :=
    emits freshUnit rfl (fixedFrontend unit) 7 8 Template.shuffled (.start unit) "body"
      Template.parse_shuffled rfl
  have located :
      ({ root := (none <|> (some "").filter (· != "")).getD "src" } : LibraryLocation) =
        .default := by
    decide
  rw [located, linked, calls] at reads emitted
  exact ⟨rfl, Template.parse_shuffled, rfl, plain, (reads plain).1, _, emitted⟩

end Command

end UnitAssembly
