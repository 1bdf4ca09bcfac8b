import UnitAssembly.Proofs.Command.ExitCodes
import UnitAssembly.Proofs.Command.ModuleListing

/-!
Contract: the arguments of the module listing, for all lists of them.

Owns:
- `IsMalformed` and `Asks`, an argument that is to be a request and is none, and one that
  asks for a module;
- `NamesRoot`, the first argument without a dash in front, or that there is none;
- `run_modules_reads`, what a run with such arguments prints.

Requests and roots are told apart by their first characters, so each kind is read as if the
other were not there.

Does not own: the listing itself.
-/

namespace UnitAssembly.CommandLine

open UnitAssembly.Requirements (IsRequest)

/-! ## Requests -/

/-- The argument begins with the option that requires a module. -/
def isRequestOption (argument : String) : Bool :=
  "--require=".toList.isPrefixOf argument.toList

/-- The argument is to require a module, but does not say which one or where. -/
def IsMalformed (argument : String) : Prop :=
  ∃ text, argument = "--require=" ++ text ∧ ¬ ∃ name path, IsRequest text name path

/-- The argument requires the module of a name at a path. -/
def Asks (argument : String) (request : String × String) : Prop :=
  ∃ text, argument = "--require=" ++ text ∧ IsRequest text request.1 request.2

theorem isRequestOption_iff (argument : String) :
    isRequestOption argument = true ↔ ∃ text, argument = "--require=" ++ text := by
  rw [isRequestOption, ← Text.exists_append_iff_isPrefixOf]

theorem isRequestOption_eq_false_iff (argument : String) :
    isRequestOption argument = false ↔ Text.withoutBeginning? requestOption argument = none := by
  unfold isRequestOption Text.withoutBeginning? requestOption
  cases "--require=".toList.isPrefixOf argument.toList <;> simp

theorem allRequests_iff (arguments : List String) :
    AllRequests arguments ↔ ∀ argument ∈ arguments, ¬ IsMalformed argument := by
  constructor
  · rintro all argument member ⟨text, rfl, malformed⟩
    exact malformed (all text member)
  · intro wellFormed text member
    by_contra malformed
    exact wellFormed _ member ⟨text, rfl, malformed⟩

theorem asks_iff_parseRequest?
    {argument text : String}
    (whole : argument = requestOption ++ text)
    (request : String × String) :
    Asks argument request ↔ Requirements.parseRequest? text = some request := by
  rw [Requirements.parseRequest?_eq_some_iff text request.1 request.2]
  constructor
  · rintro ⟨same, whole', isRequest⟩
    obtain rfl := (String.append_right_inj requestOption).mp (whole.symm.trans whole')
    exact isRequest
  · intro isRequest
    exact ⟨text, whole, isRequest⟩

theorem isMalformed_iff_parseRequest? (argument : String) :
    IsMalformed argument ↔
      ∃ text ∈ Text.withoutBeginning? requestOption argument,
        Requirements.parseRequest? text = none := by
  have unread (text : String) :
      (¬ ∃ name path, IsRequest text name path) ↔ Requirements.parseRequest? text = none := by
    simp only [← Requirements.parseRequest?_eq_some_iff, Option.eq_none_iff_forall_ne_some,
      Prod.forall, not_exists, ne_eq]
  unfold IsMalformed
  simp only [unread, Option.mem_def, Text.withoutBeginning?_eq_some_iff, requestOption]

instance : DecidablePred IsMalformed := fun argument =>
  decidable_of_iff _ (isMalformed_iff_parseRequest? argument).symm

/-- The requests that are read are those of the arguments with the option, in the order of
these arguments. -/
theorem readRequests_eq_ok_iff (arguments : List String) (required : List (String × String)) :
    readRequests arguments = .ok required ↔
      List.Forall₂ Asks (arguments.filter isRequestOption) required := by
  induction arguments generalizing required with
  | nil =>
      rw [List.filter_nil, List.forall₂_nil_left_iff]
      constructor
      · intro read
        cases read
        rfl
      · intro nothing
        rw [nothing]
        rfl
  | cons argument arguments inductionHypothesis =>
      cases begins : Text.withoutBeginning? requestOption argument with
      | none =>
          have other := (isRequestOption_eq_false_iff argument).mpr begins
          rw [readRequests_cons_of_other begins, List.filter_cons_of_neg (by simp [other])]
          exact inductionHypothesis required
      | some text =>
          have whole := (Text.withoutBeginning?_eq_some_iff _ _ text).mp begins
          have option : isRequestOption argument = true :=
            (isRequestOption_iff argument).mpr ⟨text, whole⟩
          rw [readRequests_cons_of_begins begins, List.filter_cons_of_pos option,
            List.forall₂_cons_left_iff]
          simp only [asks_iff_parseRequest? whole, ← inductionHypothesis]
          cases Requirements.parseRequest? text with
          | none => simp
          | some request =>
              cases readRequests arguments with
              | error fault => simp
              | ok rest => simp [eq_comm]

theorem readRequests_filter (arguments : List String) :
    readRequests (arguments.filter isRequestOption) = readRequests arguments := by
  have sameTexts :
      (arguments.filter isRequestOption).filterMap (Text.withoutBeginning? requestOption) =
        arguments.filterMap (Text.withoutBeginning? requestOption) := by
    rw [List.filterMap_filter]
    apply List.filterMap_congr
    intro argument _
    cases option : isRequestOption argument with
    | true => rfl
    | false =>
        rw [(isRequestOption_eq_false_iff argument).mp option]
        rfl
  unfold readRequests
  rw [sameTexts]

/-! ## Roots -/

/-- The argument begins with a dash. -/
def IsDashed (argument : String) : Prop :=
  ∃ rest, argument = "-" ++ rest

/-- The root that the arguments name, if they name one: the first of them without a dash in
front, the empty one included. -/
inductive NamesRoot (arguments : List String) : Option String → Prop
  | named {front back : List String} {root : String}
      (split : arguments = front ++ root :: back)
      (options : ∀ argument ∈ front, IsDashed argument)
      (plain : ¬ IsDashed root) :
      NamesRoot arguments (some root)
  | unnamed (options : ∀ argument ∈ arguments, IsDashed argument) :
      NamesRoot arguments none

theorem isDashed_iff (argument : String) :
    IsDashed argument ↔ (argument.toList.head? != some '-') = false := by
  have dash : "-".toList = ['-'] := rfl
  unfold IsDashed
  rw [Text.exists_append_iff_isPrefixOf, dash]
  cases argument.toList with
  | nil => simp
  | cons first rest =>
      rw [List.isPrefixOf_cons_cons, List.head?_cons]
      simp [eq_comm (a := first)]

instance : DecidablePred IsDashed := fun argument =>
  decidable_of_iff _ (isDashed_iff argument).symm

theorem namesRoot_readRoot (arguments : List String) :
    NamesRoot arguments (readRoot arguments) := by
  cases read : readRoot arguments with
  | none =>
      refine .unnamed fun argument member => ?_
      rw [isDashed_iff, ← Bool.not_eq_true]
      exact List.find?_eq_none.mp read argument member
  | some root =>
      obtain ⟨plain, front, back, split, options⟩ := List.find?_eq_some_iff_append.mp read
      refine .named split ?_ ?_
      · intro argument member
        rw [isDashed_iff, ← Bool.not_eq_true']
        exact options argument member
      · rw [isDashed_iff, plain]
        simp

theorem NamesRoot.readRoot_eq
    {arguments : List String}
    {root : Option String}
    (names : NamesRoot arguments root) :
    readRoot arguments = root := by
  cases names with
  | named split options plain =>
      rw [isDashed_iff, Bool.not_eq_false] at plain
      refine List.find?_eq_some_iff_append.mpr ⟨plain, _, _, split, ?_⟩
      intro argument member
      rw [Bool.not_eq_true']
      exact (isDashed_iff argument).mp (options argument member)
  | unnamed options =>
      refine List.find?_eq_none.mpr fun argument member => ?_
      rw [Bool.not_eq_true]
      exact (isDashed_iff argument).mp (options argument member)

/-! ## Runs -/

/-- The library that is listed is the one at the root that is named, or else at the one of
the environment, or else at the one that is searched by default. -/
theorem listModules_root
    (files : FileSystem)
    (environmentRoot root : Option String)
    (required : List (String × String)) :
    Command.listModules files environmentRoot root required =
      Command.listModules files none
        (some ((root <|> environmentRoot.filter (· != "")).getD "src")) required := by
  unfold Command.listModules
  simp only [Command.locate_eq environmentRoot root]
  rfl

section Runs

variable (files : FileSystem) (environmentRoot : Option String)

theorem run_modules (operands : List String) :
    run files environmentRoot ("modules" :: operands) =
      match readRequests operands with
      | .error fault => refuse fault
      | .ok required =>
          succeed
            (Command.listModules files environmentRoot (readRoot operands) required).value := by
  unfold run
  rw [perform_modules]
  cases readRequests operands with
  | error fault => rfl
  | ok required => rfl

theorem run_modules_of_malformed
    {operands : List String}
    {text : String}
    (refused : readRequests operands = .error (.malformedRequest text)) :
    run files environmentRoot ("modules" :: operands) =
      ⟨1, "", "error: expected --require=<name>=<path>, got `" ++ ("--require=" ++ text) ++
        "`\n"⟩ := by
  have message :
      "error: expected --require=<name>=<path>, got `" ++ requestOption ++ text ++ "`" ++ "\n" =
        "error: expected --require=<name>=<path>, got `" ++ ("--require=" ++ text) ++ "`\n" := by
    simp only [requestOption, String.append_assoc]
    rfl
  rw [run_modules, refused, ← message]
  rfl

theorem run_modules_of_requests
    {operands : List String}
    {required : List (String × String)}
    {root : Option String}
    (asks : List.Forall₂ Asks (operands.filter isRequestOption) required)
    (names : NamesRoot operands root) :
    run files environmentRoot ("modules" :: operands) =
      ⟨0, (Command.listModules files none
        (some ((root <|> environmentRoot.filter (· != "")).getD "src")) required).value, ""⟩ := by
  rw [run_modules, (readRequests_eq_ok_iff operands required).mpr asks, names.readRoot_eq]
  simp only [listModules_root files environmentRoot root]
  rfl

end Runs

/-- **The arguments of the module listing.**  If an argument is a malformed request, wherever
it stands, the first such argument is reported as it was given, and nothing is listed.  If
none is, the requests are those that the other arguments with the option make, in their
order; and the listing is that of the library at the root, which is the first argument
without a dash in front, or else the one of the environment, or else `src`.  All other
arguments are ignored: two lists with the same arguments with the option, in the same order,
and the same first argument without a dash give the same result. -/
theorem run_modules_reads
    (files : FileSystem)
    (environmentRoot : Option String)
    (operands : List String) :
    ((∃ argument ∈ operands, IsMalformed argument) →
      ∃ front argument back,
        operands = front ++ argument :: back ∧
          IsMalformed argument ∧
          (∀ earlier ∈ front, ¬ IsMalformed earlier) ∧
          run files environmentRoot ("modules" :: operands) =
            ⟨1, "", "error: expected --require=<name>=<path>, got `" ++ argument ++ "`\n"⟩) ∧
    ((∀ argument ∈ operands, ¬ IsMalformed argument) →
      (∃ required, List.Forall₂ Asks (operands.filter isRequestOption) required) ∧
        (∃ root, NamesRoot operands root) ∧
        ∀ required root,
          List.Forall₂ Asks (operands.filter isRequestOption) required →
          NamesRoot operands root →
          run files environmentRoot ("modules" :: operands) =
            ⟨0, (Command.listModules files none
              (some ((root <|> environmentRoot.filter (· != "")).getD "src")) required).value,
              ""⟩) ∧
    ∀ (operands' : List String) (root : Option String),
      operands'.filter isRequestOption = operands.filter isRequestOption →
      NamesRoot operands root →
      NamesRoot operands' root →
      run files environmentRoot ("modules" :: operands') =
        run files environmentRoot ("modules" :: operands) := by
  refine ⟨?_, ?_, ?_⟩
  · rintro ⟨argument, member, malformed⟩
    rcases readRequests_cases operands with ⟨all, -⟩ | ⟨text, first, refused⟩
    · exact absurd malformed ((allRequests_iff operands).mp all argument member)
    · obtain ⟨front, back, split, all⟩ := first.first
      exact ⟨front, "--require=" ++ text, back, split, ⟨text, rfl, first.malformed⟩,
        (allRequests_iff front).mp all, run_modules_of_malformed files environmentRoot refused⟩
  · intro wellFormed
    rcases readRequests_cases operands with ⟨-, required, read⟩ | ⟨text, first, -⟩
    · refine ⟨⟨required, (readRequests_eq_ok_iff operands required).mp read⟩,
        ⟨_, namesRoot_readRoot operands⟩, ?_⟩
      intro required root asks names
      exact run_modules_of_requests files environmentRoot asks names
    · exact absurd ((allRequests_iff operands).mpr wellFormed) first.not_allRequests
  · intro operands' root sameOptions names names'
    rw [run_modules, run_modules, ← readRequests_filter operands', sameOptions,
      readRequests_filter, names'.readRoot_eq, names.readRoot_eq]

theorem run_modules_reads_interleaved :
    run oneTemplate none ["modules", "lib", "--require=a=b", "--require=c", "--require="] =
        ⟨1, "", "error: expected --require=<name>=<path>, got `--require=c`\n"⟩ ∧
      run oneTemplate none ["modules", "-v", "--require=a=b=c", "", "lib", "--require=d=e"] =
        ⟨0, (Command.listModules oneTemplate none (some "") [("a", "b=c"), ("d", "e")]).value,
          ""⟩ ∧
      run oneTemplate none ["modules", "--require=a=b=c", "--require=d=e", "", "-v"] =
        run oneTemplate none ["modules", "-v", "--require=a=b=c", "", "lib", "--require=d=e"] := by
  obtain ⟨reports, -, -⟩ :=
    run_modules_reads oneTemplate none ["lib", "--require=a=b", "--require=c", "--require="]
  obtain ⟨-, lists, ignores⟩ :=
    run_modules_reads oneTemplate none ["-v", "--require=a=b=c", "", "lib", "--require=d=e"]
  have options :
      ["-v", "--require=a=b=c", "", "lib", "--require=d=e"].filter isRequestOption =
        ["--require=a=b=c", "--require=d=e"] := by
    decide
  have asks :
      List.Forall₂ Asks ["--require=a=b=c", "--require=d=e"] [("a", "b=c"), ("d", "e")] :=
    .cons ⟨"a=b=c", rfl, rfl, by decide, by decide, by decide⟩
      (.cons ⟨"d=e", rfl, rfl, by decide, by decide, by decide⟩ .nil)
  have names : NamesRoot ["-v", "--require=a=b=c", "", "lib", "--require=d=e"] (some "") :=
    namesRoot_readRoot ["-v", "--require=a=b=c", "", "lib", "--require=d=e"]
  refine ⟨?_, ?_, ?_⟩
  · obtain ⟨front, argument, back, split, malformed, earlier, reported⟩ := reports (by decide)
    have found :
        ["lib", "--require=a=b", "--require=c", "--require="].find? (IsMalformed ·) =
          some argument :=
      List.find?_eq_some_iff_append.mpr
        ⟨decide_eq_true malformed, front, back, split, by simpa using earlier⟩
    have first :
        ["lib", "--require=a=b", "--require=c", "--require="].find? (IsMalformed ·) =
          some "--require=c" := by
      decide
    rw [first] at found
    rw [reported, ← Option.some.inj found]
    rfl
  · rw [options] at lists
    exact (lists (by decide)).2.2 _ _ asks names
  · rw [options] at ignores
    apply ignores _ (some "") (by decide) names
    exact namesRoot_readRoot ["--require=a=b=c", "--require=d=e", "", "-v"]

end UnitAssembly.CommandLine
