import UnitAssembly.Command
import UnitAssembly.Proofs.Emission.Placement
import UnitAssembly.Proofs.Template.Diagnosis
import UnitAssembly.Proofs.Text.Reading

/-!
Contract: how the emission of a unit can end, and what the template check says about it.

Owns:
- `Template.WellFormed`, the texts that are templates, said without the check;
- `Frontend.watched`, a front end with a record of its runs;
- the three outcomes of an emission, each with its exact condition and with the runs of
  the front end that it took;
- the agreement with the template check of a file that holds the same text.

An emission has two points at which it can end early, the check of the template and the
run of the front end.  What follows them takes the text of the template between offsets
that an accepted template has put where characters begin, so it cannot fail.

Does not own: what the source holds.
-/

namespace UnitAssembly

open UnitAssembly.Text

/-! ## Texts that are templates -/

namespace Template

/-- Every marker occurs once, and no two occurrences overlap. -/
def WellFormed (text : String) : Prop :=
  (∀ marker, Marker.count text marker = 1) ∧ MarkersApart text

theorem firstOverlap_eq_none_of_apart
    {text : String}
    {slots : List Slot}
    (survey : Survey text slots)
    (apart : MarkersApart text) :
    Slot.firstOverlap slots = none := by
  match found : Slot.firstOverlap slots with
  | none => rfl
  | some (first, second) =>
      obtain ⟨overlap, different⟩ := overlap_of_firstOverlap survey found
      exact absurd apart (not_markersApart_of_overlap overlap different)

theorem exists_parse_eq_ok {text : String} (wellFormed : WellFormed text) :
    ∃ template, parse text = .ok template := by
  obtain ⟨slots, survey, verdict⟩ := exists_survey wellFormed.1
  rw [firstOverlap_eq_none_of_apart survey wellFormed.2] at verdict
  exact ⟨_, verdict⟩

theorem wellFormed_of_parse_eq_ok
    {text : String}
    {template : Template}
    (parsed : parse text = .ok template) :
    WellFormed text := by
  have once := once_of_parse_eq_ok parsed
  obtain ⟨-, survey, apart⟩ := survey_of_parse_eq_ok parsed
  exact ⟨once, markersApart_of_pairwise once survey apart⟩

theorem not_wellFormed_of_parse_eq_error
    {text : String}
    {fault : TemplateFault}
    (refused : parse text = .error fault) :
    ¬ WellFormed text := by
  intro wellFormed
  obtain ⟨template, parsed⟩ := exists_parse_eq_ok wellFormed
  rw [parsed] at refused
  cases refused

end Template

/-! ## The check of a file -/

namespace Command

variable {files : FileSystem} {path text : String}

theorem checkTemplate_of_refusal
    (holds : files.content path = .ok text.toUTF8)
    {fault : TemplateFault}
    (refused : Template.parse text = .error fault) :
    checkTemplate files path = .error (.template path fault) := by
  unfold checkTemplate
  simp only [(files.readText_eq_ok_iff path text).mpr holds, refused]

theorem checkTemplate_of_accepted
    (holds : files.content path = .ok text.toUTF8)
    {template : Template}
    (accepted : Template.parse text = .ok template) :
    checkTemplate files path = .ok (path ++ ": ok\n") := by
  unfold checkTemplate
  simp only [(files.readText_eq_ok_iff path text).mpr holds, accepted]

end Command

/-! ## Runs of a front end -/

/-- The front end, with a record of what each of its runs answered. -/
def Frontend.watched
    {unit : CompilationUnit}
    {σ : Type}
    (frontend : Frontend unit σ) :
    Frontend unit (σ × List (Except FrontendFailure String)) :=
  fun session (state, answers) => do
    let ((made, session), state) ← frontend session state
    return ((made, session), (state, answers ++ [made]))

namespace Emission

variable {unit : CompilationUnit} {σ : Type}

/-- A unit whose template is refused has no source, and its front end is not asked. -/
theorem emit_of_refusal
    (files : FileSystem)
    (location : LibraryLocation)
    (frontend : Frontend unit σ)
    (before : σ)
    {fault : TemplateFault}
    (refused : Template.parse unit.template = .error fault) :
    (emit files location unit frontend before).value = (.error (.template fault), before) := by
  unfold emit
  rw [refused]
  rfl

/-- How an emission ends on a template text: its result, and the answers of the front
end on the way there. -/
inductive Ending (text : String) :
    Except EmissionFault String → List (Except FrontendFailure String) → Prop where
  | refused {fault : TemplateFault}
      (verdict : Template.parse text = .error fault) :
      Ending text (.error (.template fault)) []
  | failed {template : Template}
      (failure : FrontendFailure)
      (verdict : Template.parse text = .ok template) :
      Ending text (.error (.frontend failure)) [.error failure]
  | made {template : Template}
      (body source : String)
      (verdict : Template.parse text = .ok template) :
      Ending text (.ok source) [.ok body]

namespace Ending

variable
  {text : String}
  {result : Except EmissionFault String}
  {answers : List (Except FrontendFailure String)}

theorem template_fault_iff (ending : Ending text result answers) :
    (∃ fault, result = .error (.template fault)) ↔ ¬ Template.WellFormed text := by
  cases ending with
  | refused verdict => simp [Template.not_wellFormed_of_parse_eq_error verdict]
  | failed failure verdict => simp [Template.wellFormed_of_parse_eq_ok verdict]
  | made body source verdict => simp [Template.wellFormed_of_parse_eq_ok verdict]

theorem refused_of_template_fault
    (ending : Ending text result answers)
    {fault : TemplateFault}
    (faulted : result = .error (.template fault)) :
    answers = [] ∧ Template.parse text = .error fault := by
  cases ending with
  | refused verdict =>
      cases faulted
      exact ⟨rfl, verdict⟩
  | failed failure verdict => cases faulted
  | made body source verdict => cases faulted

theorem failure_iff (ending : Ending text result answers) (failure : FrontendFailure) :
    result = .error (.frontend failure) ↔
      Template.WellFormed text ∧ answers = [.error failure] := by
  cases ending with
  | refused verdict => simp
  | failed failure verdict => simp [Template.wellFormed_of_parse_eq_ok verdict]
  | made body source verdict => simp

theorem source_iff (ending : Ending text result answers) :
    (∃ source, result = .ok source) ↔
      Template.WellFormed text ∧ ∃ body, answers = [.ok body] := by
  cases ending with
  | refused verdict => simp
  | failed failure verdict => simp
  | made body source verdict => simp [Template.wellFormed_of_parse_eq_ok verdict]

end Ending

/-- Every emission has one of the three endings, and watching its front end does not
change its result. -/
theorem emit_ending
    (files : FileSystem)
    (location : LibraryLocation)
    (frontend : Frontend unit σ)
    (before : σ) :
    (emit files location unit frontend.watched (before, [])).value.1 =
        (emit files location unit frontend before).value.1 ∧
      Ending unit.template (emit files location unit frontend before).value.1
        (emit files location unit frontend.watched (before, [])).value.2.2 := by
  cases verdict : Template.parse unit.template with
  | error fault =>
      rw [emit_of_refusal files location frontend before verdict,
        emit_of_refusal files location frontend.watched (before, []) verdict]
      exact ⟨rfl, .refused verdict⟩
  | ok template =>
      rw [emit_of_accepted files location frontend before verdict,
        emit_of_accepted files location frontend.watched (before, []) verdict]
      have watched :
          (frontend.watched (.start unit) (before, [])).value =
            ((frontend (.start unit) before).value.1,
              ((frontend (.start unit) before).value.2,
                [(frontend (.start unit) before).value.1.1])) :=
        rfl
      rw [watched]
      generalize (frontend (.start unit) before).value = ran
      obtain ⟨⟨made, session⟩, after⟩ := ran
      cases made with
      | error failure => exact ⟨rfl, .failed failure verdict⟩
      | ok body => exact ⟨rfl, .made body _ verdict⟩

/-- **The outcome of an emission.**  For every unit, library and front end: a template
fault exactly when the text is not well formed, after no run of the front end, and it is
the fault that the check of a file with the same text reports; a failure of the front
end exactly when the text is well formed and the one run answered with it; a source
exactly when the text is well formed and the one run answered with a body.  The source is
merged from parts of the template between offsets that are in order, in range and between
characters, so nothing fails on the way to it.  The check of the file says `ok` exactly
when no unit with that text can have a template fault. -/
theorem emit_outcome
    (files : FileSystem)
    (location : LibraryLocation)
    (unit : CompilationUnit)
    (frontend : Frontend unit σ)
    (before : σ) :
    let result := (emit files location unit frontend before).value.1
    let watched := (emit files location unit frontend.watched (before, [])).value
    let answers := watched.2.2
    watched.1 = result ∧
    ((∃ fault, result = .error (.template fault)) ↔ ¬ Template.WellFormed unit.template) ∧
    (∀ fault, result = .error (.template fault) →
      answers = [] ∧
      ∀ (store : FileSystem) (path : String),
        store.content path = .ok unit.template.toUTF8 →
        Command.checkTemplate store path = .error (.template path fault)) ∧
    (∀ failure, result = .error (.frontend failure) ↔
      Template.WellFormed unit.template ∧ answers = [.error failure]) ∧
    ((∃ source, result = .ok source) ↔
      Template.WellFormed unit.template ∧ ∃ body, answers = [.ok body]) ∧
    (∀ template, Template.parse unit.template = .ok template → ∀ bounds ∈ template.slices,
      bounds.1 ≤ bounds.2 ∧ bounds.2 ≤ unit.template.utf8ByteSize ∧
        (⟨bounds.1⟩ : String.Pos.Raw).IsValid unit.template ∧
        (⟨bounds.2⟩ : String.Pos.Raw).IsValid unit.template) ∧
    ∀ (store : FileSystem) (path : String),
      store.content path = .ok unit.template.toUTF8 →
      (Command.checkTemplate store path = .ok (path ++ ": ok\n") ↔
        ∀ (library : FileSystem) (place : LibraryLocation) (other : CompilationUnit) (τ : Type)
          (otherFrontend : Frontend other τ) (state : τ) (fault : TemplateFault),
          other.template = unit.template →
          (emit library place other otherFrontend state).value.1 ≠ .error (.template fault)) := by
  intro result watched answers
  obtain ⟨sameResult, ending⟩ := emit_ending files location frontend before
  refine ⟨sameResult, ending.template_fault_iff, ?_, ending.failure_iff, ending.source_iff,
    fun template parsed => Template.slices_valid parsed, ?_⟩
  · intro fault faulted
    obtain ⟨notAsked, refused⟩ := ending.refused_of_template_fault faulted
    refine ⟨notAsked, ?_⟩
    intro store path holds
    exact Command.checkTemplate_of_refusal holds refused
  · intro store path holds
    constructor
    · intro accepted library place other τ otherFrontend state fault sameText faulted
      obtain ⟨-, otherEnding⟩ := emit_ending library place otherFrontend state
      obtain ⟨-, refused⟩ := otherEnding.refused_of_template_fault faulted
      rw [sameText] at refused
      rw [Command.checkTemplate_of_refusal holds refused] at accepted
      cases accepted
    · intro never
      cases verdict : Template.parse unit.template with
      | error fault =>
          have faulted := emit_of_refusal files location frontend before verdict
          exact absurd (congrArg Prod.fst faulted)
            (never files location unit σ frontend before fault rfl)
      | ok template => exact Command.checkTemplate_of_accepted holds verdict

end Emission

end UnitAssembly
