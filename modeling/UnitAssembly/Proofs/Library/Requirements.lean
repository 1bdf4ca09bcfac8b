import Mathlib.Data.List.Induction
import Mathlib.Data.List.TakeWhile
import UnitAssembly.CompilationUnit
import UnitAssembly.Proofs.FirstSeen

/-!
Contract: required modules, by the requests that were made.

Owns:
- the names after any requests, which are those requested, by first request;
- the requirements of a unit that asks for one module after the other;
- `IsRequest`, the texts that are read as a request, and that no others are.

Does not own: where the requests come from.
-/

namespace UnitAssembly

namespace Requirements

/-! ## Names by first request -/

theorem map_fst_request (name path : String) (entries : List (String × String)) :
    (request name path entries).map Prod.fst =
      if name ∈ entries.map Prod.fst then entries.map Prod.fst
      else entries.map Prod.fst ++ [name] := by
  induction entries with
  | nil => rfl
  | cons entry rest inductionHypothesis =>
      unfold request
      by_cases same : entry.1 = name
      · rw [if_pos same, List.map_cons, List.map_cons, same, if_pos List.mem_cons_self]
      · rw [if_neg same, List.map_cons, List.map_cons, inductionHypothesis]
        by_cases known : name ∈ rest.map Prod.fst
        · rw [if_pos known, if_pos (List.mem_cons_of_mem _ known)]
        · rw [if_neg known, if_neg (List.not_mem_cons_of_ne_of_not_mem (Ne.symm same) known),
            List.cons_append]

theorem ofList_concat (requests : List (String × String)) (last : String × String) :
    ofList (requests ++ [last]) = (ofList requests).insert last.1 last.2 := by
  unfold ofList
  rw [List.foldl_append]
  rfl

theorem names_ofList (requests : List (String × String)) :
    (ofList requests).names = (requests.map Prod.fst).eraseDups := by
  induction requests using List.reverseRecOn with
  | nil => rfl
  | append_singleton requests last inductionHypothesis =>
      have known :
          last.1 ∈ (ofList requests).names ↔ last.1 ∈ requests.map Prod.fst := by
        rw [inductionHypothesis, List.mem_eraseDups]
      rw [ofList_concat, List.map_append, List.map_singleton, eraseDups_concat,
        ← inductionHypothesis, ← if_congr known rfl rfl]
      exact map_fst_request last.1 last.2 (ofList requests).entries

end Requirements

namespace CompilationUnit

/-- The unit with some more required modules, asked for one after the other. -/
def requiringAll (unit : CompilationUnit) (requests : List (String × String)) : CompilationUnit :=
  requests.foldl (fun unit request => unit.requiring request.1 request.2) unit

/-- Only the requirements change, and they do as if they were collected first. -/
theorem requiringAll_eq
    {unit : CompilationUnit}
    (fresh : unit.required = .empty)
    (requests : List (String × String)) :
    unit.requiringAll requests = { unit with required := .ofList requests } := by
  induction requests using List.reverseRecOn with
  | nil =>
      unfold requiringAll Requirements.ofList
      rw [List.foldl_nil, List.foldl_nil, ← fresh]
  | append_singleton requests last inductionHypothesis =>
      have step :
          unit.requiringAll (requests ++ [last]) =
            (unit.requiringAll requests).requiring last.1 last.2 := by
        unfold requiringAll
        rw [List.foldl_append]
        rfl
      rw [step, inductionHypothesis, Requirements.ofList_concat]
      rfl

end CompilationUnit

/-! ## Written requests -/

namespace Requirements

/-- The text asks for the module of a name at a path. -/
structure IsRequest (text name path : String) : Prop where
  written : text = name ++ "=" ++ path
  named : name ≠ ""
  firstEquals : '=' ∉ name.toList
  located : path ≠ ""

theorem parseRequest?_eq_some_iff (text name path : String) :
    parseRequest? text = some (name, path) ↔ IsRequest text name path := by
  unfold parseRequest?
  constructor
  · intro parsed
    have whole := text.toList.takeWhile_append_dropWhile (p := (· != '='))
    have divided := text.toList.head?_dropWhile_not (· != '=')
    split at parsed
    · next first behind rest =>
        rw [rest] at whole divided
        have equals : first = '=' := by simpa using divided
        simp only [Option.ite_none_left_eq_some, Bool.or_eq_true, List.isEmpty_iff, not_or,
          Option.some.injEq, Prod.mk.injEq] at parsed
        rcases parsed with ⟨⟨named, located⟩, rfl, rfl⟩
        refine ⟨?_, ?_, ?_, ?_⟩
        · apply String.toList_inj.mp
          refine whole.symm.trans ?_
          rw [equals]
          simp
        · simpa using named
        · rw [String.toList_ofList]
          intro inName
          have other := List.mem_takeWhile_imp inName
          simp at other
        · simpa using located
    · cases parsed
  · rintro ⟨written, named, firstEquals, located⟩
    have inName : ∀ character ∈ name.toList, (character != '=') = true := by
      intro character member
      rw [bne_iff_ne]
      rintro rfl
      exact firstEquals member
    have text_eq : text.toList = name.toList ++ '=' :: path.toList := by
      rw [written]
      simp
    rw [text_eq, List.takeWhile_append_of_pos inName, List.dropWhile_append_of_pos inName]
    simp [named, located]

end Requirements

end UnitAssembly
