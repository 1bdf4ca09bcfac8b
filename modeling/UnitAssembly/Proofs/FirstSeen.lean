import Mathlib.Data.Finset.Card
import Mathlib.Data.List.Nodup

/-!
Contract: names in the order in which they are first seen.

Owns: what `eraseDups` makes of a list of names: some of them, in the order of their
first places, once each, and one more exactly when a new name comes behind them.  So names
that come later move none of those in front.

Does not own: where the names come from.
-/

namespace UnitAssembly

theorem eraseDups_sublist (names : List String) : names.eraseDups.Sublist names := by
  match names with
  | [] => exact List.Sublist.refl []
  | name :: rest =>
      rw [List.eraseDups_cons]
      have shorter := List.length_filter_le (fun other => !other == name) rest
      have kept := eraseDups_sublist (rest.filter fun other => !other == name)
      exact (kept.trans List.filter_sublist).cons_cons name
termination_by names.length

theorem nodup_eraseDups (names : List String) : names.eraseDups.Nodup := by
  match names with
  | [] => exact List.nodup_nil
  | name :: rest =>
      rw [List.eraseDups_cons]
      have shorter := List.length_filter_le (fun other => !other == name) rest
      refine List.nodup_cons.mpr ⟨?_, nodup_eraseDups (rest.filter fun other => !other == name)⟩
      intro again
      have kept := (List.mem_filter.mp (List.mem_eraseDups.mp again)).2
      simp at kept
termination_by names.length

theorem eraseDups_concat (seen : List String) (name : String) :
    (seen ++ [name]).eraseDups =
      if name ∈ seen then seen.eraseDups else seen.eraseDups ++ [name] := by
  rw [List.eraseDups_append]
  by_cases known : name ∈ seen
  · rw [if_pos known]
    simp [List.removeAll, known]
  · rw [if_neg known]
    simp [List.removeAll, known, List.eraseDups_cons]

theorem eraseDups_prefix_append (seen later : List String) :
    seen.eraseDups <+: (seen ++ later).eraseDups := by
  rw [List.eraseDups_append]
  exact List.prefix_append _ _

/-- The place of a name that has been seen stays when more names come. -/
theorem idxOf_eraseDups_append
    {seen : List String}
    {name : String}
    (known : name ∈ seen)
    (later : List String) :
    (seen ++ later).eraseDups.idxOf name = seen.eraseDups.idxOf name := by
  rw [List.eraseDups_append, List.idxOf_append_of_mem (List.mem_eraseDups.mpr known)]

theorem length_eraseDups (names : List String) :
    names.eraseDups.length = names.toFinset.card := by
  have sameNames : names.eraseDups.toFinset = names.toFinset := by
    ext name
    rw [List.mem_toFinset, List.mem_toFinset, List.mem_eraseDups]
  rw [← sameNames, List.toFinset_card_of_nodup (nodup_eraseDups names)]

/-- Names that fail a test may be left out before the repetitions or after them. -/
theorem eraseDups_filter (keep : String → Bool) (names : List String) :
    (names.filter keep).eraseDups = names.eraseDups.filter keep := by
  match names with
  | [] => rfl
  | name :: rest =>
      have shorter := List.length_filter_le (fun other => !other == name) rest
      have later := eraseDups_filter keep (rest.filter fun other => !other == name)
      rw [List.eraseDups_cons]
      cases kept : keep name with
      | true =>
          rw [List.filter_cons_of_pos kept, List.filter_cons_of_pos kept, List.eraseDups_cons,
            List.filter_comm, later]
      | false =>
          -- The name fails the test, so its other places are left out with it.
          have unaffected :
              (rest.filter fun other => !other == name).filter keep = rest.filter keep := by
            rw [List.filter_filter]
            apply List.filter_congr
            intro other _
            by_cases same : other = name
            · rw [same, kept, Bool.false_and]
            · simp [same]
          rw [List.filter_cons_of_neg (by simp [kept]), List.filter_cons_of_neg (by simp [kept]),
            ← later, unaffected]
termination_by names.length

theorem eraseDups_of_nodup {names : List String} (distinct : names.Nodup) :
    names.eraseDups = names := by
  induction names with
  | nil => rfl
  | cons name rest inductionHypothesis =>
      obtain ⟨fresh, distinctRest⟩ := List.nodup_cons.mp distinct
      have others : (rest.filter fun other => !other == name) = rest := by
        apply List.filter_eq_self.mpr
        intro other member
        have different : other ≠ name := ne_of_mem_of_not_mem member fresh
        simpa using different
      rw [List.eraseDups_cons, others, inductionHypothesis distinctRest]

/-- The names come in the order in which the list first has them. -/
theorem eraseDups_pairwise (names : List String) :
    names.eraseDups.Pairwise fun earlier later => names.idxOf earlier < names.idxOf later := by
  induction names with
  | nil => exact List.Pairwise.nil
  | cons name rest inductionHypothesis =>
      have behind
          (other : String)
          (listed : other ∈ rest.eraseDups.filter fun other => !other == name) :
          (name :: rest).idxOf other = rest.idxOf other + 1 := by
        apply List.idxOf_cons_ne rest
        rintro rfl
        simp at listed
      rw [List.eraseDups_cons, eraseDups_filter]
      refine List.Pairwise.cons ?_ ?_
      · intro other listed
        rw [List.idxOf_cons_self, behind other listed]
        omega
      · refine (inductionHypothesis.filter _).imp_of_mem fun {left right} inLeft inRight below => ?_
        rw [behind left inLeft, behind right inRight]
        omega

end UnitAssembly
