import UnitAssembly.Library.Discovery
import UnitAssembly.Proofs.Library.LinkOrder
import UnitAssembly.Proofs.Library.Requirements

/-!
Contract: required modules as a map that keeps the order of first requests.

Owns:
- the path of a name after one request, and after any requests: the one that was given
  last;
- `ofList_keeps_first_order`, the names, paths and number of the modules after any
  requests, and that the link order depends on the order of first requests alone.

A request that is made again changes the path of its module and nothing else, and paths
have no part in the link order.

Does not own: where the requests come from, or the modules that are found on disk.
-/

namespace UnitAssembly.Requirements

/-! ## Paths by last request -/

theorem lookup_entry_cons
    (entry : String × String)
    (rest : List (String × String))
    (name : String) :
    (entry :: rest).lookup name = if name = entry.1 then some entry.2 else rest.lookup name := by
  rw [List.lookup_cons]
  by_cases same : name = entry.1
  · rw [if_pos same, beq_iff_eq.mpr same]
  · rw [if_neg same, beq_eq_false_iff_ne.mpr same]

theorem lookup_eq_none_iff_not_mem (entries : List (String × String)) (name : String) :
    entries.lookup name = none ↔ name ∉ entries.map Prod.fst := by
  rw [List.lookup_eq_none_iff]
  constructor
  · intro others listed
    obtain ⟨entry, member, rfl⟩ := List.mem_map.mp listed
    exact bne_iff_ne.mp (others entry member) rfl
  · intro absent entry member
    rw [bne_iff_ne]
    rintro rfl
    exact absent (List.mem_map_of_mem member)

/-- One request: its name has the new path, and every other name the path that it had. -/
theorem lookup_request (name path other : String) (entries : List (String × String)) :
    (request name path entries).lookup other =
      if other = name then some path else entries.lookup other := by
  induction entries with
  | nil => exact lookup_entry_cons (name, path) [] other
  | cons entry rest inductionHypothesis =>
      unfold request
      by_cases same : entry.1 = name
      · rw [if_pos same, lookup_entry_cons, lookup_entry_cons, same]
        by_cases asked : other = name
        · rw [if_pos asked, if_pos asked]
        · rw [if_neg asked, if_neg asked, if_neg asked]
      · rw [if_neg same, lookup_entry_cons, lookup_entry_cons, inductionHypothesis]
        by_cases held : other = entry.1
        · have notAsked : other ≠ name := by
            rw [held]
            exact same
          rw [if_pos held, if_neg notAsked, if_pos held]
        · rw [if_neg held, if_neg held]

/-- The path of a name is the first that is met from the last request backwards. -/
theorem path?_ofList (requests : List (String × String)) (name : String) :
    (ofList requests).path? name = requests.reverse.lookup name := by
  induction requests using List.reverseRecOn with
  | nil => rfl
  | append_singleton requests last inductionHypothesis =>
      unfold path? at inductionHypothesis ⊢
      rw [ofList_concat, List.reverse_concat, lookup_entry_cons, ← inductionHypothesis]
      exact lookup_request last.1 last.2 name (ofList requests).entries

theorem path?_ofList_eq_some_iff (requests : List (String × String)) (name path : String) :
    (ofList requests).path? name = some path ↔
      ∃ front back, requests = front ++ (name, path) :: back ∧ name ∉ back.map Prod.fst := by
  rw [path?_ofList]
  constructor
  · intro found
    obtain ⟨back, front, split, last⟩ := List.lookup_eq_some_iff.mp found
    refine ⟨front.reverse, back.reverse, ?_, ?_⟩
    · rw [List.reverse_eq_iff.mp split, List.reverse_append, List.reverse_cons,
        List.append_assoc, List.singleton_append]
    · rw [List.map_reverse, List.mem_reverse, ← lookup_eq_none_iff_not_mem,
        List.lookup_eq_none_iff]
      exact last
  · rintro ⟨front, back, rfl, last⟩
    have behind : back.reverse.lookup name = none := by
      rw [lookup_eq_none_iff_not_mem, List.map_reverse, List.mem_reverse]
      exact last
    rw [List.reverse_append, List.reverse_cons, List.append_assoc, List.lookup_append, behind,
      List.singleton_append, lookup_entry_cons, if_pos rfl, Option.none_or]

theorem path?_ofList_eq_none_iff (requests : List (String × String)) (name : String) :
    (ofList requests).path? name = none ↔ name ∉ requests.map Prod.fst := by
  rw [path?_ofList, lookup_eq_none_iff_not_mem, List.map_reverse, List.mem_reverse]

/-! ## The order of first requests -/

/-- The repetitions that are dropped here would be dropped from the link order. -/
theorem enumerate_ofList
    (files : FileSystem)
    (location : LibraryLocation)
    (requests : List (String × String)) :
    Discovery.enumerate files location (ofList requests).names =
      Discovery.enumerate files location (requests.map Prod.fst) := by
  unfold Discovery.enumerate
  simp only [names_ofList, LinkOrder.ofParts_eraseDups]

/-- **Requests keep the order in which modules were first asked for.**  After any requests
the names are those requested, once each, by first request; a name has the path of its last
request, and none exactly if it was never requested; and there are as many modules as
different names.  So, for every library, the link order is that of all requests as they
came, and requests with the same names by first request give the same one, whatever the
paths and however often a module is requested. -/
theorem ofList_keeps_first_order (requests : List (String × String)) :
    (ofList requests).names = (requests.map Prod.fst).eraseDups ∧
    (∀ name, name ∈ (ofList requests).names ↔ name ∈ requests.map Prod.fst) ∧
    ((ofList requests).names.Pairwise fun first second =>
      (requests.map Prod.fst).idxOf first < (requests.map Prod.fst).idxOf second) ∧
    (∀ name path,
      (ofList requests).path? name = some path ↔
        ∃ front back, requests = front ++ (name, path) :: back ∧ name ∉ back.map Prod.fst) ∧
    (∀ name, (ofList requests).path? name = none ↔ name ∉ requests.map Prod.fst) ∧
    (ofList requests).size = (requests.map Prod.fst).toFinset.card ∧
    ∀ (files : FileSystem) (location : LibraryLocation),
      Discovery.enumerate files location (ofList requests).names =
          Discovery.enumerate files location (requests.map Prod.fst) ∧
        ∀ requests' : List (String × String),
          (requests'.map Prod.fst).eraseDups = (requests.map Prod.fst).eraseDups →
          Discovery.enumerate files location (ofList requests').names =
            Discovery.enumerate files location (ofList requests).names := by
  have names := names_ofList requests
  refine ⟨names, ?_, ?_, path?_ofList_eq_some_iff requests, path?_ofList_eq_none_iff requests,
    ?_, fun files location => ⟨enumerate_ofList files location requests, ?_⟩⟩
  · intro name
    rw [names, List.mem_eraseDups]
  · rw [names]
    exact eraseDups_pairwise _
  · rw [← length_eraseDups, ← names]
    exact (List.length_map _).symm
  · intro requests' sameOrder
    rw [names_ofList requests', sameOrder, names]

/-- A library with one module, which may be required as well. -/
def oneJson : FileSystem where
  list? path := if path = "src" then some [⟨.ofText "json.rb", false⟩] else none
  content _ := .error .notFound

theorem ofList_keeps_first_order_again :
    (ofList [("zlib", "a.rb"), ("json", "b.rb"), ("zlib", "c.rb")]).path? "zlib" = some "c.rb" ∧
      Discovery.enumerate oneJson .default
          (ofList [("zlib", "d.rb"), ("zlib", "e.rb"), ("json", "f.rb")]).names =
        Discovery.enumerate oneJson .default
          (ofList [("zlib", "a.rb"), ("json", "b.rb"), ("zlib", "c.rb")]).names := by
  obtain ⟨-, -, -, paths, -, -, orders⟩ :=
    ofList_keeps_first_order [("zlib", "a.rb"), ("json", "b.rb"), ("zlib", "c.rb")]
  refine ⟨?_, ?_⟩
  · rw [paths]
    exact ⟨[("zlib", "a.rb"), ("json", "b.rb")], [], rfl, by decide⟩
  · apply (orders oneJson .default).2
    decide

end UnitAssembly.Requirements
