/-!
Contract: the record that a run leaves of what it did, as a value.

Owns:
- the entries that can be recorded and the words they are reported in;
- `Traced`, a result together with the entries made on the way to it.

Does not own: which step records which entry, or where a trace is shown.
-/

namespace UnitAssembly

/-- One thing that happened during a run. -/
inductive TraceEntry where
  | emissionStarted (source : String)
  | symbolInterned (name : String) (slot : Nat)
  /-- The front end returned a body and left these many things behind. -/
  | bodyCompleted (symbols declarations inlineFunctions : Nat)
  | enumerationStarted (root : String)
  /-- The search came back with this many names, before they are put in order. -/
  | modulesDiscovered (count : Nat)
  | assemblyStarted (symbols modules declarations : Nat)
  /-- This many lines closed a block where none was open. -/
  | closersClamped (count : Nat)
deriving DecidableEq, Repr

inductive TraceValue where
  | count (number : Nat)
  | text (words : String)
deriving DecidableEq, Repr

/-- Whether an entry opens a span of work or reports a single event. -/
inductive TraceKind where
  | span
  | event
deriving DecidableEq, Repr

structure TraceReport where
  kind : TraceKind
  label : String
  fields : List (String × TraceValue)
deriving DecidableEq, Repr

def TraceEntry.report : TraceEntry → TraceReport
  | .emissionStarted source =>
      ⟨.span, "generate", [("source", .text source)]⟩
  | .symbolInterned name slot =>
      ⟨.event, "interned symbol", [("symbol", .text name), ("slot", .count slot)]⟩
  | .bodyCompleted symbols declarations inlineFunctions =>
      ⟨.event, "translation complete",
        [("symbols", .count symbols), ("declarations", .count declarations),
          ("inline_functions", .count inlineFunctions)]⟩
  | .enumerationStarted root =>
      ⟨.span, "enumerate", [("root", .text root)]⟩
  | .modulesDiscovered count =>
      ⟨.event, "library modules discovered", [("discovered", .count count)]⟩
  | .assemblyStarted symbols modules declarations =>
      ⟨.span, "assemble",
        [("symbols", .count symbols), ("modules", .count modules),
          ("declarations", .count declarations)]⟩
  | .closersClamped count =>
      ⟨.event, "unbalanced closing braces during reindent", [("clamped", .count count)]⟩

/-- A result together with the entries recorded on the way to it, oldest first. -/
structure Traced (α : Type) where
  value : α
  entries : List TraceEntry
deriving DecidableEq, Repr

namespace Traced

def record (entry : TraceEntry) : Traced Unit :=
  ⟨(), [entry]⟩

/-- Steps run one after the other record their entries in that order. -/
instance : Monad Traced where
  pure value := ⟨value, []⟩
  bind first next :=
    let second := next first.value
    ⟨second.value, first.entries ++ second.entries⟩

variable {α β : Type}

@[simp]
theorem value_pure (value : α) : (pure value : Traced α).value = value :=
  rfl

@[simp]
theorem entries_pure (value : α) : (pure value : Traced α).entries = [] :=
  rfl

@[simp]
theorem value_bind (first : Traced α) (next : α → Traced β) :
    (first >>= next).value = (next first.value).value :=
  rfl

@[simp]
theorem entries_bind (first : Traced α) (next : α → Traced β) :
    (first >>= next).entries = first.entries ++ (next first.value).entries :=
  rfl

@[simp]
theorem entries_record (entry : TraceEntry) : (record entry).entries = [entry] :=
  rfl

@[ext]
theorem ext {left right : Traced α}
    (sameValue : left.value = right.value)
    (sameEntries : left.entries = right.entries) :
    left = right := by
  cases left
  cases right
  exact congr (congrArg Traced.mk sameValue) sameEntries

instance : LawfulMonad Traced :=
  LawfulMonad.mk' Traced
    (fun traced => Traced.ext rfl (List.append_nil traced.entries))
    (fun _ _ => rfl)
    (fun first next last =>
      Traced.ext rfl
        (List.append_assoc first.entries (next first.value).entries
          (last (next first.value).value).entries))

end Traced

end UnitAssembly
