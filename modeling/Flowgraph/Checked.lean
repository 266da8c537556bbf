import Flowgraph.Diagnostic

/-!
# Values with diagnostics

A check goes on after an error, so that one run reports as many errors as
possible.  Its result is a value together with the diagnostics on the way to it,
in the order in which they arose.
-/

namespace Flowgraph

/-- A value and the diagnostics on the way to it. -/
structure Checked (α : Type) where
  value : α
  diagnostics : List Diagnostic

namespace Checked

instance : Monad Checked where
  pure value := ⟨value, []⟩
  bind first next :=
    let second := next first.value
    ⟨second.value, first.diagnostics ++ second.diagnostics⟩

/-- Report one error. -/
def error (code : DiagnosticCode) (span : Span) (message : String) : Checked Unit :=
  ⟨(), [Diagnostic.error code span message]⟩

/-- Report an error if a condition holds. -/
def errorIf (condition : Prop) [Decidable condition] (code : DiagnosticCode) (span : Span)
    (message : String) : Checked Unit :=
  if condition then error code span message else pure ()

/-- A value that is missing because of an error. -/
def missing {α : Type} (code : DiagnosticCode) (span : Span) (message : String) :
    Checked (Option α) :=
  ⟨none, [Diagnostic.error code span message]⟩

@[simp]
theorem value_pure {α : Type} (value : α) : (pure value : Checked α).value = value := rfl

@[simp]
theorem diagnostics_pure {α : Type} (value : α) : (pure value : Checked α).diagnostics = [] := rfl

@[simp]
theorem value_bind {α β : Type} (first : Checked α) (next : α → Checked β) :
    (first >>= next).value = (next first.value).value := rfl

@[simp]
theorem diagnostics_bind {α β : Type} (first : Checked α) (next : α → Checked β) :
    (first >>= next).diagnostics = first.diagnostics ++ (next first.value).diagnostics := rfl

/-- A check with an error reports one exactly when its condition holds. -/
theorem diagnostics_errorIf_eq_nil_iff (condition : Prop) [Decidable condition]
    (code : DiagnosticCode) (span : Span) (message : String) :
    (errorIf condition code span message).diagnostics = [] ↔ ¬ condition := by
  unfold errorIf
  split <;> simp_all [error]

end Checked

end Flowgraph
