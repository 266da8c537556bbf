import Flowgraph.Source

/-!
# Chains and stages

A flowgraph program is a list of chains.  The stages of a chain follow each
other; a stage is a single step, or a block of chains that run side by side
between the stage before it and the stage after it.  The same shape holds the
calls of a program as it was written and the operators that they become.
-/

namespace Flowgraph

/-- Stages that follow each other, and the bytes from the first of them to the last. -/
structure Chain (σ : Type) where
  stages : List σ
  span : Span

/-- A stage: one step, or a block of chains side by side. -/
inductive Stage (α : Type) where
  | step (value : α)
  | parallel (branches : List (Chain (Stage α))) (span : Span)

/-- A chain whose steps are values of a type. -/
abbrev Flow (α : Type) : Type :=
  Chain (Stage α)

namespace Stage

mutual

/-- The steps of a stage, in the order in which they are written. -/
def steps {α : Type} : Stage α → List α
  | step value => [value]
  | parallel branches _ => branchSteps branches

/-- The steps of stages that follow each other. -/
def chainSteps {α : Type} : List (Stage α) → List α
  | [] => []
  | stage :: rest => stage.steps ++ chainSteps rest

/-- The steps of chains side by side. -/
def branchSteps {α : Type} : List (Flow α) → List α
  | [] => []
  | ⟨stages, _⟩ :: rest => chainSteps stages ++ branchSteps rest

end

end Stage

end Flowgraph
