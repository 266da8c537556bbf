/-!
# The passes of a compilation

A compilation runs up to a chosen pass.  A pass works on what others have made,
so that those come first.
-/

namespace Flowgraph

/-- A step of a compilation. -/
inductive Pass where
  | lower
  | buildGraph
  | propagate
  | checkRunaway
deriving DecidableEq, Repr

/-- What a pass makes. -/
inductive Artifact where
  | lowered
  | graph
  | temporal
  | violations
deriving DecidableEq, Repr

/-- The name of an artifact. -/
def Artifact.name : Artifact → String
  | lowered => "lowered"
  | graph => "graph"
  | temporal => "temporal"
  | violations => "violations"

namespace Pass

/-- Every pass, in the order in which they run. -/
def all : List Pass :=
  [lower, buildGraph, propagate, checkRunaway]

/-- The name of a pass. -/
def name : Pass → String
  | lower => "lower"
  | buildGraph => "build_graph"
  | propagate => "propagate"
  | checkRunaway => "check_runaway"

/-- The name of a pass in the message that it failed. -/
def title : Pass → String
  | lower => "Lower"
  | buildGraph => "BuildGraph"
  | propagate => "Propagate"
  | checkRunaway => "CheckRunaway"

/-- The passes whose results a pass works on. -/
def inputs : Pass → List Pass
  | lower => []
  | buildGraph => [lower]
  | propagate => [buildGraph]
  | checkRunaway => [buildGraph, propagate]

/-- What a pass makes. -/
def outputs : Pass → List Artifact
  | lower => [.lowered]
  | buildGraph => [.graph]
  | propagate => [.temporal]
  | checkRunaway => [.violations]

/-- What holds once a pass has come through without errors. -/
def invariant : Pass → String
  | lower => "every proc known, options typed and verified"
  | buildGraph => "graph is acyclic, every component starts at a source"
  | propagate => "one input and one output class per node"
  | checkRunaway => "no blocking operator consumes an unbounded live stream"

/-- The message that a pass failed. -/
def failureMessage (pass : Pass) : String :=
  "pass " ++ pass.title ++ " reported errors"

/-! ## Passes before a pass -/

/-- The place of a pass among all. -/
def place (pass : Pass) : Nat :=
  all.idxOf pass

/-- A pass works on what earlier passes have made. -/
theorem place_lt_of_mem_inputs {pass input : Pass} (isInput : input ∈ pass.inputs) :
    input.place < pass.place := by
  revert isInput
  cases pass <;> cases input <;> decide

/-- The passes that have been entered, and those of them that have been put in order. -/
structure Visited where
  entered : List Pass := []
  order : List Pass := []

/-- Put a pass in order after all that it works on, unless it has been entered before. -/
def visit (pass : Pass) (visited : Visited) : Visited :=
  if pass ∈ visited.entered then visited
  else
    let inside := pass.inputs.attach.foldl (fun visited input => visit input.1 visited)
      { visited with entered := pass :: visited.entered }
    { inside with order := inside.order ++ [pass] }
termination_by pass.place
decreasing_by exact place_lt_of_mem_inputs input.2

/-- The passes that have to run for the results of a pass, in order; it is the last of them. -/
def required (terminal : Pass) : List Pass :=
  (visit terminal {}).order

end Pass

end Flowgraph
