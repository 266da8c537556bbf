import Flowgraph.Checked
import Flowgraph.Chain
import Flowgraph.Graph.Basic
import Flowgraph.Operator.Basic

/-!
# Wiring operators

The operators of a program become the nodes of a graph in the order in which they
are written.  Data flows from each stage of a chain to the next.  Before a block
it is given to every branch, and after a block the outputs of all branches meet,
in the order of the branches.

A chain starts with a source, and sources stand nowhere else.
-/

namespace Flowgraph

/-- A part of a graph, and the nodes whose output leaves it. -/
structure Wiring where
  nodes : List Node
  edges : List Edge
  exits : List Nat

namespace Wiring

/-- The part without nodes, which lets its inputs pass. -/
def through (entries : List Nat) : Wiring :=
  ⟨[], [], entries⟩

/-- Two parts, the nodes of the second after those of the first, with the exits of the second. -/
def followedBy (first second : Wiring) : Wiring :=
  ⟨first.nodes ++ second.nodes, first.edges ++ second.edges, second.exits⟩

/-- Two parts side by side, with the exits of both. -/
def beside (first second : Wiring) : Wiring :=
  ⟨first.nodes ++ second.nodes, first.edges ++ second.edges, first.exits ++ second.exits⟩

end Wiring

namespace Operator

/-- A source has no inputs, and any other operator has some. -/
def checkInputs (operator : Operator) (entries : List Nat) : Checked Unit :=
  match operator.kind.isSource, entries.isEmpty with
  | true, false =>
      .error .misplacedSource operator.span
        ("`" ++ operator.name ++ "` is a source and must start a flowgraph")
  | false, true =>
      .error .missingSource operator.span
        ("flowgraph must start with a source, found `" ++ operator.name ++ "`")
  | true, true | false, false => pure ()

/-- The node of an operator. -/
def node (operator : Operator) (source : SourceFile) : Node where
  name := operator.name
  kind := operator.kind
  options := operator.options
  location := source.location operator.span

/-- An operator at a place of the graph, with an edge from each of its inputs. -/
def wire (source : SourceFile) (place : Nat) (entries : List Nat) (operator : Operator) :
    Checked Wiring := do
  operator.checkInputs entries
  return ⟨[operator.node source], entries.map fun entry => ⟨entry, place⟩, [place]⟩

end Operator

namespace Stage

mutual

/--
One stage.  `place` is the place of its first node, and the outputs of `entries`
flow into it.
-/
def wire (source : SourceFile) (place : Nat) (entries : List Nat) :
    Stage Operator → Checked Wiring
  | step operator => operator.wire source place entries
  | parallel branches _ => wireBranches source place entries branches

/-- Stages that follow each other, each with the exits of the one before as inputs. -/
def wireChain (source : SourceFile) (place : Nat) (entries : List Nat) :
    List (Stage Operator) → Checked Wiring
  | [] => pure (.through entries)
  | stage :: rest => do
      let first ← stage.wire source place entries
      let others ← wireChain source (place + first.nodes.length) first.exits rest
      return first.followedBy others

/-- Chains side by side, each with the same inputs. -/
def wireBranches (source : SourceFile) (place : Nat) (entries : List Nat) :
    List (Flow Operator) → Checked Wiring
  | [] => pure (.through [])
  | ⟨stages, _⟩ :: rest => do
      let chain ← wireChain source place entries stages
      let others ← wireBranches source (place + chain.nodes.length) entries rest
      return chain.beside others

end

mutual

/-- The nodes of a stage are those of its operators, in the order in which they are written. -/
@[simp]
theorem nodes_wire (source : SourceFile) (place : Nat) (entries : List Nat) :
    (stage : Stage Operator) →
      (stage.wire source place entries).value.nodes =
        stage.steps.map fun operator => operator.node source
  | step operator => by
      simp [wire, Operator.wire, steps]
  | parallel branches span => by
      simp [wire, steps, nodes_wireBranches]

/-- The nodes of stages that follow each other are those of one stage after another. -/
@[simp]
theorem nodes_wireChain (source : SourceFile) (place : Nat) (entries : List Nat) :
    (stages : List (Stage Operator)) →
      (wireChain source place entries stages).value.nodes =
        (chainSteps stages).map fun operator => operator.node source
  | [] => by
      simp [wireChain, Wiring.through, chainSteps]
  | stage :: rest => by
      simp [wireChain, Wiring.followedBy, chainSteps, nodes_wire, nodes_wireChain]

/-- The nodes of chains side by side are those of one chain after another. -/
@[simp]
theorem nodes_wireBranches (source : SourceFile) (place : Nat) (entries : List Nat) :
    (branches : List (Flow Operator)) →
      (wireBranches source place entries branches).value.nodes =
        (branchSteps branches).map fun operator => operator.node source
  | [] => by
      simp [wireBranches, Wiring.through, branchSteps]
  | ⟨stages, span⟩ :: rest => by
      simp [wireBranches, Wiring.beside, branchSteps, nodes_wireChain, nodes_wireBranches]

end

end Stage

/-- The graph of a program; its chains are independent of each other and have no inputs. -/
def FlowGraph.ofProgram (source : SourceFile) (chains : List (Flow Operator)) :
    Checked FlowGraph := do
  let wiring ← Stage.wireBranches source 0 [] chains
  return ⟨wiring.nodes, wiring.edges⟩

end Flowgraph
