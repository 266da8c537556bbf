import Flowgraph.Analysis.Propagation

/-!
# Graphs as drawings

A graph is written in the DOT language for drawing.  If the classes of the data
are known, a node has the colour of the class that it gives out, an edge bears
the class that it carries, and an operator that never sees the end of its data is
outlined in red.
-/

namespace Flowgraph.Dot

/-- The shape of a node, by the kind of its operator. -/
def shape : OperatorKind → String
  | .source => "cylinder"
  | .sink => "folder"
  | .merge => "invtriangle"
  | .windowedAggregate | .periodicAggregate => "box3d"
  | .aggregate | .sort | .tail => "octagon"
  | .head | .unbatch | .passThrough => "box"

/-- The colour of a node, by the class that it gives out. -/
def fill : TemporalClass → String
  | .bounded => "lightblue"
  | .liveWindowed _ => "lightyellow"
  | .liveUnbounded _ => "lightsalmon"

/-- The colour of an edge, by the class that it carries. -/
def edgeColour : TemporalClass → String
  | .bounded => "gray40"
  | .liveWindowed _ => "goldenrod"
  | .liveUnbounded _ => "red"

/-- A text between the quotes of a label; the double quote and the backslash follow a backslash. -/
def escaped (text : String) : String :=
  String.ofList (text.toList.flatMap fun c =>
    if c = '\\' then ['\\', '\\'] else if c = '"' then ['\\', '"'] else [c])

/-- The label of a node: its name, and its options on a line of their own. -/
def label (node : Node) : String :=
  node.name ++ (if node.options.isEmpty then "" else "\\n" ++ escaped node.options.text)

/-- Whether an operator never sees the end of what reaches it. -/
def isOutlined (node : Node) (input : TemporalClass) : Bool :=
  node.kind.requirement == .requiresBounded && !node.kind.requirement.admits input

/-- The attributes of a node. -/
def nodeAttributes (classes : Option TemporalMap) (place : Nat) (node : Node) : String :=
  "shape=" ++ shape node.kind ++ ", label=\"" ++ label node ++ "\"" ++
    (match classes with
      | none => ""
      | some known =>
          ", style=filled, fillcolor=" ++ fill (known.output place) ++
            (if isOutlined node (known.input place) then ", color=red, penwidth=2" else ""))

/-- The line of a node. -/
def nodeLine (classes : Option TemporalMap) (place : Nat) (node : Node) : String :=
  "    " ++ FlowGraph.nodeName place ++ " [" ++ nodeAttributes classes place node ++ "];\n"

/-- The line of an edge. -/
def edgeLine (classes : Option TemporalMap) (edge : Edge) : String :=
  "    " ++ FlowGraph.nodeName edge.source ++ " -> " ++ FlowGraph.nodeName edge.target ++
    (match classes with
      | none => ""
      | some known =>
          let carried := known.output edge.source
          " [label=\"" ++ carried.label ++ "\", color=" ++ edgeColour carried ++ "]") ++ ";\n"

/-- The lines before the nodes. -/
def header : String :=
  "digraph flowc \x7b\n    rankdir=LR;\n    node [fontname=\"Helvetica\", fontsize=10];\n" ++
    "    edge [fontname=\"Helvetica\", fontsize=9];\n\n"

/-- A graph as a drawing, with the classes of its data if they are known. -/
def render (graph : FlowGraph) (classes : Option TemporalMap) : String :=
  header ++ String.join (graph.nodes.mapIdx (nodeLine classes)) ++
    (if graph.edges.isEmpty then "" else "\n") ++
    String.join (graph.edges.map (edgeLine classes)) ++ "\x7d\n"

end Flowgraph.Dot
