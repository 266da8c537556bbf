import Flowgraph.Graph.Basic
import Flowgraph.Proofs.Operator.Text

/-!
# The text of a graph

The text of a graph has a line for each node and each edge.  A line begins with the name of
a node; the word after it tells a node from an edge, since no proc has an arrow for a name.
From its text a graph is known but for the byte offsets of its locations, of which only
lines and columns are shown (`FlowGraph.text_append_inj`).
-/

namespace Flowgraph

open Text

/-! ## Locations -/

/-- The location with lines and columns only. -/
def Location.withoutOffsets (location : Location) : Location where
  filename := location.filename
  start := ⟨location.start.line, location.start.column, 0⟩
  stop := ⟨location.stop.line, location.stop.column, 0⟩

/-- What is shown of a location behind the name of the text, as fields with marks. -/
def Location.fields (location : Location) : List (List Char × Char) :=
  [([], ':'), ((toString location.start.line).toList, ':'),
    ((toString location.start.column).toList, '-'), ((toString location.stop.line).toList, ':'),
    ((toString location.stop.column).toList, '\n')]

theorem Location.toList_text (location : Location) :
    (location.text ++ "\n").toList = location.filename.toList ++ marked location.fields := by
  simp [text, fields]

theorem Location.marks_fields (location : Location) :
    marks location.fields = [(':', 0), (':', 0), ('-', 0), (':', 0), ('\n', 0)] := by
  simp only [fields, marks_cons, marks_nil, List.count_nil,
    count_toString _ (show ':'.isDigit = false from rfl),
    count_toString _ (show '-'.isDigit = false from rfl),
    count_toString _ (show '\n'.isDigit = false from rfl)]

/-- A location is known, but for the offsets, from a text that begins with it. -/
theorem Location.fields_append_inj {location other : Location} {rest more : List Char}
    (sameName : location.filename = other.filename)
    (same : marked location.fields ++ rest = marked other.fields ++ more) :
    location.withoutOffsets = other.withoutOffsets ∧ rest = more := by
  obtain ⟨sameFields, rests⟩ :=
    marked_append_inj (location.marks_fields.trans other.marks_fields.symm) same
  simp only [fields, List.cons.injEq, Prod.mk.injEq, and_true, true_and] at sameFields
  obtain ⟨startLine, startColumn, stopLine, stopColumn⟩ := sameFields
  rw [withoutOffsets, withoutOffsets, sameName, toString_inj startLine, toString_inj startColumn,
    toString_inj stopLine, toString_inj stopColumn]
  exact ⟨rfl, rests⟩

/-! ## Nodes -/

theorem OperatorKind.name_inj :
    ∀ first second : OperatorKind, first.name = second.name → first = second := by
  intro first second
  cases first <;> cases second <;> decide

theorem OperatorKind.count_name (kind : OperatorKind) : kind.name.toList.count '>' = 0 := by
  cases kind <;> decide

/-- The node with lines and columns only. -/
def Node.withoutOffsets (node : Node) : Node :=
  { node with location := node.location.withoutOffsets }

/-- What the line of a node says after its name. -/
def Node.description (node : Node) : List Char :=
  '<' :: (node.kind.name.toList ++ '>' :: ' ' ::
    ((node.options.given.flatMap fun option => marked option.fields) ++ '@' :: ' ' ::
      (node.location.filename.toList ++ marked node.location.fields)))

/-- A node that is made of the call of a proc in a text of a name. -/
structure Node.Proper (filename : String) (node : Node) : Prop where
  noSpace : node.name.toList.count ' ' = 0
  noArrow : node.name ≠ "->"
  options : node.options.IsWhole
  location : node.location.filename = filename

/-- What the line of a node says is known from a text that begins with it. -/
theorem Node.description_append_inj {filename : String} {node other : Node}
    {rest more : List Char} (proper : node.Proper filename) (properOther : other.Proper filename)
    (sameName : node.name = other.name)
    (same : node.description ++ rest = other.description ++ more) :
    node.withoutOffsets = other.withoutOffsets ∧ rest = more := by
  simp only [description, List.cons_append, List.append_assoc, List.cons.injEq, true_and,
    proper.location, properOther.location] at same
  obtain ⟨kinds, same⟩ := append_mark_inj
    (node.kind.count_name.trans other.kind.count_name.symm) same
  obtain ⟨options, same⟩ := OperatorOptions.given_append_inj (List.cons.inj same).2
  obtain ⟨location, rests⟩ := Location.fields_append_inj
    (proper.location.trans properOther.location.symm)
    (List.append_cancel_left (List.cons.inj same).2)
  rw [withoutOffsets, withoutOffsets, location, sameName,
    OperatorKind.name_inj _ _ (String.toList_inj.mp kinds),
    OperatorOptions.given_inj proper.options properOther.options options]
  exact ⟨rfl, rests⟩

/-! ## Lines -/

/-- What a line of the text of a graph is about. -/
inductive GraphLine where
  | node (place : Nat) (content : Node)
  | edge (content : Edge)

namespace GraphLine

def text : GraphLine → String
  | node place content => FlowGraph.nodeLine place content
  | edge content => FlowGraph.edgeLine content

/-- A line about an edge, or about a node made of a call. -/
def Proper (filename : String) : GraphLine → Prop
  | node _ content => content.Proper filename
  | edge _ => True

def withoutOffsets : GraphLine → GraphLine
  | node place content => node place content.withoutOffsets
  | edge content => edge content

/-- The place of the node whose name begins the line. -/
def place : GraphLine → Nat
  | node place _ => place
  | edge content => content.source

/-- The word behind the name of a node: the name of a proc or an arrow. -/
def word : GraphLine → String
  | node _ content => content.name
  | edge _ => "->"

/-- What follows the word. -/
def description : GraphLine → List Char
  | node _ content => content.description
  | edge content => marked [('n' :: (toString content.target).toList, '\n')]

/-- The node that a line is about. -/
def node? : GraphLine → Option Node
  | node _ content => some content
  | edge _ => none

/-- The edge that a line is about. -/
def edge? : GraphLine → Option Edge
  | node .. => none
  | edge content => some content

theorem toList_text (line : GraphLine) :
    line.text.toList =
      marked [('n' :: (toString line.place).toList, ' '), (line.word.toList, ' ')] ++
        line.description := by
  cases line with
  | node place content =>
      have options (rest : List Char) :
          (if content.options.isEmpty then "" else " " ++ content.options.text).toList ++
              (" @ ".toList ++ rest) =
            ' ' :: ((content.options.given.flatMap fun option => marked option.fields) ++
              '@' :: ' ' :: rest) := by
        rw [← List.append_assoc, ← String.toList_append, content.options.toList_text]
        simp
      have location := content.location.toList_text
      rw [String.toList_append] at location
      simp only [text, FlowGraph.nodeLine, FlowGraph.nodeName, String.toList_append,
        List.append_assoc, options]
      simp [GraphLine.place, word, description, Node.description, ← location]
  | edge content =>
      simp [text, FlowGraph.edgeLine, FlowGraph.nodeName, GraphLine.place, word, description]

theorem count_word {filename : String} {line : GraphLine} (proper : line.Proper filename) :
    line.word.toList.count ' ' = 0 := by
  cases line with
  | node place content => exact proper.noSpace
  | edge content =>
      rw [word]
      decide

/-- A line is known, but for the offsets, from a text that begins with it. -/
theorem text_append_inj {filename : String} ⦃line other : GraphLine⦄ ⦃rest more : List Char⦄
    (proper : line.Proper filename) (properOther : other.Proper filename)
    (same : line.text.toList ++ rest = other.text.toList ++ more) :
    line.withoutOffsets = other.withoutOffsets ∧ rest = more := by
  rw [toList_text, toList_text, List.append_assoc, List.append_assoc] at same
  obtain ⟨words, same⟩ := marked_append_inj (by
    simp only [marks_cons, count_word proper, count_word properOther, List.count_cons,
      count_toString _ (show ' '.isDigit = false from rfl)]) same
  simp only [List.cons.injEq, Prod.mk.injEq, and_true, true_and] at words
  obtain ⟨places, words⟩ := words
  have places := toString_inj places
  have words := String.toList_inj.mp words
  cases line with
  | node place content =>
      cases other with
      | node placeOther contentOther =>
          obtain ⟨contents, rests⟩ := Node.description_append_inj proper properOther words same
          cases places
          rw [withoutOffsets, withoutOffsets, contents]
          exact ⟨rfl, rests⟩
      | edge contentOther => exact absurd words proper.noArrow
  | edge content =>
      cases other with
      | node placeOther contentOther => exact absurd words.symm properOther.noArrow
      | edge contentOther =>
          obtain ⟨targets, rests⟩ := marked_append_inj (by
            simp only [marks_cons, List.count_cons,
              count_toString _ (show '\n'.isDigit = false from rfl)]) same
          simp only [List.cons.injEq, Prod.mk.injEq, and_true, true_and] at targets
          have targets := toString_inj targets
          cases content
          cases contentOther
          cases places
          cases targets
          exact ⟨rfl, rests⟩

end GraphLine

/-! ## Graphs -/

namespace FlowGraph

/-- The graph with lines and columns only. -/
def withoutOffsets (graph : FlowGraph) : FlowGraph :=
  { graph with nodes := graph.nodes.map Node.withoutOffsets }

/-- The lines of the text, those of the nodes first. -/
def lines (graph : FlowGraph) : List GraphLine :=
  graph.nodes.mapIdx GraphLine.node ++ graph.edges.map GraphLine.edge

theorem toList_text (graph : FlowGraph) :
    graph.text.toList = graph.lines.flatMap fun line => line.text.toList := by
  have nodes : graph.nodes.mapIdx nodeLine =
      (graph.nodes.mapIdx GraphLine.node).map GraphLine.text := by
    rw [List.mapIdx_eq_zipIdx_map, List.mapIdx_eq_zipIdx_map, List.map_map]
    rfl
  have edges : graph.edges.map edgeLine = (graph.edges.map GraphLine.edge).map GraphLine.text := by
    rw [List.map_map]
    rfl
  rw [text, String.toList_append, String.toList_join, String.toList_join, nodes, edges, lines,
    List.flatMap_append, List.flatMap_map, List.flatMap_map]

/-- The nodes and edges are those of the lines. -/
theorem withoutOffsets_inj_of_lines {graph other : FlowGraph}
    (same : graph.lines.map GraphLine.withoutOffsets = other.lines.map GraphLine.withoutOffsets) :
    graph.withoutOffsets = other.withoutOffsets := by
  have nodes (all : FlowGraph) :
      (all.lines.map GraphLine.withoutOffsets).filterMap GraphLine.node? =
        all.nodes.map Node.withoutOffsets := by
    have contents : (all.nodes.zipIdx.map Prod.fst).map Node.withoutOffsets =
        all.nodes.map Node.withoutOffsets := by
      rw [List.zipIdx_map_fst]
    rw [← contents]
    simp [lines, List.filterMap_map, List.mapIdx_eq_zipIdx_map, GraphLine.withoutOffsets,
      GraphLine.node?, -List.zipIdx_map_fst, Function.comp_def]
  have edges (all : FlowGraph) :
      (all.lines.map GraphLine.withoutOffsets).filterMap GraphLine.edge? = all.edges := by
    simp [lines, List.filterMap_map, List.mapIdx_eq_zipIdx_map, GraphLine.withoutOffsets,
      GraphLine.edge?, Function.comp_def]
  rw [withoutOffsets, withoutOffsets, ← nodes graph, ← nodes other, ← edges graph, ← edges other,
    same]

/--
A graph is known, but for the offsets, from a text that begins with the text of the graph
and does not go on with the name of a node.
-/
theorem text_append_inj {filename : String} {graph other : FlowGraph} {rest more : List Char}
    (proper : ∀ node ∈ graph.nodes, node.Proper filename)
    (properOther : ∀ node ∈ other.nodes, node.Proper filename)
    (ends : rest.head? ≠ some 'n') (endsOther : more.head? ≠ some 'n')
    (same : graph.text.toList ++ rest = other.text.toList ++ more) :
    graph.withoutOffsets = other.withoutOffsets ∧ rest = more := by
  have properLines {all : FlowGraph} (nodes : ∀ node ∈ all.nodes, node.Proper filename) :
      ∀ line ∈ all.lines, line.Proper filename := by
    intro line member
    rcases List.mem_append.mp member with isNode | isEdge
    · obtain ⟨place, bound, rfl⟩ := List.mem_mapIdx.mp isNode
      exact nodes _ (List.getElem_mem bound)
    · obtain ⟨edge, -, rfl⟩ := List.mem_map.mp isEdge
      trivial
  rw [toList_text, toList_text] at same
  obtain ⟨lines, rests⟩ := flatMap_append_inj GraphLine.withoutOffsets (·.head? ≠ some 'n')
    GraphLine.text_append_inj (fun line after => by simp [GraphLine.toList_text])
    (properLines proper) (properLines properOther) ends endsOther same
  exact ⟨withoutOffsets_inj_of_lines lines, rests⟩

end FlowGraph

end Flowgraph
