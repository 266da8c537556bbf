import Flowgraph.Digest.Sha256
import Flowgraph.Graph.Basic
import Flowgraph.Text.Split

/-!
# Fingerprints of programs

A fingerprint tells two builds apart: it holds a digest of the program text and
one of its meaning.  The meaning is the graph as text, followed by the text of
every proc, so that names, fields and expressions count that the graph does not
show.
-/

namespace Flowgraph

/-- The digests of a program. -/
structure Fingerprint where
  sourceHash : String
  graphHash : String
deriving DecidableEq, Repr

namespace Fingerprint

/-- The version that built the program. -/
def compilerVersion : String := "0.1.0"

/-- The text of a proc without the blanks it ends with; none if the place is not in the text. -/
def procText (text : List Char) (location : Location) : List Char :=
  Text.trimEnd ((Text.slice? text location.start.offset location.stop.offset).getD [])

/-- What the digest of the meaning is taken of: the graph, then each proc on a line. -/
def meaning (text : String) (graph : FlowGraph) : String :=
  let characters := text.toList
  graph.text ++
    String.join (graph.nodes.map fun node =>
      String.ofList (procText characters node.location) ++ "\n")

/-- The fingerprint of a program text and its graph. -/
def ofGraph (text : String) (graph : FlowGraph) : Fingerprint where
  sourceHash := Digest.Sha256.ofText text
  graphHash := Digest.Sha256.ofText (meaning text graph)

/-- The record of a fingerprint. -/
def record (fingerprint : Fingerprint) : Text.Json :=
  .object [("source_hash", .text fingerprint.sourceHash),
    ("graph_fingerprint", .text fingerprint.graphHash),
    ("compiler_version", .text compilerVersion)]

/-- The record of a fingerprint as a document of its own. -/
def document (fingerprint : Fingerprint) : String :=
  fingerprint.record.indented 0 ++ "\n"

end Fingerprint

end Flowgraph
