import Flowgraph.Main
import Flowgraph.Proofs.Graph.Order
import Flowgraph.Proofs.Analysis.Classes
import Flowgraph.Proofs.Analysis.Merging
import Flowgraph.Proofs.Analysis.Blame
import Flowgraph.Proofs.Analysis.RunawayCheck
import Flowgraph.Proofs.Analysis.Evaluation
import Flowgraph.Proofs.Program.Grammar
import Flowgraph.Proofs.Program.Unambiguous
import Flowgraph.Proofs.Program.Reading
import Flowgraph.Proofs.Program.Acceptance
import Flowgraph.Proofs.Token.Slices
import Flowgraph.Proofs.Program.Parsing
import Flowgraph.Proofs.Analysis.Embedding
import Flowgraph.Proofs.Compile.Layout
import Flowgraph.Proofs.Program.Joining
import Flowgraph.Proofs.Source.Joining
import Flowgraph.Proofs.Compile.Verdict
import Flowgraph.Proofs.Program.Relocation
import Flowgraph.Proofs.Program.Continuation
import Flowgraph.Proofs.Program.Placement
import Flowgraph.Proofs.Token.Lexing
import Flowgraph.Proofs.Token.Joining
import Flowgraph.Proofs.Operator.Relocation
import Flowgraph.Proofs.Graph.Relocation
import Flowgraph.Proofs.Graph.Wiring
import Flowgraph.Proofs.Analysis.LivePath
import Flowgraph.Proofs.Compile.Composition
import Flowgraph.Proofs.Token.LongestMatch
import Flowgraph.Proofs.Token.Division
import Flowgraph.Proofs.Operator.Validity
import Flowgraph.Proofs.Source.Guarded
import Flowgraph.Proofs.Program.Spans
import Flowgraph.Proofs.Analysis.Guarded
import Flowgraph.Proofs.Operator.Places
import Flowgraph.Proofs.Time.Guarded
import Flowgraph.Proofs.Program.Guarded
import Flowgraph.Proofs.Graph.Guarded
import Flowgraph.Proofs.Compile.Guarded
import Flowgraph.Proofs.Compile.Fingerprint
import Flowgraph.Proofs.Compile.Pipeline
import Flowgraph.Proofs.Graph.LeastOrder
import Flowgraph.Proofs.Analysis.Remedy
import Flowgraph.Proofs.Compile.Passes
import Flowgraph.Proofs.Analysis.Solution
import Flowgraph.Proofs.Source.Positions
import Flowgraph.Proofs.Program.Extents
import Flowgraph.Proofs.Operator.ReadBack
import Flowgraph.Proofs.Operator.DateLiterals
import Flowgraph.Proofs.Operator.Quantities
import Flowgraph.Proofs.Graph.Drawing
import Flowgraph.Proofs.Time.DayCount
import Flowgraph.Proofs.Time.ExactText
import Flowgraph.Proofs.Token.Strings
import Flowgraph.Proofs.Graph.Labels
import Flowgraph.Proofs.Analysis.Naming
import Flowgraph.Proofs.Compile.Naming
import Flowgraph.Proofs.Text.Json
import Flowgraph.Proofs.CommandLine.Answers
