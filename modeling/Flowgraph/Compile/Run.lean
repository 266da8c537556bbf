import Flowgraph.Analysis.Runaway
import Flowgraph.Compile.Fingerprint
import Flowgraph.Compile.Pass
import Flowgraph.Graph.Wiring
import Flowgraph.Operator.OfCall
import Flowgraph.Program.Parse

/-!
# Compilations

A compilation takes a program through its passes and keeps what they make.  It
stops after the first pass that reports errors; what that pass has made is kept
all the same.
-/

namespace Flowgraph

/-! ## Parsing -/

/-- A fault of a program text as a diagnostic. -/
def ParseFault.diagnostic (fault : ParseFault) : Diagnostic :=
  .error .parseError fault.span fault.message

/-- The program of a source text, or all faults of the text. -/
def SourceFile.program (source : SourceFile) : Except (List Diagnostic) Program :=
  match parse source.characters with
  | ⟨some program, []⟩ => .ok program
  | ⟨none, []⟩ =>
      .error [.error .parseError (.empty source.length) "could not parse program"]
  | ⟨_, faults⟩ => .error (faults.map ParseFault.diagnostic)

/-! ## Running passes -/

/-- What the passes of a compilation have made, and what they have reported. -/
structure Compilation where
  source : SourceFile
  program : Program
  lowered : Option (List (Flow Operator)) := none
  graph : Option FlowGraph := none
  fingerprint : Option Fingerprint := none
  classes : Option TemporalMap := none
  violations : Option (List Violation) := none
  /-- Each pass that has run, with the errors it reported. -/
  reports : List (Pass × List Diagnostic) := []
  /-- All errors that were reported. -/
  diagnostics : List Diagnostic := []
  /-- Whether any pass has reported errors. -/
  hasError : Bool := false
  /-- The last pass that has run, if it has failed. -/
  failedPass : Option Pass := none

namespace Compilation

/-- A compilation before its first pass. -/
def start (source : SourceFile) (program : Program) : Compilation :=
  { source, program }

/-- The diagnostics of violations: of the first one, or of all. -/
def reported (allViolations : Bool) (found : List Violation) : List Diagnostic :=
  (if allViolations then found else found.take 1).map Violation.diagnostic

/-- What a pass makes of what is there, and the errors it reports. -/
def perform (allViolations : Bool) (state : Compilation) (pass : Pass) :
    Compilation × List Diagnostic :=
  match pass with
  | .lower =>
      let result := state.program.operators
      ({ state with lowered := some result.value }, result.diagnostics)
  | .buildGraph =>
      match state.lowered with
      | none => (state, [])
      | some chains =>
          let result := FlowGraph.ofProgram state.source chains
          ({ state with
              graph := some result.value
              fingerprint := some (.ofGraph state.source.text result.value) },
            result.diagnostics)
  | .propagate =>
      match state.graph with
      | none => (state, [])
      | some graph => ({ state with classes := graph.propagate? }, [])
  | .checkRunaway =>
      match state.graph, state.classes with
      | some graph, some classes =>
          let found := graph.violations classes
          ({ state with violations := some found }, reported allViolations found)
      | _, _ => (state, [])

/-- Note what a pass has reported; it has failed if there is anything. -/
def finishPass (state : Compilation) (pass : Pass) (found : List Diagnostic) : Compilation :=
  { state with
    reports := state.reports ++ [(pass, found)]
    diagnostics := state.diagnostics ++ found
    hasError := state.hasError || !found.isEmpty
    failedPass := if found.isEmpty then none else some pass }

/-- Run a pass and note what it reports. -/
def runPass (allViolations : Bool) (state : Compilation) (pass : Pass) : Compilation :=
  let (next, found) := state.perform allViolations pass
  next.finishPass pass found

/-- Run passes in order up to the first that fails. -/
def runPasses (allViolations : Bool) (state : Compilation) : List Pass → Compilation
  | [] => state
  | pass :: rest =>
      let next := state.runPass allViolations pass
      if next.failedPass.isSome then next else next.runPasses allViolations rest

/-- Run all passes that a pass requires, and the pass itself. -/
def run (allViolations : Bool) (terminal : Pass) (state : Compilation) : Compilation :=
  state.runPasses allViolations terminal.required

end Compilation

/-! ## Compiling -/

/-- Why a program does not compile. -/
inductive CompileError where
  /-- Errors of the text, of single procs or of the way they are put together. -/
  | diagnostics (found : List Diagnostic)
  | runaway (report : ErrorReport)
  /-- The operators wait for each other in a circle; the graph of a program never has one. -/
  | cyclic

/-- The message about a program that does not compile. -/
def CompileError.message : CompileError → String
  | diagnostics found =>
      toString found.length ++ " error(s): " ++ ((found.head?.map Diagnostic.message).getD "")
  | runaway report => report.code ++ ": " ++ report.message
  | cyclic => "operator graph must be acyclic"

/-- The graph of a program that compiles, or why it does not. -/
def compile (source : SourceFile) : Except CompileError FlowGraph :=
  match source.program with
  | .error found => .error (.diagnostics found)
  | .ok program =>
      let state := (Compilation.start source program).run false .buildGraph
      match state.failedPass, state.graph with
      | none, some graph =>
          match graph.analyze? with
          | some (.ok checked) => .ok checked
          | some (.error report) => .error (.runaway report)
          | none => .error .cyclic
      | _, _ => .error (.diagnostics state.diagnostics)

/-- Compile a text that has no name of its own. -/
def compileText (text : String) : Except CompileError FlowGraph :=
  compile (.unnamed text)

end Flowgraph
