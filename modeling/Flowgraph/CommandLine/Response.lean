import Flowgraph.CommandLine.Arguments
import Flowgraph.Compile.Run
import Flowgraph.Graph.Dot
import Flowgraph.Program.Outline

/-!
# What the command answers

The command reads its source, compiles it as far as the output needs, and prints
the output, or the errors of the program in the chosen format.  It exits with 0
if the program has no errors, with 1 if it has some, and with 2 if there is no
program to look at.
-/

namespace Flowgraph.CommandLine

/-- Why a source cannot be read. -/
inductive ReadFailure where
  | notFound
  | isDirectory
  | invalidText
  | other (reason : String)
deriving DecidableEq, Repr

/-- The reason in words. -/
def ReadFailure.text : ReadFailure → String
  | notFound => "No such file or directory (os error 2)"
  | isDirectory => "Is a directory (os error 21)"
  | invalidText => "stream did not contain valid UTF-8"
  | other reason => reason

/-- What the command prints and how it exits. -/
structure Response where
  exitCode : Nat
  output : String
  errors : String
deriving DecidableEq, Repr

/-- The answer to the question for the version. -/
def versionResponse : Response :=
  ⟨0, "flowc " ++ Fingerprint.compilerVersion ++ "\n", ""⟩

/-- The answer to wrong arguments. -/
def usageResponse : Response :=
  ⟨2, "",
    "usage: flowc [--emit check|ast|graph|temporal|dot|build-info] " ++
      "[--error-format text|json] [--all] [--filename NAME] [-v] SOURCE\n"⟩

/-- The last pass that an output needs. -/
def Emit.terminal : Emit → Pass
  | graph | buildInfo => .buildGraph
  | temporal | dot => .propagate
  | check | ast => .checkRunaway

/-- The errors of a program: as text, or as records on a line each. -/
def reportErrors (format : ErrorFormat) (source : SourceFile) (found : List Diagnostic) :
    Response :=
  match format with
  | .text => ⟨1, "", String.join (found.map fun diagnostic => diagnostic.render source ++ "\n")⟩
  | .json =>
      ⟨1, String.join (found.map fun diagnostic =>
        (diagnostic.report source).record.compact ++ "\n"), ""⟩

/-- The output about a program without errors. -/
def outputOf (emit : Emit) (format : ErrorFormat) (state : Compilation) : String :=
  match emit with
  | .check => ""
  | .ast => state.program.outline ++ "\n"
  | .graph => (state.graph.map FlowGraph.text).getD ""
  | .buildInfo => (state.fingerprint.map Fingerprint.document).getD ""
  | .dot => (state.graph.map fun graph => Dot.render graph state.classes).getD ""
  | .temporal =>
      match state.graph, state.classes with
      | some graph, some classes =>
          match format with
          | .json => (Text.Json.list (classes.records graph)).indented 0 ++ "\n"
          | .text => String.join ((classes.lines graph).map (· ++ "\n"))
      | _, _ => ""

namespace Invocation

/-- The answer about a source text. -/
def respondTo (invocation : Invocation) (text : String) : Response :=
  let source : SourceFile := ⟨invocation.filename.getD invocation.path, text⟩
  match source.program with
  | .error found => reportErrors invocation.errorFormat source found
  | .ok program =>
      let start := Compilation.start source program
      if invocation.emit = .ast then ⟨0, outputOf .ast invocation.errorFormat start, ""⟩
      else
        let state := start.run invocation.all invocation.emit.terminal
        if state.failedPass.isSome then
          reportErrors invocation.errorFormat source state.diagnostics
        else ⟨0, outputOf invocation.emit invocation.errorFormat state, ""⟩

/-- The answer about the bytes of a source, or about a source that cannot be read. -/
def respond (invocation : Invocation) (contents : Except ReadFailure ByteArray) : Response :=
  let text : Except ReadFailure String :=
    contents.bind fun bytes =>
      match String.fromUTF8? bytes with
      | some text => .ok text
      | none => .error .invalidText
  match text with
  | .ok text => invocation.respondTo text
  | .error failure =>
      ⟨2, "", "flowc: error: " ++ invocation.path ++ ": " ++ failure.text ++ "\n"⟩

end Invocation

end Flowgraph.CommandLine
