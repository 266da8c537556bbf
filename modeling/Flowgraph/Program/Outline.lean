import Flowgraph.Program
import Flowgraph.Text.Outline
import Flowgraph.Text.Quoted

/-!
# The outline of a program

The outline shows the tree of a program with the span of every part.
-/

namespace Flowgraph

open Flowgraph.Text (Outline)

/-- A span in an outline: its two offsets with dots between them. -/
def Span.outline (span : Span) : Outline :=
  .leaf (toString span.start ++ ".." ++ toString span.stop)

/-- A text in an outline. -/
def Text.Outline.ofText (text : String) : Outline :=
  .leaf (Text.quoted text.toList)

/-- A name in an outline. -/
def Ident.outline (ident : Ident) : Outline :=
  .record "Ident" [("name", .ofText ident.name), ("span", ident.span.outline)]

/-- The name of a comparison in an outline. -/
def Comparison.outline : Comparison → Outline
  | assign => .leaf "Assign"
  | equal => .leaf "Eq"
  | notEqual => .leaf "Ne"
  | less => .leaf "Lt"
  | lessOrEqual => .leaf "Le"
  | greater => .leaf "Gt"
  | greaterOrEqual => .leaf "Ge"

namespace Expr

mutual

/-- A value in an outline. -/
def outline : Expr → Outline
  | number value span => .tagged "Number" [.leaf value.outlineText, span.outline]
  | string value span => .tagged "StringLit" [.ofText value, span.outline]
  | moment text span => .tagged "Moment" [.ofText text, span.outline]
  | ident name => .tagged "Ident" [name.outline]
  | call name arguments span =>
      .record "Call"
        [("name", name.outline), ("args", .list (outlines arguments)), ("span", span.outline)]
  | compare left operator right span =>
      .record "Compare"
        [("lhs", left.outline), ("op", operator.outline), ("rhs", right.outline),
          ("span", span.outline)]

/-- The values of a list in an outline. -/
def outlines : List Expr → List Outline
  | [] => []
  | value :: rest => value.outline :: outlines rest

end

end Expr

/-- An option in an outline. -/
def ProcOption.outline (option : ProcOption) : Outline :=
  .record "ProcOption"
    [("name", option.name.outline), ("value", option.value.outline),
      ("span", option.span.outline)]

/-- A proc call in an outline. -/
def ProcCall.outline (call : ProcCall) : Outline :=
  .record "ProcCall"
    [("name", call.name.outline), ("options", .list (call.options.map ProcOption.outline)),
      ("args", .list (Expr.outlines call.arguments)), ("span", call.span.outline)]

namespace Stage

mutual

/-- A stage in an outline. -/
def outline : Stage ProcCall → Outline
  | step call => .tagged "Proc" [call.outline]
  | parallel branches span =>
      .tagged "Parallel"
        [.record "ParallelBlock"
          [("branches", .list (chainOutlines branches)), ("span", span.outline)]]

/-- The stages of a chain in an outline. -/
def outlines : List (Stage ProcCall) → List Outline
  | [] => []
  | stage :: rest => stage.outline :: outlines rest

/-- Chains in an outline. -/
def chainOutlines : List (Flow ProcCall) → List Outline
  | [] => []
  | ⟨stages, span⟩ :: rest =>
      .record "Flowgraph" [("elements", .list (outlines stages)), ("span", span.outline)] ::
        chainOutlines rest

end

end Stage

/-- The outline of a program. -/
def Program.outline (program : Program) : String :=
  (Outline.record "Program"
    [("flowgraphs", .list (Stage.chainOutlines program.chains)),
      ("span", program.span.outline)]).render 0

end Flowgraph
