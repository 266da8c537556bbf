import Flowgraph.Chain
import Flowgraph.Token

/-!
# Programs as they are written

A program is a list of chains of procs.  A proc call has options and arguments;
both keep the order in which they are written, each in a list of its own.
-/

namespace Flowgraph

/-- A name and its place. -/
structure Ident where
  name : String
  span : Span
deriving DecidableEq, Repr, Inhabited

/-- A value in a program. -/
inductive Expr where
  | number (value : Number.Binary64) (span : Span)
  | string (value : String) (span : Span)
  /-- The text between two colons: a moment or a duration. -/
  | moment (text : String) (span : Span)
  | ident (ident : Ident)
  | call (name : Ident) (arguments : List Expr) (span : Span)
  | compare (left : Expr) (operator : Comparison) (right : Expr) (span : Span)

/-- The place of a value. -/
def Expr.span : Expr → Span
  | number _ span => span
  | string _ span => span
  | moment _ span => span
  | ident name => name.span
  | call _ _ span => span
  | compare _ _ _ span => span

/-- An option and its value; the dash is not part of the name, but of its place. -/
structure ProcOption where
  name : Ident
  value : Expr
  span : Span

/--
A proc with its options and arguments.  Its span runs over the blanks and
comments that follow it.
-/
structure ProcCall where
  name : Ident
  options : List ProcOption
  arguments : List Expr
  span : Span

/-- The first option with a name. -/
def ProcCall.option? (call : ProcCall) (name : String) : Option ProcOption :=
  call.options.find? fun option => option.name.name == name

/-- A whole program. -/
structure Program where
  chains : List (Flow ProcCall)
  span : Span

end Flowgraph
