import Flowgraph.Source

/-!
# Diagnostics

A diagnostic says why a program is rejected and where.  It may point to related
places, list the causes that led to it, and hint at a remedy.  It is shown as
text, or given to another program as a record with its code, message and place.
-/

namespace Flowgraph

/-- The kinds of errors; each has a fixed name that other programs may rely on. -/
inductive DiagnosticCode where
  | parseError
  | unknownProc
  | unknownOption
  | duplicateOption
  | invalidOptionValue
  | missingOption
  | incompatibleOptions
  | missingArgument
  | invalidArgument
  | misplacedSource
  | missingSource
  | runawayProgram
deriving DecidableEq, Repr

namespace DiagnosticCode

/-- The fixed name of a code. -/
def text : DiagnosticCode → String
  | parseError => "PARSE-ERROR"
  | unknownProc => "UNKNOWN-PROC"
  | unknownOption => "UNKNOWN-OPTION"
  | duplicateOption => "DUPLICATE-OPTION"
  | invalidOptionValue => "INVALID-OPTION-VALUE"
  | missingOption => "MISSING-OPTION"
  | incompatibleOptions => "INCOMPATIBLE-OPTIONS"
  | missingArgument => "MISSING-ARGUMENT"
  | invalidArgument => "INVALID-ARGUMENT"
  | misplacedSource => "MISPLACED-SOURCE"
  | missingSource => "MISSING-SOURCE"
  | runawayProgram => "RUNAWAY-PROGRAM"

/-- Every code, in the order of the phases that report them. -/
def all : List DiagnosticCode :=
  [parseError, unknownProc, unknownOption, duplicateOption, invalidOptionValue, missingOption,
    incompatibleOptions, missingArgument, invalidArgument, misplacedSource, missingSource,
    runawayProgram]

/-- The code with a given name. -/
def ofText? (name : String) : Option DiagnosticCode :=
  all.find? fun code => code.text == name

end DiagnosticCode

/-- A place beside the primary one, and what is to be seen there. -/
structure RelatedSpan where
  span : Span
  label : String
deriving DecidableEq, Repr

/-- One step of the explanation of an error, with its place if it has one. -/
structure Cause where
  message : String
  span : Option Span
deriving DecidableEq, Repr

/-- An error in a program. -/
structure Diagnostic where
  code : Option DiagnosticCode
  span : Span
  message : String
  hint : Option String := none
  related : List RelatedSpan := []
  causes : List Cause := []
deriving DecidableEq, Repr

/-- What another program is told about an error. -/
structure ErrorReport where
  code : String
  message : String
  location : Location
deriving DecidableEq, Repr

namespace ErrorReport

/-- The record of a report. -/
def record (report : ErrorReport) : Text.Json :=
  .object [("code", .text report.code), ("message", .text report.message),
    ("info", .object [("location", report.location.record)])]

end ErrorReport

namespace Diagnostic

/-- An error with a code. -/
def error (code : DiagnosticCode) (span : Span) (message : String) : Diagnostic :=
  { code := some code, span, message }

/-- The error with another code. -/
def withCode (diagnostic : Diagnostic) (code : DiagnosticCode) : Diagnostic :=
  { diagnostic with code := some code }

/-- The error with a hint at a remedy. -/
def withHint (diagnostic : Diagnostic) (hint : String) : Diagnostic :=
  { diagnostic with hint := some hint }

/-- The error with one more related place. -/
def withRelated (diagnostic : Diagnostic) (span : Span) (label : String) : Diagnostic :=
  { diagnostic with related := diagnostic.related ++ [⟨span, label⟩] }

/-- The error with one more cause. -/
def withCause (diagnostic : Diagnostic) (message : String) (span : Option Span) : Diagnostic :=
  { diagnostic with causes := diagnostic.causes ++ [⟨message, span⟩] }

/-- The code in brackets, if there is one, and the message. -/
def headline (diagnostic : Diagnostic) : String :=
  match diagnostic.code with
  | some code => "error[" ++ code.text ++ "]: " ++ diagnostic.message
  | none => "error: " ++ diagnostic.message

/-- The error without places: its headline and its hint. -/
def summary (diagnostic : Diagnostic) : String :=
  diagnostic.headline ++
    (match diagnostic.hint with
      | some hint => "\n  hint: " ++ hint
      | none => "")

/-- A related place as a line of the full text. -/
def relatedLine (source : SourceFile) (related : RelatedSpan) : String :=
  "\n  = note: " ++ related.label ++ " (" ++ (source.location related.span).text ++ ")"

/-- A cause as a line of the full text. -/
def causeLine (source : SourceFile) (cause : Cause) : String :=
  "\n  = cause: " ++ cause.message ++
    (match cause.span with
      | some span => " (" ++ (source.location span).text ++ ")"
      | none => "")

/-- The full text of an error: headline, place, related places, causes and hint. -/
def render (diagnostic : Diagnostic) (source : SourceFile) : String :=
  diagnostic.headline ++ "\n  --> " ++ (source.location diagnostic.span).text ++
    String.join (diagnostic.related.map (relatedLine source)) ++
    String.join (diagnostic.causes.map (causeLine source)) ++
    (match diagnostic.hint with
      | some hint => "\n  = hint: " ++ hint
      | none => "")

/-- The report of an error; one without a code is reported as `ERROR`. -/
def report (diagnostic : Diagnostic) (source : SourceFile) : ErrorReport where
  code := (diagnostic.code.map DiagnosticCode.text).getD "ERROR"
  message := diagnostic.message
  location := source.location diagnostic.span

end Diagnostic

end Flowgraph
