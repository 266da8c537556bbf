import Flowgraph.CommandLine.Response
import Flowgraph.Proofs.Compile.Naming
import Flowgraph.Proofs.Compile.Verdict
import Flowgraph.Proofs.Text.Json

/-!
# The answers of the command

What the command says about a text depends on four choices, of which only one, the output, says
how far the text is compiled.  The others say how errors are reported: in which format, under
which name, and whether all violations are.  So the verdict is the one of the library, whatever
the others are (`verdict_ignores_reporting`).

Two things make it so.  No pass looks at the name of the source, and asking for all violations
adds to what the last pass reports, but neither makes it fail nor lets it succeed.
-/

namespace Flowgraph.CommandLine

/-! ## Verdicts of the library -/

/-- The diagnostics about a source that is compiled as far as an output needs. -/
def Emit.diagnostics (emit : Emit) (allViolations : Bool) (source : SourceFile) :
    List Diagnostic :=
  match source.program with
  | .error found => found
  | .ok program =>
      if emit = .ast then []
      else ((Compilation.start source program).run allViolations emit.terminal).diagnostics

/-- A source is parsed, and the passes that an output needs, if it needs any, succeed. -/
def Emit.Succeeds (emit : Emit) (allViolations : Bool) (source : SourceFile) : Prop :=
  ∃ program, source.program = .ok program ∧
    (emit = .ast ∨
      ((Compilation.start source program).run allViolations emit.terminal).failedPass = none)

namespace Emit

variable (emit : Emit) (allViolations : Bool) (source : SourceFile)

/-- Nothing is reported exactly if the stage that is asked for succeeds. -/
theorem diagnostics_eq_nil_iff :
    emit.diagnostics allViolations source = [] ↔ emit.Succeeds allViolations source := by
  unfold diagnostics Succeeds
  cases parsed : source.program with
  | error found => simpa using SourceFile.ne_nil_of_program_eq_error parsed
  | ok program =>
      by_cases isAst : emit = .ast
      · simp [isAst]
      · simp [isAst, Compilation.diagnostics_run_eq_nil_iff]

/-- Asking for all violations reports more behind what is reported else. -/
theorem diagnostics_prefix : emit.diagnostics false source <+: emit.diagnostics true source := by
  unfold diagnostics
  cases source.program with
  | error found => exact List.prefix_rfl
  | ok program =>
      simp only
      split
      · exact List.prefix_rfl
      · exact Compilation.diagnostics_run_prefix source program emit.terminal

/-- Whether a stage succeeds does not depend on whether all violations are asked for. -/
theorem succeeds_all (other : Bool) :
    emit.Succeeds allViolations source ↔ emit.Succeeds other source := by
  simp only [Succeeds, Compilation.failedPass_run]

/-- The check succeeds exactly for the programs that compile. -/
theorem succeeds_check_iff :
    Succeeds .check false source ↔ ∃ graph, compile source = .ok graph := by
  rw [exists_compile_iff]
  simp [Succeeds, terminal]

variable {source} {second : SourceFile} (sameText : second.text = source.text)

include sameText

/-- What is reported does not depend on the name of the source. -/
theorem diagnostics_of_text :
    emit.diagnostics allViolations second = emit.diagnostics allViolations source := by
  unfold diagnostics
  rw [SourceFile.program_of_text sameText]
  cases source.program with
  | error found => rfl
  | ok program => simp only [Compilation.diagnostics_run_of_text sameText]

/-- Whether a stage succeeds does not depend on the name of the source. -/
theorem succeeds_of_text :
    emit.Succeeds allViolations second ↔ emit.Succeeds allViolations source := by
  simp only [Succeeds, SourceFile.program_of_text sameText,
    Compilation.failedPass_run_of_text sameText]

end Emit

/-! ## Reports -/

/--
A response that reports diagnostics and prints nothing else: as text on the standard error, or
on the standard output as records, each on a line of its own.
-/
structure Reports (response : Response) (format : ErrorFormat) (source : SourceFile)
    (found : List Diagnostic) : Prop where
  exitCode : response.exitCode = 1
  nonempty : found ≠ []
  asText : format = .text → response.output = "" ∧
    response.errors = String.join (found.map fun diagnostic => diagnostic.render source ++ "\n")
  asRecords : format = .json → response.errors = "" ∧
    ∃ records : List String,
      records = (found.map fun diagnostic => (diagnostic.report source).record.compact) ∧
        (∀ record ∈ records, '\n' ∉ record.toList) ∧
        response.output = String.join (records.map (· ++ "\n"))

/-- Errors are reported on their own channel and nowhere else. -/
theorem reports_reportErrors (format : ErrorFormat) (source : SourceFile)
    {found : List Diagnostic} (nonempty : found ≠ []) :
    Reports (reportErrors format source found) format source found where
  exitCode := by cases format <;> rfl
  nonempty := nonempty
  asText := by
    rintro rfl
    exact ⟨rfl, rfl⟩
  asRecords := by
    rintro rfl
    refine ⟨rfl, _, rfl, ?_, ?_⟩
    · rw [List.forall_mem_map]
      exact fun diagnostic _ => (Text.Json.oneLine_compact _).newline_notMem
    · rw [List.map_map]
      rfl

/-- The answer about a text: it succeeds, or it reports the diagnostics about the source. -/
theorem respondTo_verdict (invocation : Invocation) (text : String) {source : SourceFile}
    (isSource : source = ⟨invocation.filename.getD invocation.path, text⟩) :
    invocation.emit.Succeeds invocation.all source ∧
        (invocation.respondTo text).exitCode = 0 ∨
      ¬ invocation.emit.Succeeds invocation.all source ∧
        Reports (invocation.respondTo text) invocation.errorFormat source
          (invocation.emit.diagnostics invocation.all source) := by
  rw [← Emit.diagnostics_eq_nil_iff]
  simp only [Invocation.respondTo, Emit.diagnostics, ← isSource]
  cases parsed : source.program with
  | error found =>
      have nonempty := SourceFile.ne_nil_of_program_eq_error parsed
      exact .inr ⟨nonempty, reports_reportErrors _ source nonempty⟩
  | ok program =>
      by_cases isAst : invocation.emit = .ast
      · exact .inl ⟨by simp [isAst], by simp [isAst]⟩
      · simp only [if_neg isAst]
        split
        · rename_i failed
          have nonempty : ((Compilation.start source program).run invocation.all
              invocation.emit.terminal).diagnostics ≠ [] := by
            rw [Ne, Compilation.diagnostics_run_eq_nil_iff]
            exact Option.isSome_iff_ne_none.mp failed
          exact .inr ⟨nonempty, reports_reportErrors _ source nonempty⟩
        · rename_i passed
          refine .inl ⟨?_, rfl⟩
          rw [Compilation.diagnostics_run_eq_nil_iff]
          exact Option.not_isSome_iff_eq_none.mp passed

/-! ## Arguments -/

/-- An output as the value of `--emit`. -/
def Emit.text : Emit → String
  | check => "check"
  | ast => "ast"
  | graph => "graph"
  | temporal => "temporal"
  | dot => "dot"
  | buildInfo => "build-info"

theorem Emit.ofText?_text (emit : Emit) : Emit.ofText? emit.text = some emit := by
  cases emit <;> rfl

/-- A format as the value of `--error-format`. -/
def ErrorFormat.argument : ErrorFormat → String
  | text => "text"
  | json => "json"

theorem ErrorFormat.ofText?_argument (format : ErrorFormat) :
    ErrorFormat.ofText? format.argument = some format := by
  cases format <;> rfl

/-- The name of an option that takes a value. -/
def ValueOption.name : ValueOption → String
  | emit => "emit"
  | errorFormat => "error-format"
  | filename => "filename"

theorem ValueOption.ofName?_name (option : ValueOption) :
    ValueOption.ofName? option.name = some option := by
  cases option <;> rfl

/-- An argument is split at the first separator. -/
theorem splitAtFirst_append {separator : Char} {before : List Char}
    (absent : separator ∉ before) (after : List Char) :
    Text.splitAtFirst separator (before ++ separator :: after) = (before, some after) := by
  have passes : ∀ c ∈ before, (c != separator) = true := by
    intro c member
    exact bne_iff_ne.mpr fun same => absent (same ▸ member)
  rw [Text.splitAtFirst, List.takeWhile_append_of_pos passes, List.dropWhile_append_of_pos passes]
  simp

/-- An argument with the name of an option and a value gives the option the value. -/
theorem Given.add_option {given : Given} (ready : given.pending = none)
    (mayName : given.onlySources = false) (option : ValueOption) (value : String) :
    given.add ("--" ++ option.name ++ "=" ++ value) = orUsage (given.addValue? option value) := by
  have characters : ("--" ++ option.name ++ "=" ++ value).toList =
      '-' :: '-' :: (option.name.toList ++ '=' :: value.toList) := by
    simp [String.toList_append]
  have absent : '=' ∉ option.name.toList := by
    cases option <;> decide
  have named : given.addNamed option.name (some value) =
      orUsage (given.addValue? option value) := by
    simp only [addNamed, option.ofName?_name]
  obtain ⟨first, rest, name⟩ : ∃ first rest, option.name.toList = first :: rest := by
    cases option <;> exact ⟨_, _, rfl⟩
  have divided := splitAtFirst_append absent value.toList
  rw [name, List.cons_append] at divided characters
  simp only [add, ready, characters, mayName, Bool.false_eq_true, if_false, divided]
  rw [← name, String.ofList_toList, Option.map_some, String.ofList_toList, named]

/-! ## Choices -/

/-- What can be chosen about the answer to a text on the standard input. -/
structure Choice where
  emit : Emit
  errorFormat : ErrorFormat
  all : Bool
  filename : Option String

namespace Choice

/-- What the command is asked to do; a path of a single dash is the standard input. -/
def invocation (choice : Choice) : Invocation where
  path := "-"
  emit := choice.emit
  errorFormat := choice.errorFormat
  all := choice.all
  filename := choice.filename
  verbosity := 0

/-- Arguments that make the choice. -/
def arguments (choice : Choice) : List String :=
  ["--" ++ ValueOption.name .emit ++ "=" ++ choice.emit.text,
      "--" ++ ValueOption.name .errorFormat ++ "=" ++ choice.errorFormat.argument] ++
    (choice.filename.map fun name => "--" ++ ValueOption.name .filename ++ "=" ++ name).toList ++
    (if choice.all then ["--all"] else []) ++ ["-"]

/-- Every choice can be made by arguments. -/
theorem ofArguments_arguments (choice : Choice) :
    Request.ofArguments choice.arguments = .compile choice.invocation := by
  obtain ⟨emit, errorFormat, all, filename⟩ := choice
  have format : Request.ofArguments (arguments ⟨emit, errorFormat, all, filename⟩) =
      Given.addAll { emit := some emit, errorFormat := some errorFormat }
        ((filename.map fun name => "--" ++ ValueOption.name .filename ++ "=" ++ name).toList ++
          (if all then ["--all"] else []) ++ ["-"]) := by
    simp only [Request.ofArguments, arguments, List.cons_append, List.nil_append]
    rw [Given.addAll, Given.add_option rfl rfl]
    simp only [Given.addValue?, Option.isSome_none, Bool.false_eq_true, if_false,
      Emit.ofText?_text, Option.map_some, Given.orUsage]
    rw [Given.addAll, Given.add_option rfl rfl]
    simp only [Given.addValue?, Option.isSome_none, Bool.false_eq_true, if_false,
      ErrorFormat.ofText?_argument, Option.map_some, Given.orUsage]
  rw [format]
  cases filename with
  | none => cases all <;> rfl
  | some name =>
      simp only [Option.map_some, Option.toList_some, List.cons_append, List.nil_append]
      rw [Given.addAll, Given.add_option rfl rfl]
      cases all <;> rfl

/-- The answer to a text on the standard input. -/
def answer (choice : Choice) (text : String) : Response :=
  choice.invocation.respond (.ok text.toUTF8)

/-- A text on the standard input, under the name that is chosen for it. -/
def source (choice : Choice) (text : String) : SourceFile :=
  ⟨choice.filename.getD "-", text⟩

/-- The arguments of a choice are understood as that choice. -/
theorem answer_eq (choice : Choice) (text : String) :
    choice.answer text = choice.invocation.respondTo text := by
  have decoded : String.fromUTF8? text.toUTF8 = some text := dif_pos text.isValidUTF8
  simp only [answer, Invocation.respond, Except.bind, decoded]

/-- The name that is chosen has no influence on the verdict and on the diagnostics. -/
theorem answer_verdict (choice : Choice) {text : String} {source : SourceFile}
    (sameText : source.text = text) :
    choice.emit.Succeeds choice.all source ∧ (choice.answer text).exitCode = 0 ∨
      ¬ choice.emit.Succeeds choice.all source ∧
        Reports (choice.answer text) choice.errorFormat (choice.source text)
          (choice.emit.diagnostics choice.all source) := by
  have named : choice.source text = ⟨choice.filename.getD "-", text⟩ := rfl
  have same : (choice.source text).text = source.text := sameText.symm
  have answered := respondTo_verdict choice.invocation text named
  rwa [← choice.answer_eq, choice.invocation.emit.succeeds_of_text _ same,
    choice.invocation.emit.diagnostics_of_text _ same] at answered

/-- A command ends well exactly if the stage that is asked for succeeds. -/
theorem exitCode_eq_zero_iff (choice : Choice) (allViolations : Bool) {text : String}
    {source : SourceFile} (sameText : source.text = text) :
    (choice.answer text).exitCode = 0 ↔ choice.emit.Succeeds allViolations source := by
  rw [choice.emit.succeeds_all allViolations source choice.all]
  rcases choice.answer_verdict sameText with ⟨succeeds, exits⟩ | ⟨fails, reports⟩
  · exact iff_of_true exits succeeds
  · exact iff_of_false (by rw [reports.exitCode]; decide) fails

theorem exitCode_eq_zero_or_one (choice : Choice) (text : String) :
    (choice.answer text).exitCode = 0 ∨ (choice.answer text).exitCode = 1 := by
  have sameText : (choice.source text).text = text := rfl
  exact (choice.answer_verdict sameText).imp And.right fun fails => fails.2.exitCode

end Choice

/-! ## Main result -/

/-- The report with another filename. -/
def renamed (name : String) (report : ErrorReport) : ErrorReport :=
  { report with location := { report.location with filename := name } }

/-- Under another name of the source the same is reported with that name. -/
theorem report_renamed {first second : SourceFile} (sameText : second.text = first.text)
    (diagnostic : Diagnostic) :
    diagnostic.report second = renamed second.name (diagnostic.report first) := by
  rw [Diagnostic.report, SourceFile.location_under sameText]
  rfl

/--
The command succeeds on a text exactly if the text is parsed and the passes that the output
needs, if it needs any, succeed; for the check alone, this is if the text compiles.  The exit
code is the same for every format, under every name, and with or without all violations.  If it
is not zero, the same diagnostics are reported and nothing else is printed, where those without
all violations are a first part of those with them.  Under another name, their locations differ
in the name only.
-/
theorem verdict_ignores_reporting (text : String) (choice : Choice) :
    Request.ofArguments choice.arguments = .compile choice.invocation ∧
      (∀ source allViolations, source.text = text →
        ((choice.answer text).exitCode = 0 ↔ choice.emit.Succeeds allViolations source)) ∧
      (choice.emit = .check →
        ((choice.answer text).exitCode = 0 ↔ ∃ graph, compileText text = .ok graph)) ∧
      (∀ other : Choice, other.emit = choice.emit →
        (other.answer text).exitCode = (choice.answer text).exitCode) ∧
      ((choice.answer text).exitCode ≠ 0 →
        ∀ other : Choice, other.emit = choice.emit →
          Reports (other.answer text) other.errorFormat (other.source text)
            (choice.emit.diagnostics other.all (.unnamed text))) ∧
      choice.emit.diagnostics false (.unnamed text) <+:
        choice.emit.diagnostics true (.unnamed text) ∧
      ∀ other : Choice,
        (∀ span, (other.source text).location span =
          { (choice.source text).location span with filename := (other.source text).name }) ∧
        ∀ diagnostic : Diagnostic, diagnostic.report (other.source text) =
          renamed (other.source text).name (diagnostic.report (choice.source text)) := by
  have unnamed : (SourceFile.unnamed text).text = text := rfl
  have verdict (other : Choice) (allViolations : Bool) :
      (other.answer text).exitCode = 0 ↔ other.emit.Succeeds allViolations (.unnamed text) :=
    other.exitCode_eq_zero_iff allViolations unnamed
  refine ⟨choice.ofArguments_arguments, ?_, ?_, ?_, ?_, ?_, ?_⟩
  · exact fun source allViolations => choice.exitCode_eq_zero_iff allViolations
  · intro isCheck
    rw [verdict choice false, isCheck]
    exact Emit.succeeds_check_iff (.unnamed text)
  · intro other sameEmit
    have zero : (other.answer text).exitCode = 0 ↔ (choice.answer text).exitCode = 0 := by
      rw [verdict other false, verdict choice false, sameEmit]
    rcases other.exitCode_eq_zero_or_one text with succeeds | fails
    · rw [succeeds, zero.mp succeeds]
    · rcases choice.exitCode_eq_zero_or_one text with succeeds | failsToo
      · rw [succeeds, zero.mpr succeeds]
      · rw [fails, failsToo]
  · intro failed other sameEmit
    rcases other.answer_verdict unnamed with ⟨succeeds, -⟩ | ⟨-, reports⟩
    · rw [sameEmit] at succeeds
      exact absurd ((verdict choice other.all).mpr succeeds) failed
    · rwa [sameEmit] at reports
  · exact choice.emit.diagnostics_prefix (.unnamed text)
  · intro other
    exact ⟨SourceFile.location_under rfl, report_renamed rfl⟩

/-- The check, with all violations as records, under a name of its own. -/
def checkAll : Choice :=
  ⟨.check, .json, true, some "endless.flow"⟩

/-- Live data without end that two operators wait for the end of is refused in both formats. -/
theorem verdict_ignores_reporting_endlessTwice :
    (checkAll.answer endlessTwice.text).exitCode = 1 ∧
      (checkAll.answer endlessTwice.text).errors = "" ∧
      (Choice.answer ⟨.check, .text, false, none⟩ endlessTwice.text).exitCode = 1 ∧
      (Choice.answer ⟨.check, .text, false, none⟩ endlessTwice.text).output = "" := by
  have refused : (compileText endlessTwice.text).toOption.isNone = true := by decide +kernel
  obtain ⟨-, -, compiles, -, reports, -⟩ :=
    verdict_ignores_reporting endlessTwice.text checkAll
  have failed : (checkAll.answer endlessTwice.text).exitCode ≠ 0 := by
    rw [Ne, compiles rfl]
    rintro ⟨graph, compiled⟩
    rw [compiled] at refused
    cases refused
  have records := reports failed checkAll rfl
  have lines := reports failed ⟨.check, .text, false, none⟩ rfl
  exact ⟨records.exitCode, (records.asRecords rfl).1, lines.exitCode, (lines.asText rfl).1⟩

end Flowgraph.CommandLine
