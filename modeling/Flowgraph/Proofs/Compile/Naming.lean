import Flowgraph.Proofs.Analysis.Naming
import Flowgraph.Proofs.Compile.Layout
import Flowgraph.Proofs.Compile.Passes
import Flowgraph.Proofs.Graph.Stages
import Mathlib.Logic.Equiv.Basic

/-!
# The name of a source

A text may be compiled under different names.  The name goes into every location, and with the
locations into the classes of live data, but it decides nothing: the graph under one name is the
graph under another with the names exchanged in its locations, which no pass can tell
(`FlowGraph.ofProgram_exchange`).  So the same passes run and fail, and they report the same
diagnostics (`Compilation.diagnostics_run_of_text`).
-/

namespace Flowgraph

/-! ## Locations -/

/-- The location with one filename exchanged for another. -/
def Location.exchange (first second : String) (location : Location) : Location :=
  { location with filename := Equiv.swap first second location.filename }

theorem Location.exchange_injective (first second : String) :
    Function.Injective (exchange first second) := by
  intro location other same
  obtain ⟨filename, start, stop⟩ := location
  obtain ⟨otherName, otherStart, otherStop⟩ := other
  simpa [exchange] using same

theorem Location.span_exchange (first second : String) (location : Location) :
    (location.exchange first second).span = location.span :=
  rfl

variable {first second : SourceFile} (sameText : second.text = first.text)

include sameText

theorem SourceFile.location_of_text (span : Span) :
    second.location span = (first.location span).exchange first.name second.name := by
  obtain ⟨name, text⟩ := first
  obtain ⟨other, text⟩ := second
  cases sameText
  simp only [location, Location.exchange, Equiv.swap_apply_left]
  rfl

/-- The locations of a text under two names differ in the name only. -/
theorem SourceFile.location_under (span : Span) :
    second.location span = { first.location span with filename := second.name } := by
  obtain ⟨name, text⟩ := first
  obtain ⟨other, text⟩ := second
  cases sameText
  rfl

theorem SourceFile.program_of_text : second.program = first.program := by
  obtain ⟨name, text⟩ := first
  obtain ⟨other, text⟩ := second
  cases sameText
  rfl

/-! ## Graphs -/

namespace FlowGraph

/-- The graph of a program under another name. -/
theorem ofProgram_exchange (chains : List (Flow Operator)) :
    (ofProgram second chains).value =
        (ofProgram first chains).value.mapLocations (Location.exchange first.name second.name) ∧
      (ofProgram second chains).diagnostics = (ofProgram first chains).diagnostics := by
  have edges : (ofProgram second chains).value.edges = (ofProgram first chains).value.edges :=
    (ofProgram_of_unplaced second first rfl).2.1
  constructor
  · have nodes : (ofProgram second chains).value.nodes =
        ((ofProgram first chains).value.mapLocations
          (Location.exchange first.name second.name)).nodes := by
      rw [mapLocations, nodes_ofProgram, nodes_ofProgram, List.map_map]
      refine List.map_congr_left fun operator _ => ?_
      rw [Operator.node, SourceFile.location_of_text sameText]
      rfl
    generalize (ofProgram second chains).value = graph at nodes edges ⊢
    obtain ⟨graphNodes, graphEdges⟩ := graph
    simp only at nodes edges
    rw [nodes, edges]
    rfl
  · rw [diagnostics_ofProgram_eq, diagnostics_ofProgram_eq, edges]

/-- The violations of a program are explained alike under all names. -/
theorem diagnostics_findViolations?_of_text (chains : List (Flow Operator)) :
    (ofProgram second chains).value.findViolations?.map (List.map Violation.diagnostic) =
      (ofProgram first chains).value.findViolations?.map (List.map Violation.diagnostic) := by
  have explained : (Violation.diagnostic ∘
        Violation.mapLocations (Location.exchange first.name second.name)) =
      Violation.diagnostic :=
    funext (Violation.diagnostic_mapLocations _ (Location.span_exchange first.name second.name))
  rw [(ofProgram_exchange sameText chains).1,
    findViolations?_mapLocations (Location.exchange_injective first.name second.name),
    Option.map_map]
  refine Option.map_congr fun found _ => ?_
  rw [Function.comp_apply, List.map_map, explained]

end FlowGraph

/-! ## Errors -/

/-- The errors of a pass do not depend on the name of the source. -/
theorem Program.errors_of_text (program : Program) (allViolations : Bool) :
    program.errors second allViolations = program.errors first allViolations := by
  funext pass
  cases pass with
  | lower | propagate => rfl
  | buildGraph => exact (FlowGraph.ofProgram_exchange sameText program.operators.value).2
  | checkRunaway =>
      have explained :=
        FlowGraph.diagnostics_findViolations?_of_text sameText program.operators.value
      simp only [errors]
      cases found : (program.built first).value.findViolations? with
      | none =>
          rw [found, Option.map_none, Option.map_eq_none_iff] at explained
          rw [explained]
      | some violations =>
          rw [found, Option.map_some, Option.map_eq_some_iff] at explained
          obtain ⟨others, foundOther, same⟩ := explained
          rw [foundOther, Option.getD_some, Option.getD_some]
          cases allViolations
          · simpa [Compilation.reported, List.map_take] using congrArg (List.take 1) same
          · exact same

theorem Program.fails_of_text (program : Program) :
    program.fails second = program.fails first := by
  funext pass
  rw [fails, fails, errors_of_text sameText]

namespace Compilation

theorem failedPass_run_of_text (program : Program) (allViolations : Bool) (terminal : Pass) :
    ((start second program).run allViolations terminal).failedPass =
      ((start first program).run allViolations terminal).failedPass := by
  rw [failedPass_run, failedPass_run, Program.called, Program.called,
    Program.fails_of_text sameText]

/-- All that is reported on a program is reported under any name of its source. -/
theorem diagnostics_run_of_text (program : Program) (allViolations : Bool) (terminal : Pass) :
    ((start second program).run allViolations terminal).diagnostics =
      ((start first program).run allViolations terminal).diagnostics := by
  rw [diagnostics_run, diagnostics_run, reports_run, reports_run, Program.called, Program.called,
    Program.fails_of_text sameText, Program.errors_of_text sameText]

end Compilation

end Flowgraph
