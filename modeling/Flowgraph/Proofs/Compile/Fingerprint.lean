import Flowgraph.Proofs.Compile.Guarded
import Flowgraph.Proofs.Graph.Text
import Mathlib.Algebra.Order.BigOperators.Group.List
import Mathlib.Algebra.Order.Group.Nat

/-!
# What the digest of the meaning tells

The bytes that are digested tell the graph of a program, but for the byte offsets of its
nodes, and the texts of its procs with a line feed behind each (`fingerprint_decodes`).
They do not say how many lines belong to which proc: a text of several lines can be divided
between its proc and the next one in another way.
-/

namespace Flowgraph

open Text

/-! ## The text of a call -/

/-- The text of a call begins with the name of its proc. -/
theorem exists_slice?_of_mem_calls {text : List Char} {program : Program}
    (parsed : parse text = ⟨some program, []⟩) {call : ProcCall}
    (member : call ∈ Stage.branchSteps program.chains) :
    ∃ rest, slice? text call.span.start call.span.stop =
      some (call.name.name.toList ++ rest) := by
  obtain ⟨tree, derived, chains⟩ := exists_tree_of_parse parsed
  rw [chains, ProgramTree.branchSteps_flows] at member
  obtain ⟨proc, isProc, rfl⟩ := List.mem_map.mp member
  have sublist : proc.tokens.Sublist (lex text).tokens :=
    derived ▸ ProgramTree.sublist_of_mem_procs isProc
  have isToken : proc.name.token ∈ (lex text).tokens :=
    sublist.subset (List.mem_cons_self ..)
  have within := ProcTree.within sublist
  obtain ⟨-, starts, last, isLast, stop⟩ := proc.exists_span_call (afterTrivia text)
  have lastStops : proc.name.span.stop ≤ last.span.stop := by
    rcases List.mem_cons.mp isLast with rfl | later
    · exact Nat.le_refl _
    · have ordered := (List.pairwise_cons.mp ((pairwise_tokens text).sublist sublist)).1 _ later
      have bounds := bounds_of_mem_lexFrom (sublist.subset isLast)
      exact ordered.trans bounds.2.1.le
  have stops := lastStops.trans (le_afterTrivia text last.span.stop)
  rw [← stop] at stops
  exact Text.exists_slice?_append
    (within _ (ProcCall.name_mem_spans _)) (within _ (ProcCall.span_mem_spans _)) starts stops
    (slice?_of_identifier isToken)

/-- Cutting off blanks at the end leaves a character at the beginning that is no blank. -/
theorem Text.exists_trimEnd_cons {first : Char} (noBlank : isBlank first = false)
    (rest : List Char) : ∃ kept, trimEnd (first :: rest) = first :: kept := by
  rw [trimEnd, List.reverse_cons, List.dropWhile_append]
  split_ifs
  · exact ⟨[], by simp [noBlank]⟩
  · exact ⟨(rest.reverse.dropWhile isBlank).reverse, by simp⟩

/-! ## The nodes of a program -/

/-- The names of procs are no arrows, have no spaces, and do not begin as nodes are named. -/
theorem Proc.name_proper (proc : Proc) :
    proc.name.toList.count ' ' = 0 ∧ proc.name ≠ "->" ∧
      ∃ first rest, proc.name.toList = first :: rest ∧ isBlank first = false ∧ first ≠ 'n' := by
  cases proc <;> exact ⟨by decide, by decide, _, _, rfl, by decide, by decide⟩

/-- A node comes from a call of a proc, whose name and place it has. -/
theorem Program.exists_call_of_mem_nodes {source : SourceFile} {program : Program} {node : Node}
    (member : node ∈ (program.built source).value.nodes) :
    ∃ call ∈ Stage.branchSteps program.chains, ∃ proc : Proc,
      call.name.name = proc.name ∧ node.name = proc.name ∧ node.options.IsWhole ∧
        node.location = source.location call.span := by
  rw [FlowGraph.nodes_ofProgram] at member
  obtain ⟨operator, isOperator, rfl⟩ := List.mem_map.mp member
  obtain ⟨call, isCall, known⟩ := Program.exists_call_of_mem_operators isOperator
  have named := call.name_and_span_of_operator?
  rw [known, Option.map_some] at named
  obtain ⟨proc, isProc, same⟩ := Option.map_eq_some_iff.mp named.symm
  obtain ⟨name, place⟩ := Prod.mk.inj same
  refine ⟨call, isCall, proc, (ProcCall.ofName?_eq_some_iff.mp isProc).symm, name.symm,
    ProcCall.isWhole_operator? known, ?_⟩
  rw [place]
  rfl

theorem Program.nodes_proper (program : Program) (source : SourceFile) :
    ∀ node ∈ (program.built source).value.nodes, node.Proper source.name := by
  intro node member
  obtain ⟨_, _, proc, -, name, whole, location⟩ := Program.exists_call_of_mem_nodes member
  obtain ⟨noSpace, noArrow, -⟩ := proc.name_proper
  exact ⟨name ▸ noSpace, name ▸ noArrow, whole, by rw [location]; rfl⟩

/-- The text of a proc begins with the name of the proc, and so not as a node is named. -/
theorem Wired.exists_procText {source : SourceFile} {program : Program}
    (wired : Wired source program) {node : Node}
    (member : node ∈ (program.built source).value.nodes) :
    ∃ first rest, Fingerprint.procText source.characters node.location = first :: rest ∧
      first ≠ 'n' := by
  have parsed := SourceFile.program_eq_ok_iff.mp wired.parsed
  obtain ⟨call, isCall, proc, named, _, _, location⟩ := Program.exists_call_of_mem_nodes member
  obtain ⟨-, -, first, letters, name, noBlank, noNode⟩ := proc.name_proper
  obtain ⟨rest, slice⟩ := exists_slice?_of_mem_calls parsed isCall
  have within : call.span.Within source.characters :=
    spans_within_of_parse (by rw [parsed]) _ (List.mem_cons_of_mem _
      (Stage.call_spans_subset_branches isCall call.span_mem_spans))
  have place := SourceFile.span_location within
  rw [← location] at place
  have start : node.location.start.offset = call.span.start := congrArg Span.start place
  have stop : node.location.stop.offset = call.span.stop := congrArg Span.stop place
  rw [named, name, List.cons_append] at slice
  obtain ⟨kept, trimmed⟩ := Text.exists_trimEnd_cons noBlank (letters ++ rest)
  refine ⟨first, kept, ?_, noNode⟩
  rw [Fingerprint.procText, start, stop, slice, Option.getD_some, trimmed]

/-! ## What is digested -/

namespace Fingerprint

/-- The texts of the procs of a graph, node by node. -/
def procTexts (text : String) (graph : FlowGraph) : List (List Char) :=
  graph.nodes.map fun node => procText text.toList node.location

/-- Lines one after the other, each with a line feed behind it. -/
def joinedLines (texts : List (List Char)) : List Char :=
  marked (texts.map fun text => (text, '\n'))

theorem toList_meaning (text : String) (graph : FlowGraph) :
    (meaning text graph).toList = graph.text.toList ++ joinedLines (procTexts text graph) := by
  rw [meaning, String.toList_append, String.toList_join, joinedLines, procTexts, marked,
    List.flatMap_map, List.map_map, List.flatMap_map]
  simp

/-- Texts are known from their lines if the number of line feeds of each is known. -/
theorem joinedLines_inj {texts others : List (List Char)}
    (counts : texts.map (List.count '\n') = others.map (List.count '\n'))
    (same : joinedLines texts = joinedLines others) : texts = others := by
  have sameMarks : marks (texts.map fun text => (text, '\n')) =
      marks (others.map fun text => (text, '\n')) := by
    simpa [marks, Function.comp_def] using congrArg (List.map fun count => ('\n', count)) counts
  have ended : joinedLines texts ++ [] = joinedLines others ++ [] := by rw [same]
  have sameFields := (marked_append_inj sameMarks ended).1
  have injective : Function.Injective fun text : List Char => (text, '\n') :=
    fun _ _ same => (Prod.mk.inj same).1
  exact injective.list_map sameFields

/-- Texts of one line each are known from their lines, among as many texts of any kind. -/
theorem joinedLines_inj_of_lines {texts others : List (List Char)}
    (lines : ∀ text ∈ texts, '\n' ∉ text) (lengths : texts.length = others.length)
    (same : joinedLines texts = joinedLines others) : texts = others := by
  have total (all : List (List Char)) :
      (joinedLines all).count '\n' = (all.map (List.count '\n')).sum + all.length := by
    induction all with
    | nil => rfl
    | cons first rest ih =>
        rw [joinedLines] at ih
        simp [joinedLines, ih]
        omega
  have none : ∀ count ∈ texts.map (List.count '\n'), count = 0 := by
    intro count member
    obtain ⟨text, isText, rfl⟩ := List.mem_map.mp member
    exact List.count_eq_zero_of_not_mem (lines text isText)
  have noneOther : ∀ count ∈ others.map (List.count '\n'), count = 0 := by
    have sums := congrArg (List.count '\n') same
    rw [total, total, lengths, List.sum_eq_zero none] at sums
    exact List.sum_eq_zero_iff.mp (by omega)
  apply joinedLines_inj ?_ same
  rw [List.eq_replicate_of_mem none, List.eq_replicate_of_mem noneOther, List.length_map,
    List.length_map, lengths]

end Fingerprint

/-! ## What is known -/

open Fingerprint (meaning procTexts joinedLines)

/-- The lines of the procs do not begin as those of the graph. -/
theorem Wired.head?_joinedLines_ne {source : SourceFile} {program : Program}
    (wired : Wired source program) :
    (joinedLines (procTexts source.text (program.built source).value)).head? ≠ some 'n' := by
  rw [joinedLines, procTexts]
  cases nodes : (program.built source).value.nodes with
  | nil => simp
  | cons node rest =>
      have member : node ∈ (program.built source).value.nodes := nodes ▸ List.mem_cons_self ..
      obtain ⟨letter, written, text, noNode⟩ := wired.exists_procText member
      rw [SourceFile.characters] at text
      simp [text, noNode]

/--
Two programs of the same name with the same bytes to digest have the same graph, but for the
byte offsets of the nodes, and the same lines of procs.  The texts of the procs themselves are
the same if each proc has as many line feeds in both programs, and so if no proc of one of the
programs has any.
-/
theorem fingerprint_decodes {first second : SourceFile} {program other : Program}
    (sameName : first.name = second.name) (wired : Wired first program)
    (wiredOther : Wired second other)
    (same : (meaning first.text (program.built first).value).toUTF8 =
      (meaning second.text (other.built second).value).toUTF8) :
    (program.built first).value.withoutOffsets = (other.built second).value.withoutOffsets ∧
      joinedLines (procTexts first.text (program.built first).value) =
        joinedLines (procTexts second.text (other.built second).value) ∧
      ((procTexts first.text (program.built first).value).map (List.count '\n') =
          (procTexts second.text (other.built second).value).map (List.count '\n') →
        procTexts first.text (program.built first).value =
          procTexts second.text (other.built second).value) ∧
      ((∀ text ∈ procTexts first.text (program.built first).value, '\n' ∉ text) →
        procTexts first.text (program.built first).value =
          procTexts second.text (other.built second).value) := by
  have characters := congrArg String.toList (String.toByteArray_inj.mp same)
  rw [Fingerprint.toList_meaning, Fingerprint.toList_meaning] at characters
  obtain ⟨graphs, lines⟩ := FlowGraph.text_append_inj (program.nodes_proper first)
    (sameName ▸ other.nodes_proper second) wired.head?_joinedLines_ne
    wiredOther.head?_joinedLines_ne characters
  have lengths : (procTexts first.text (program.built first).value).length =
      (procTexts second.text (other.built second).value).length := by
    simpa [procTexts, FlowGraph.withoutOffsets] using
      congrArg (fun graph => graph.nodes.length) graphs
  exact ⟨graphs, lines, fun counts => Fingerprint.joinedLines_inj counts lines,
    fun single => Fingerprint.joinedLines_inj_of_lines single lengths lines⟩

/-! ## Texts that are digested alike -/

/-- The graph of a text that is read and wired without errors. -/
def wiredGraph? (source : SourceFile) : Option FlowGraph :=
  match source.program with
  | .ok program =>
      if program.operators.diagnostics = [] ∧ (program.built source).diagnostics = [] then
        some (program.built source).value
      else none
  | .error _ => none

theorem exists_wired_of_wiredGraph? {source : SourceFile} {graph : FlowGraph}
    (found : wiredGraph? source = some graph) :
    ∃ program, Wired source program ∧ (program.built source).value = graph := by
  rw [wiredGraph?] at found
  cases parsed : source.program with
  | error errors => simp [parsed] at found
  | ok program =>
      simp only [parsed, Option.ite_none_right_eq_some, Option.some.injEq] at found
      obtain ⟨⟨lowered, built⟩, rfl⟩ := found
      exact ⟨program, ⟨parsed, lowered, built⟩, rfl⟩

/-- Both texts are read and wired without errors, and they give the same bytes to digest. -/
def DigestedAlike (first second : SourceFile) : Prop :=
  (wiredGraph? first).isSome = true ∧
    (wiredGraph? first).map (meaning first.text) = (wiredGraph? second).map (meaning second.text)

instance (first second : SourceFile) : Decidable (DigestedAlike first second) :=
  inferInstanceAs (Decidable (_ ∧ _))

theorem DigestedAlike.exists_wired {first second : SourceFile}
    (alike : DigestedAlike first second) :
    ∃ program other, Wired first program ∧ Wired second other ∧
      wiredGraph? first = some (program.built first).value ∧
      wiredGraph? second = some (other.built second).value ∧
      (meaning first.text (program.built first).value).toUTF8 =
        (meaning second.text (other.built second).value).toUTF8 := by
  obtain ⟨isWired, same⟩ := alike
  obtain ⟨graph, found⟩ := Option.isSome_iff_exists.mp isWired
  rw [found, Option.map_some] at same
  obtain ⟨otherGraph, foundOther, meanings⟩ := Option.map_eq_some_iff.mp same.symm
  obtain ⟨program, wired, rfl⟩ := exists_wired_of_wiredGraph? found
  obtain ⟨other, wiredOther, rfl⟩ := exists_wired_of_wiredGraph? foundOther
  exact ⟨program, other, wired, wiredOther, found, foundOther, by rw [meanings]⟩

/-- A comment with a character of two bytes before a source of live data. -/
def accentedComment : SourceFile :=
  .unnamed "// é\nemit | view t"

/-- The same program with a comment of one byte less. -/
def plainComment : SourceFile :=
  .unnamed "// e\nemit | view t"

theorem comments_digestedAlike : DigestedAlike accentedComment plainComment := by
  decide +kernel

/-- A source with one argument, and a view with three arguments on two lines. -/
def longView : SourceFile :=
  .unnamed "read a\n       | view x\nview y"

/-- A source with three arguments on two lines, and a view with one argument. -/
def longRead : SourceFile :=
  .unnamed "read a\nview x | view y\n      "

theorem arguments_digestedAlike : DigestedAlike longView longRead := by
  decide +kernel

/-- The two programs with comments have the same texts of procs. -/
theorem fingerprint_decodes_plainComment :
    ∃ program other, accentedComment.name = plainComment.name ∧ Wired accentedComment program ∧
      Wired plainComment other ∧
      (meaning accentedComment.text (program.built accentedComment).value).toUTF8 =
        (meaning plainComment.text (other.built plainComment).value).toUTF8 ∧
      (program.built accentedComment).value.withoutOffsets =
        (other.built plainComment).value.withoutOffsets ∧
      procTexts accentedComment.text (program.built accentedComment).value =
        procTexts plainComment.text (other.built plainComment).value := by
  have lines : ∀ texts ∈ (wiredGraph? accentedComment).map (procTexts accentedComment.text),
      ∀ text ∈ texts, '\n' ∉ text := by
    decide +kernel
  obtain ⟨program, other, wired, wiredOther, found, -, same⟩ :=
    comments_digestedAlike.exists_wired
  rw [found, Option.map_some] at lines
  have sameName : accentedComment.name = plainComment.name := rfl
  obtain ⟨graphs, -, -, texts⟩ := fingerprint_decodes sameName wired wiredOther same
  exact ⟨program, other, sameName, wired, wiredOther, same, graphs, texts (lines _ rfl)⟩

/--
The bytes to digest do not tell everything.  The two programs with comments have different
graphs, as their offsets differ.  The two programs with arguments on two lines have the same
graph, but different texts of procs: the arguments of one proc are those of the next.
-/
theorem fingerprint_conflates :
    (∃ program other, accentedComment.name = plainComment.name ∧ Wired accentedComment program ∧
      Wired plainComment other ∧
      (meaning accentedComment.text (program.built accentedComment).value).toUTF8 =
        (meaning plainComment.text (other.built plainComment).value).toUTF8 ∧
      (program.built accentedComment).value ≠ (other.built plainComment).value) ∧
    ∃ program other, longView.name = longRead.name ∧ Wired longView program ∧
      Wired longRead other ∧
      (meaning longView.text (program.built longView).value).toUTF8 =
        (meaning longRead.text (other.built longRead).value).toUTF8 ∧
      (program.built longView).value = (other.built longRead).value ∧
      procTexts longView.text (program.built longView).value ≠
        procTexts longRead.text (other.built longRead).value := by
  constructor
  · have differ : wiredGraph? accentedComment ≠ wiredGraph? plainComment := by decide +kernel
    obtain ⟨program, other, wired, wiredOther, found, foundOther, same⟩ :=
      comments_digestedAlike.exists_wired
    rw [found, foundOther] at differ
    exact ⟨program, other, rfl, wired, wiredOther, same, fun graphs => differ (by rw [graphs])⟩
  · have graphs : wiredGraph? longView = wiredGraph? longRead := by decide +kernel
    have differ : (wiredGraph? longView).map (procTexts longView.text) ≠
        (wiredGraph? longRead).map (procTexts longRead.text) := by
      decide +kernel
    obtain ⟨program, other, wired, wiredOther, found, foundOther, same⟩ :=
      arguments_digestedAlike.exists_wired
    rw [found, foundOther] at graphs differ
    exact ⟨program, other, rfl, wired, wiredOther, same, Option.some.inj graphs,
      fun texts => differ (by rw [Option.map_some, Option.map_some, texts])⟩

end Flowgraph
