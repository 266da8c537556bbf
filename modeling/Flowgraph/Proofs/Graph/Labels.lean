import Flowgraph.Graph.Dot
import Mathlib.Tactic.SplitIfs

/-!
# Labels of nodes in drawings

A label stands between quotes, and a backslash in it says that the next character is meant, or
a line break.  So a label is well formed if its own last quote is the first one that is not
after such a backslash, and it is right if it means the name of the node and its options.

The options are escaped for this, but the name is written as it is.  So the label of a node
is read back exactly if its name has neither a quote nor a backslash (`label_readsBack_iff`).
Every name of a program is such a name; a graph that is put together by hand may have others.
-/

namespace Flowgraph.Dot

/-! ## Reading what stands between quotes -/

/-- What stands before the first quote that is not after a backslash, and what stands after it. -/
def untilQuote : List Char → Option (List Char × List Char)
  | [] => none
  | '"' :: rest => some ([], rest)
  | '\\' :: escaped :: rest =>
      (untilQuote rest).map fun (inner, after) => ('\\' :: escaped :: inner, after)
  | c :: rest => (untilQuote rest).map fun (inner, after) => (c :: inner, after)

/-- What is meant by a character after a backslash. -/
def escapeMeans (escaped : Char) : Char :=
  if escaped = 'n' then '\n' else escaped

/-- What is meant by the characters between the quotes. -/
def unescaped : List Char → List Char
  | [] => []
  | '\\' :: escaped :: rest => escapeMeans escaped :: unescaped rest
  | c :: rest => c :: unescaped rest

/-- What is written before a quote ends there, before what comes after it, and has a meaning. -/
structure ReadsBack (written after meaning : List Char) : Prop where
  closes : untilQuote (written ++ '"' :: after) = some (written, after)
  means : unescaped written = meaning

section Reading

variable {c : Char} {rest : List Char}

theorem untilQuote_cons (noQuote : c ≠ '"') (noEscape : c ≠ '\\') (rest : List Char) :
    untilQuote (c :: rest) = (untilQuote rest).map fun (inner, after) => (c :: inner, after) := by
  rw [untilQuote]
  · intro quote
    exact absurd quote noQuote
  · intro _ _ escape
    exact absurd escape noEscape

theorem unescaped_cons (noEscape : c ≠ '\\') (rest : List Char) :
    unescaped (c :: rest) = c :: unescaped rest := by
  rw [unescaped]
  intro _ _ escape
  exact absurd escape noEscape

theorem length_unescaped_escape_le (rest : List Char) :
    (unescaped ('\\' :: rest)).length ≤ (unescaped rest).length + 1 := by
  -- The backslash takes the next character along, which may be a backslash itself.
  fun_induction unescaped rest with
  | case1 => simp [unescaped]
  | case2 escaped later ih =>
      rw [unescaped, List.length_cons, List.length_cons]
      by_cases isEscape : escaped = '\\'
      · subst isEscape
        exact Nat.succ_le_succ ih
      · simp [unescaped_cons isEscape]
  | case3 next later noEscape ih => simp [unescaped]

/-- A character more means at most one character more. -/
theorem length_unescaped_cons_le (c : Char) (rest : List Char) :
    (unescaped (c :: rest)).length ≤ (unescaped rest).length + 1 := by
  by_cases isEscape : c = '\\'
  · subst isEscape
    exact length_unescaped_escape_le rest
  · simp [unescaped_cons isEscape]

theorem length_unescaped_append_le (text rest : List Char) :
    (unescaped (text ++ rest)).length ≤ text.length + (unescaped rest).length := by
  induction text with
  | nil => simp
  | cons c more ih =>
      have atMost := length_unescaped_cons_le c (more ++ rest)
      rw [List.cons_append, List.length_cons]
      omega

end Reading

/-! ## What is written between quotes -/

/-- Before any text, what is written has no quote of its own that ends it, and has a meaning. -/
structure Conveys (written meaning : List Char) : Prop where
  inside : ∀ rest, untilQuote (written ++ rest) =
    (untilQuote rest).map fun (inner, after) => (written ++ inner, after)
  means : ∀ rest, unescaped (written ++ rest) = meaning ++ unescaped rest

namespace Conveys

theorem nil : Conveys [] [] where
  inside rest := by cases found : untilQuote rest <;> simp [found]
  means _ := rfl

theorem append {first second meaning more : List Char} (conveysFirst : Conveys first meaning)
    (conveysSecond : Conveys second more) : Conveys (first ++ second) (meaning ++ more) where
  inside rest := by
    rw [List.append_assoc, conveysFirst.inside, conveysSecond.inside, Option.map_map]
    simp [Function.comp_def]
  means rest := by
    rw [List.append_assoc, conveysFirst.means, conveysSecond.means, List.append_assoc]

theorem plain {c : Char} (noQuote : c ≠ '"') (noEscape : c ≠ '\\') : Conveys [c] [c] where
  inside := untilQuote_cons noQuote noEscape
  means := unescaped_cons noEscape

theorem escape (escaped : Char) : Conveys ['\\', escaped] [escapeMeans escaped] where
  inside _ := rfl
  means _ := rfl

/-- Characters that are written one after the other. -/
theorem flatMap {write : Char → List Char} {text : List Char}
    (each : ∀ c ∈ text, Conveys (write c) [c]) : Conveys (text.flatMap write) text := by
  induction text with
  | nil => exact nil
  | cons c rest ih =>
      obtain ⟨first, others⟩ := List.forall_mem_cons.mp each
      exact first.append (ih others)

/-- Escaped text conveys the text. -/
theorem escaped (text : String) : Conveys (Dot.escaped text).toList text.toList := by
  rw [Dot.escaped, String.toList_ofList]
  refine flatMap fun c _ => ?_
  split_ifs with isEscape isQuote
  · subst isEscape
    exact escape '\\'
  · subst isQuote
    exact escape '"'
  · exact plain isQuote isEscape

theorem readsBack {written meaning : List Char} (conveys : Conveys written meaning)
    (after : List Char) : ReadsBack written after meaning where
  closes := by
    rw [conveys.inside, untilQuote]
    simp
  means := by
    have alone := conveys.means []
    rwa [unescaped, List.append_nil, List.append_nil] at alone

end Conveys

/-! ## Labels -/

/-- What the label of a node is to mean: its name, and its options on a line of their own. -/
def meaning (node : Node) : String :=
  node.name ++ if node.options.isEmpty then "" else "\n" ++ node.options.text

/-- A text without quotes and backslashes. -/
def IsPlain (text : List Char) : Prop :=
  ∀ c ∈ text, c ≠ '"' ∧ c ≠ '\\'

/-- The part of a label after the name. -/
def labelRest (node : Node) : List Char :=
  if node.options.isEmpty then [] else '\\' :: 'n' :: (escaped node.options.text).toList

/-- What the part after the name is to mean. -/
def meaningRest (node : Node) : List Char :=
  if node.options.isEmpty then [] else '\n' :: node.options.text.toList

variable {node : Node}

theorem toList_label (node : Node) :
    (label node).toList = node.name.toList ++ labelRest node := by
  rw [label, labelRest, String.toList_append]
  split_ifs
  · rfl
  · rw [String.toList_append]
    rfl

theorem toList_meaning (node : Node) :
    (meaning node).toList = node.name.toList ++ meaningRest node := by
  rw [meaning, meaningRest, String.toList_append]
  split_ifs
  · rfl
  · rw [String.toList_append]
    rfl

theorem conveys_labelRest (node : Node) : Conveys (labelRest node) (meaningRest node) := by
  rw [labelRest, meaningRest]
  split_ifs
  · exact .nil
  · exact (Conveys.escape 'n').append (.escaped node.options.text)

theorem conveys_label (plain : IsPlain node.name.toList) :
    Conveys (label node).toList (meaning node).toList := by
  rw [toList_label, toList_meaning]
  refine Conveys.append ?_ (conveys_labelRest node)
  have name := Conveys.flatMap fun c member => .plain (plain c member).1 (plain c member).2
  rwa [List.flatMap_singleton'] at name

/-- A backslash in a name takes the next character along, and then a character is missing. -/
theorem unescaped_escape_ne (name : List Char) (node : Node)
    (nonempty : name ++ labelRest node ≠ []) :
    unescaped ('\\' :: (name ++ labelRest node)) ≠ '\\' :: (name ++ meaningRest node) := by
  intro means
  have restMeans : unescaped (labelRest node) = meaningRest node := by
    have alone := (conveys_labelRest node).means []
    rwa [unescaped, List.append_nil, List.append_nil] at alone
  cases name with
  | nil =>
      rw [List.nil_append, List.nil_append] at means
      rw [List.nil_append] at nonempty
      rw [labelRest] at means nonempty
      rw [meaningRest] at means
      split_ifs at means nonempty
      · exact nonempty rfl
      · rw [unescaped, List.cons.injEq] at means
        rw [unescaped_cons (by decide)] at means
        exact absurd (List.cons.inj means.2).1 (by decide)
  | cons c rest =>
      rw [List.cons_append, unescaped, List.cons.injEq] at means
      have atMost := length_unescaped_append_le rest (labelRest node)
      rw [means.2, restMeans, List.cons_append, List.length_cons, List.length_append] at atMost
      omega

/-- A name that is read back from before the rest of a label has no quote and no backslash. -/
theorem isPlain_of_readsBack {name after : List Char}
    (reads : ReadsBack (name ++ labelRest node) after (name ++ meaningRest node)) :
    IsPlain name := by
  induction name with
  | nil => nofun
  | cons c rest ih =>
      obtain ⟨closes, means⟩ := reads
      rw [List.cons_append, List.cons_append] at closes
      rw [List.cons_append, List.cons_append] at means
      by_cases isQuote : c = '"'
      · subst isQuote
        simp [untilQuote] at closes
      by_cases isEscape : c = '\\'
      · subst isEscape
        by_cases last : rest ++ labelRest node = []
        · rw [last, List.nil_append, untilQuote] at closes
          simp at closes
        · exact absurd means (unescaped_escape_ne rest node last)
      · rw [untilQuote_cons isQuote isEscape, Option.map_eq_some_iff] at closes
        obtain ⟨⟨inner, later⟩, found, same⟩ := closes
        obtain ⟨⟨-, rfl⟩, rfl⟩ : (c = c ∧ inner = rest ++ labelRest node) ∧ later = after := by
          simpa using same
        rw [unescaped_cons isEscape, List.cons.injEq] at means
        exact List.forall_mem_cons.mpr ⟨⟨isQuote, isEscape⟩, ih ⟨found, means.2⟩⟩

/-! ## Labels in drawings -/

/-- The line of a node up to the quote before its label. -/
def lineStart (place : Nat) (node : Node) : String :=
  "    " ++ FlowGraph.nodeName place ++ " [" ++ ("shape=" ++ shape node.kind ++ ", label=\"")

/-- The line of a node from after the quote that is to end its label. -/
def lineEnd (classes : Option TemporalMap) (place : Nat) (node : Node) : String :=
  (match classes with
    | none => ""
    | some known =>
        ", style=filled, fillcolor=" ++ fill (known.output place) ++
          (if isOutlined node (known.input place) then ", color=red, penwidth=2" else "")) ++
    "];\n"

theorem nodeLine_eq_label (classes : Option TemporalMap) (place : Nat) (node : Node) :
    nodeLine classes place node =
      lineStart place node ++ label node ++ "\"" ++ lineEnd classes place node := by
  unfold nodeLine nodeAttributes lineStart lineEnd
  cases classes <;> simp only [String.append_assoc]

/-- The lines of the nodes. -/
def nodeLines (graph : FlowGraph) (classes : Option TemporalMap) : List String :=
  graph.nodes.mapIdx (nodeLine classes)

/-- What stands before the label of a node in a drawing. -/
def beforeLabel (graph : FlowGraph) (classes : Option TemporalMap) (place : Nat) (node : Node) :
    String :=
  header ++ String.join ((nodeLines graph classes).take place) ++ lineStart place node

/-- What stands after the quote that is to end the label of a node. -/
def afterLabel (graph : FlowGraph) (classes : Option TemporalMap) (place : Nat) (node : Node) :
    String :=
  lineEnd classes place node ++ String.join ((nodeLines graph classes).drop (place + 1)) ++
    (if graph.edges.isEmpty then "" else "\n") ++
    String.join (graph.edges.map (edgeLine classes)) ++ "\x7d\n"

/-- The lines of the nodes, divided at one of them. -/
theorem join_nodeLines {graph : FlowGraph} (classes : Option TemporalMap) {place : Nat}
    (present : graph.nodes[place]? = some node) :
    String.join (nodeLines graph classes) =
      String.join ((nodeLines graph classes).take place) ++
        (nodeLine classes place node ++
          String.join ((nodeLines graph classes).drop (place + 1))) := by
  have line : (nodeLines graph classes)[place]? = some (nodeLine classes place node) := by
    rw [nodeLines, List.getElem?_mapIdx, present]
    rfl
  obtain ⟨bound, line⟩ := List.getElem?_eq_some_iff.mp line
  rw [← String.join_cons, ← line, ← List.drop_eq_getElem_cons bound, ← String.join_append,
    List.take_append_drop]

/-- The label of each node stands between quotes in the statement of the node. -/
theorem render_eq_label {graph : FlowGraph} (classes : Option TemporalMap) {place : Nat}
    (present : graph.nodes[place]? = some node) :
    render graph classes =
      beforeLabel graph classes place node ++ label node ++ "\"" ++
        afterLabel graph classes place node := by
  have lines := join_nodeLines classes present
  rw [nodeLine_eq_label] at lines
  rw [render, beforeLabel, afterLabel, ← nodeLines, lines]
  simp only [String.append_assoc]

/-! ## Main result -/

/--
The label of a node is read back if and only if the name of the node has neither a quote nor
a backslash: then its own last quote ends it, and with the escapes undone it is the name
and, if there are any, the options on a line of their own.
-/
theorem label_readsBack_iff {graph : FlowGraph} (classes : Option TemporalMap) {place : Nat}
    {node : Node} (present : graph.nodes[place]? = some node) :
    render graph classes =
        beforeLabel graph classes place node ++ label node ++ "\"" ++
          afterLabel graph classes place node ∧
      (ReadsBack (label node).toList (afterLabel graph classes place node).toList
          (meaning node).toList ↔
        IsPlain node.name.toList) := by
  refine ⟨render_eq_label classes present, ?_, fun plain => (conveys_label plain).readsBack _⟩
  rw [toList_label, toList_meaning]
  exact isPlain_of_readsBack

/-- A source that gives out three points. -/
def readThree : Node :=
  ⟨"read", .source, { limit := some 3 }, default⟩

/-- The label of this source has two lines. -/
theorem label_readsBack_iff_readThree :
    ReadsBack "read\\n-limit 3".toList "];\n\x7d\n".toList "read\n-limit 3".toList := by
  have plain : IsPlain readThree.name.toList := by
    have name : readThree.name.toList = ['r', 'e', 'a', 'd'] := rfl
    simp [IsPlain, name]
  have present : (FlowGraph.empty.addNode readThree).nodes[0]? = some readThree := rfl
  have reads := (label_readsBack_iff none present).2.mpr plain
  have written : (label readThree).toList = "read\\n-limit 3".toList := by decide +kernel
  have meant : (meaning readThree).toList = "read\n-limit 3".toList := by decide +kernel
  have after : (afterLabel (FlowGraph.empty.addNode readThree) none 0 readThree).toList =
      "];\n\x7d\n".toList := by decide +kernel
  rwa [written, meant, after] at reads

/-- The quote in the name of a node ends its label. -/
theorem quote_in_name_ends_label :
    ¬ ∀ graph classes place node, graph.nodes[place]? = some node →
      ReadsBack (label node).toList (afterLabel graph classes place node).toList
        (meaning node).toList := by
  intro all
  have closes := (all (FlowGraph.empty.addNode ⟨"a\"b", .source, {}, default⟩) none 0 _ rfl).closes
  have inner := congrArg (Option.map Prod.fst) closes
  exact absurd inner (by decide)

end Flowgraph.Dot
