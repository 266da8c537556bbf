import Flowgraph.Proofs.Analysis.RunawayCheck
import Flowgraph.Proofs.Graph.DotReader
import Flowgraph.Proofs.Number.Digits
import Flowgraph.Proofs.Token.Words

/-!
# Drawings of graphs

The drawing of a graph is read back as what it was made from: every line as a statement about
one node or one edge, with attributes of which none runs into the next (`read?_render`).  The
label of a node is kept together since names have neither quotes nor backslashes, and both are
escaped in options (`runs_label`).

So a drawing shows the graph and the verdict.  The operators that it outlines are found
in another way than those that are reported, by the class that reaches them, but they are
the same (`isOutlined_iff`).
-/

namespace Flowgraph.Dot

open Text

/-! ## Attributes -/

/-- Letters, digits and underscores. -/
structure IsWord (text : String) : Prop where
  nonempty : text.toList ≠ []
  parts : ∀ c ∈ text.toList, isNamePart c = true

/-- A word that names something. -/
structure IsId (text : String) : Prop extends IsWord text where
  named : isName text = true

/-- A word is read when it is followed by something else. -/
theorem IsWord.runs {text : String} (isWord : IsWord text) {c : Char}
    (stops : isNamePart c = false) :
    Runs .nothing (text.toList ++ [c]) (.word text :: (Pending.start c).1) (Pending.start c).2 := by
  have ends := runs_step (.word text.toList) c
  rw [Pending.step, stops, if_neg (by simp), String.ofList_toList] at ends
  exact (runs_word isWord.nonempty isWord.parts).append ends

/-- A word that names something is read as that name. -/
theorem IsId.name? {text : String} (isId : IsId text) : (Symbol.word text).name? = some text := by
  rw [Symbol.name?, if_pos isId.named]

/-- An attribute as it is written, with or without quotes around its value. -/
structure Attribute where
  name : String
  value : String
  isQuoted : Bool

namespace Attribute

def text (given : Attribute) : String :=
  given.name ++ "=" ++ if given.isQuoted then "\"" ++ given.value ++ "\"" else given.value

/-- The value as a symbol. -/
def symbol (given : Attribute) : Symbol :=
  if given.isQuoted then .quoted given.value else .word given.value

/-- What is read of the attribute. -/
def pair (given : Attribute) : String × String :=
  (given.name, given.value)

/-- Both name something, or else there are quotes around the value and none that end it before. -/
structure Proper (given : Attribute) : Prop where
  name : IsId given.name
  value : if given.isQuoted then
      Runs (.quoted []) given.value.toList [] (.quoted given.value.toList)
    else IsId given.value

variable {given : Attribute}

/-- The value of a proper attribute is read from its symbol. -/
theorem Proper.name?_symbol (proper : given.Proper) : given.symbol.name? = some given.value := by
  have isValue := proper.value
  rw [symbol]
  split_ifs at isValue ⊢
  · rfl
  · exact isValue.name?

/-- An attribute is read when it is followed by a sign. -/
theorem Proper.runs (proper : given.Proper) {c : Char} (isMark : c = ',' ∨ c = ']') :
    Runs .nothing (given.text.toList ++ [c])
      [.word given.name, .sign '=', given.symbol, .sign c] .nothing := by
  have alone : Pending.start c = ([.sign c], .nothing) := by
    rcases isMark with rfl | rfl <;> rfl
  have value : Runs .nothing ((if given.isQuoted then "\"" ++ given.value ++ "\"" else
      given.value).toList ++ [c]) [given.symbol, .sign c] .nothing := by
    have isValue := proper.value
    rw [symbol]
    split_ifs at isValue ⊢
    · have opening : Runs .nothing ['"'] [] (.quoted []) := runs_step .nothing '"'
      have closing := runs_step (.quoted given.value.toList) '"'
      rw [Pending.step, if_pos rfl, String.ofList_toList] at closing
      have mark := runs_step .nothing c
      rw [Pending.step, alone] at mark
      have whole : ("\"" ++ given.value ++ "\"").toList ++ [c] =
          ['"'] ++ (given.value.toList ++ (['"'] ++ [c])) := by simp
      rw [whole]
      exact opening.append (isValue.append (closing.append mark))
    · have read := isValue.runs (c := c) (by rcases isMark with rfl | rfl <;> rfl)
      rwa [alone] at read
  have whole : given.text.toList ++ [c] = (given.name.toList ++ ['=']) ++
      ((if given.isQuoted then "\"" ++ given.value ++ "\"" else given.value).toList ++ [c]) := by
    rw [text, String.toList_append, String.toList_append, List.append_assoc]
    rfl
  have name : Runs .nothing (given.name.toList ++ ['=']) [.word given.name, .sign '='] .nothing :=
    proper.name.runs rfl
  rw [whole]
  exact name.append value

/-- Attributes with commas between them, and the bracket that closes them. -/
def listText (all : List Attribute) : List Char :=
  (", ".intercalate (all.map text)).toList ++ [']']

/-- The symbols of attributes, and of the bracket that closes them. -/
def listSymbols : List Attribute → List Symbol
  | [] => [.sign ']']
  | [last] => [.word last.name, .sign '=', last.symbol, .sign ']']
  | first :: rest =>
      [.word first.name, .sign '=', first.symbol, .sign ','] ++ listSymbols rest

/-- The text of attributes is read as their symbols. -/
theorem runs_listText {all : List Attribute} (nonempty : all ≠ [])
    (proper : ∀ given ∈ all, given.Proper) :
    Runs .nothing (listText all) (listSymbols all) .nothing := by
  induction all with
  | nil => contradiction
  | cons first rest ih =>
      obtain ⟨properFirst, properRest⟩ := List.forall_mem_cons.mp proper
      cases rest with
      | nil => exact properFirst.runs (.inr rfl)
      | cons second later =>
          have blank : Runs .nothing [' '] [] .nothing := fun _ => rfl
          have whole : listText (first :: second :: later) =
              (first.text.toList ++ [',']) ++ ([' '] ++ listText (second :: later)) := by
            simp [listText, String.intercalate_cons_cons]
          rw [whole]
          exact (properFirst.runs (.inl rfl)).append
            (blank.append (ih (List.cons_ne_nil _ _) properRest))

/-- The symbols of attributes are read as the attributes. -/
theorem readList_listSymbols {all : List Attribute} (nonempty : all ≠ [])
    (proper : ∀ given ∈ all, given.Proper) : readList (listSymbols all) = some (all.map pair) := by
  induction all with
  | nil => contradiction
  | cons first rest ih =>
      obtain ⟨properFirst, properRest⟩ := List.forall_mem_cons.mp proper
      cases rest with
      | nil =>
          simp [listSymbols, readList, properFirst.name.name?, properFirst.name?_symbol, pair]
      | cons second later =>
          have others := ih (List.cons_ne_nil _ _) properRest
          have symbols : listSymbols (first :: second :: later) =
              .word first.name :: .sign '=' :: first.symbol :: .sign ',' ::
                listSymbols (second :: later) := rfl
          simp [symbols, readList, properFirst.name.name?, properFirst.name?_symbol, others, pair]

/-- No attribute ends its line. -/
theorem semicolon_not_mem_listSymbols (all : List Attribute) :
    Symbol.sign ';' ∉ listSymbols all := by
  have value (given : Attribute) : Symbol.sign ';' ≠ given.symbol := by
    rw [symbol]
    split_ifs <;> nofun
  induction all with
  | nil => decide
  | cons first rest ih =>
      cases rest with
      | nil => simp [listSymbols, value]
      | cons second later =>
          change _ ∉ [.word first.name, .sign '=', first.symbol, .sign ','] ++ _
          simp [value, ih]

end Attribute

/-! ## Lines -/

/-- A line about a node or an edge, with its attributes. -/
inductive Line where
  | node (name : String) (attributes : List Attribute)
  | edge (source target : String) (attributes : List Attribute)

namespace Line

/-- The attributes in brackets, or nothing, and what ends the line. -/
def ending (all : List Attribute) : List Char :=
  (if all = [] then [] else ' ' :: '[' :: Attribute.listText all) ++ [';', '\n']

def text : Line → List Char
  | node name all => "    ".toList ++ (name.toList ++ ending all)
  | edge source target all =>
      "    ".toList ++ (source.toList ++ (" -> ".toList ++ (target.toList ++ ending all)))

theorem text_node (name : String) (all : List Attribute) :
    (node name all).text = "    ".toList ++ (name.toList ++ ending all) := rfl

/-- An edge is written with an arrow between its ends. -/
theorem text_edge (source target : String) (all : List Attribute) :
    (edge source target all).text =
      "    ".toList ++ (source.toList ++ (" -> ".toList ++ (target.toList ++ ending all))) := rfl

/-- The symbols of the attributes with their brackets. -/
def endingSymbols (all : List Attribute) : List Symbol :=
  if all = [] then [] else .sign '[' :: Attribute.listSymbols all

/-- The symbols of the line but for the semicolon at its end. -/
def symbols : Line → List Symbol
  | node name all => .word name :: endingSymbols all
  | edge source target all => .word source :: .arrow :: .word target :: endingSymbols all

/-- What is read of the line. -/
def statement : Line → Statement
  | node name all => .node name (all.map Attribute.pair)
  | edge source target all => .edge source target (all.map Attribute.pair)

/-- All names in the line name something, and all attributes are proper. -/
def Proper : Line → Prop
  | node name all => IsId name ∧ ∀ given ∈ all, given.Proper
  | edge source target all => IsId source ∧ IsId target ∧ ∀ given ∈ all, given.Proper

/-- The ending of a line is read with what stands before it. -/
theorem runs_ending {all : List Attribute} (proper : ∀ given ∈ all, given.Proper) {name : String}
    (isWord : IsWord name) :
    Runs .nothing (name.toList ++ ending all)
      (.word name :: endingSymbols all ++ [.sign ';']) .nothing := by
  have newline : Runs .nothing ['\n'] [] .nothing := runs_step .nothing '\n'
  rw [ending, endingSymbols]
  split_ifs with none
  · have closed : Runs .nothing (name.toList ++ [';']) [.word name, .sign ';'] .nothing :=
      isWord.runs rfl
    have whole := closed.append newline
    rwa [List.append_assoc] at whole
  · have blank : Runs .nothing (name.toList ++ [' ']) [.word name] .nothing := isWord.runs rfl
    have bracket : Runs .nothing ['['] [.sign '['] .nothing := runs_step .nothing '['
    have closed : Runs .nothing [';'] [.sign ';'] .nothing := runs_step .nothing ';'
    have whole := blank.append (bracket.append
      ((Attribute.runs_listText none proper).append (closed.append newline)))
    simpa using whole

/-- The text of a line is read as its symbols and a semicolon. -/
theorem Proper.runs {line : Line} (proper : line.Proper) :
    Runs .nothing line.text (line.symbols ++ [Symbol.sign ';']) .nothing := by
  have indent : Runs .nothing "    ".toList [] .nothing := fun _ => rfl
  cases line with
  | node name all => exact indent.append (runs_ending proper.2 proper.1.toIsWord)
  | edge source target all =>
      obtain ⟨isSource, isTarget, isAttributes⟩ := proper
      have blank : Runs .nothing (source.toList ++ [' ']) [.word source] .nothing :=
        isSource.runs rfl
      have arrow : Runs .nothing "-> ".toList [.arrow] .nothing := fun _ => rfl
      have rest := runs_ending isAttributes isTarget.toIsWord
      have whole := indent.append (blank.append (arrow.append rest))
      -- The blank before the arrow is what ends the name of the source.
      have spaced : " -> ".toList = [' '] ++ "-> ".toList := rfl
      simpa only [text_edge, spaced, symbols, List.append_assoc, List.cons_append, List.nil_append]
        using whole

/-- The attributes of a line are read with or without any. -/
theorem readAttributes_endingSymbols {all : List Attribute}
    (proper : ∀ given ∈ all, given.Proper) :
    readAttributes (endingSymbols all) = some (all.map Attribute.pair) := by
  rw [endingSymbols]
  split_ifs with none
  · rw [none]
    rfl
  · exact Attribute.readList_listSymbols none proper

/-- The symbols of a line are read as its statement. -/
theorem Proper.readStatement {line : Line} (proper : line.Proper) :
    readStatement line.symbols = some line.statement := by
  cases line with
  | node name all =>
      obtain ⟨isNode, isAttributes⟩ := proper
      have read := readAttributes_endingSymbols isAttributes
      have noKeyword : name ∉ ["graph", "node", "edge"] := by
        intro member
        have unnamed : ∀ word ∈ ["graph", "node", "edge"], isName word = false := by decide
        have named := isNode.named
        rw [unnamed name member] at named
        cases named
      cases all <;> simp_all [symbols, Dot.readStatement, endingSymbols, statement, isNode.name?]
  | edge source target all =>
      obtain ⟨isSource, isTarget, isAttributes⟩ := proper
      have read := readAttributes_endingSymbols isAttributes
      simp [symbols, Dot.readStatement, isSource.name?, isTarget.name?, read, statement]

/-- A line ends at its first semicolon. -/
theorem semicolon_not_mem_symbols (line : Line) : Symbol.sign ';' ∉ line.symbols := by
  have ending (all : List Attribute) : Symbol.sign ';' ∉ endingSymbols all := by
    rw [endingSymbols]
    split_ifs
    · exact List.not_mem_nil
    · simp [Attribute.semicolon_not_mem_listSymbols all]
  cases line with
  | node name all => simp [symbols, ending all]
  | edge source target all => simp [symbols, ending all]

end Line

/-! ## The drawing of a graph -/

/-- The attributes of a node. -/
def nodeAttributeList (classes : Option TemporalMap) (place : Nat) (node : Node) :
    List Attribute :=
  [⟨"shape", shape node.kind, false⟩, ⟨"label", label node, true⟩] ++
    match classes with
    | none => []
    | some known =>
        [⟨"style", "filled", false⟩, ⟨"fillcolor", fill (known.output place), false⟩] ++
          if isOutlined node (known.input place) then
            [⟨"color", "red", false⟩, ⟨"penwidth", "2", false⟩]
          else []

/-- The attributes of an edge. -/
def edgeAttributeList (classes : Option TemporalMap) (edge : Edge) : List Attribute :=
  match classes with
  | none => []
  | some known =>
      [⟨"label", (known.output edge.source).label, true⟩,
        ⟨"color", edgeColour (known.output edge.source), false⟩]

/-- The line of a node with its parts. -/
def nodeParts (classes : Option TemporalMap) (place : Nat) (node : Node) : Line :=
  .node (FlowGraph.nodeName place) (nodeAttributeList classes place node)

/-- The line of an edge with its parts. -/
def edgeParts (classes : Option TemporalMap) (edge : Edge) : Line :=
  .edge (FlowGraph.nodeName edge.source) (FlowGraph.nodeName edge.target)
    (edgeAttributeList classes edge)

/-- The parts of a node make up its line in the drawing. -/
theorem text_nodeParts (classes : Option TemporalMap) (place : Nat) (node : Node) :
    (nodeParts classes place node).text = (nodeLine classes place node).toList := by
  cases classes with
  | none =>
      simp [nodeParts, nodeAttributeList, nodeLine, nodeAttributes, Line.text_node, Line.ending,
        Attribute.listText, Attribute.text, String.intercalate_cons_cons]
  | some known =>
      cases outlined : isOutlined node (known.input place) <;>
        simp [nodeParts, nodeAttributeList, nodeLine, nodeAttributes, Line.text_node, Line.ending,
          Attribute.listText, Attribute.text, String.intercalate_cons_cons, outlined]

/-- The parts of an edge make up its line in the drawing. -/
theorem text_edgeParts (classes : Option TemporalMap) (edge : Edge) :
    (edgeParts classes edge).text = (edgeLine classes edge).toList := by
  cases classes <;>
    simp [edgeParts, edgeAttributeList, edgeLine, Line.text_edge, Line.ending,
      Attribute.listText, Attribute.text, String.intercalate_cons_cons]

/-! ## Names in drawings -/

/-- Digits are the same in lower case. -/
theorem toLower_of_isDigit {c : Char} (isDigit : c.isDigit = true) : c.toLower = c := by
  have noLetter : (c.isUpper || c.isLower) = false := isAlpha_eq_false_of_isDigit isDigit
  obtain ⟨notUpper, -⟩ := Bool.or_eq_false_iff.mp noLetter
  exact dif_neg (of_decide_eq_false notUpper)

/-- No keyword has a digit for its second character. -/
theorem isId_nodeName (place : Nat) : IsId (FlowGraph.nodeName place) := by
  obtain ⟨digit, more, digits, isDigit, others⟩ := Number.exists_toString_eq_cons place
  have toList : (FlowGraph.nodeName place).toList = 'n' :: digit :: more := by
    rw [FlowGraph.nodeName, String.toList_append, digits]
    rfl
  have noKeyword : 'n' :: digit :: more.map Char.toLower ∉ keywords := by
    intro member
    have seconds : (keywords.all fun keyword => keyword.tail.head?.all (!·.isDigit)) = true := rfl
    have noDigit : (!digit.isDigit) = true := List.all_eq_true.mp seconds _ member
    rw [isDigit] at noDigit
    cases noDigit
  have lower : (FlowGraph.nodeName place).toList.map Char.toLower =
      'n' :: digit :: more.map Char.toLower := by
    rw [toList, List.map_cons, List.map_cons, toLower_of_isDigit isDigit]
    rfl
  refine ⟨⟨by rw [toList]; exact List.cons_ne_nil _ _, ?_⟩, ?_⟩
  · have isPart : ∀ c : Char, c.isDigit = true → isNamePart c = true := by
      intro c isDigit
      rw [isNamePart, Char.isAlphanum, isDigit, Bool.or_true, Bool.true_or]
    rw [toList]
    simp only [List.forall_mem_cons]
    exact ⟨rfl, isPart digit isDigit, fun c member => isPart c (others c member)⟩
  · have absent : keywords.contains ((FlowGraph.nodeName place).toList.map Char.toLower) =
        false := by
      rw [lower]
      simpa using noKeyword
    rw [isName, absent, toList]
    rfl

/-- Single words are checked by evaluation. -/
theorem IsWord.of_check (text : String)
    (checked : (!text.toList.isEmpty && text.toList.all isNamePart) = true) : IsWord text := by
  simp only [Bool.and_eq_true, Bool.not_eq_true', List.isEmpty_eq_false_iff, List.all_eq_true]
    at checked
  exact ⟨checked.1, checked.2⟩

theorem IsId.of_check (text : String)
    (checked : (!text.toList.isEmpty && text.toList.all isNamePart && isName text) = true) :
    IsId text := by
  obtain ⟨isWord, named⟩ := Bool.and_eq_true_iff.mp checked
  exact ⟨.of_check text isWord, named⟩

/-- The shape of a node names something. -/
theorem isId_shape (kind : OperatorKind) : IsId (shape kind) :=
  IsId.of_check _ (by cases kind <;> rfl)

/-- The colour of a node names something. -/
theorem isId_fill (given : TemporalClass) : IsId (fill given) := by
  cases given with
  | bounded => exact IsId.of_check "lightblue" rfl
  | liveWindowed => exact IsId.of_check "lightyellow" rfl
  | liveUnbounded => exact IsId.of_check "lightsalmon" rfl

theorem isId_edgeColour (given : TemporalClass) : IsId (edgeColour given) := by
  cases given with
  | bounded => exact IsId.of_check "gray40" rfl
  | liveWindowed => exact IsId.of_check "goldenrod" rfl
  | liveUnbounded => exact IsId.of_check "red" rfl

/-- A class is kept between quotes as it is. -/
theorem runs_class (given : TemporalClass) :
    Runs (.quoted []) given.label.toList [] (.quoted given.label.toList) := by
  have plain : (given.label.toList.all fun c => c != '"' && c != '\\') = true := by
    cases given <;> simp [TemporalClass.label]
  have read := runs_plain (by simpa using plain) []
  rwa [List.nil_append] at read

/-- A name of the language is kept between quotes, and so are options behind it. -/
theorem runs_label {node : Node} (isName : node.name.toList ∈ Pattern.name) :
    Runs (.quoted []) (label node).toList [] (.quoted (label node).toList) := by
  have plain : ∀ c ∈ node.name.toList, c ≠ '"' ∧ c ≠ '\\' := by
    intro c member
    have isPart := isNamePart_of_mem_name isName c member
    constructor <;> (rintro rfl; cases isPart)
  have name := runs_plain plain []
  rw [label]
  split_ifs with noOptions
  · simpa using name
  · have newline (read : List Char) :
        Runs (.quoted read) "\\n".toList [] (.quoted (read ++ "\\n".toList)) := fun _ => rfl
    have whole := name.append ((newline _).append (runs_escaped node.options.text _))
    simpa using whole

/-- The line of a node is proper if the proc is named as in programs. -/
theorem proper_nodeParts (classes : Option TemporalMap) (place : Nat) {node : Node}
    (isName : node.name.toList ∈ Pattern.name) : (nodeParts classes place node).Proper := by
  have word {name value : String} (isId : IsId name) (isValue : IsId value) :
      Attribute.Proper ⟨name, value, false⟩ := ⟨isId, isValue⟩
  have isShape := word (IsId.of_check "shape" rfl) (isId_shape node.kind)
  have isLabel : Attribute.Proper ⟨"label", label node, true⟩ :=
    ⟨IsId.of_check "label" rfl, runs_label isName⟩
  refine ⟨isId_nodeName place, ?_⟩
  cases classes with
  | none => exact List.forall_mem_cons.mpr ⟨isShape, List.forall_mem_singleton.mpr isLabel⟩
  | some known =>
      have isStyle := word (IsId.of_check "style" rfl) (IsId.of_check "filled" rfl)
      have isFill := word (IsId.of_check "fillcolor" rfl) (isId_fill (known.output place))
      have isColour := word (IsId.of_check "color" rfl) (IsId.of_check "red" rfl)
      have isWidth := word (IsId.of_check "penwidth" rfl) (IsId.of_check "2" rfl)
      rw [nodeAttributeList]
      split_ifs <;> simp [isShape, isLabel, isStyle, isFill, isColour, isWidth]

/-- The line of an edge is proper. -/
theorem proper_edgeParts (classes : Option TemporalMap) (edge : Edge) :
    (edgeParts classes edge).Proper := by
  refine ⟨isId_nodeName _, isId_nodeName _, ?_⟩
  cases classes with
  | none => simp [edgeAttributeList]
  | some known =>
      have isColour : Attribute.Proper ⟨"color", edgeColour (known.output edge.source), false⟩ :=
        ⟨IsId.of_check "color" rfl, isId_edgeColour _⟩
      have isLabel : Attribute.Proper ⟨"label", (known.output edge.source).label, true⟩ :=
        ⟨IsId.of_check "label" rfl, runs_class _⟩
      exact List.forall_mem_cons.mpr ⟨isLabel, List.forall_mem_singleton.mpr isColour⟩

/-! ## The whole text -/

/-- The attributes that nodes and edges have if they do not say otherwise. -/
def font (size : String) : List Attribute :=
  [⟨"fontname", "Helvetica", true⟩, ⟨"fontsize", size, false⟩]

/-- The statements before those of nodes and edges, with their symbols. -/
def headerParts : List (List Symbol × Statement) :=
  [([.word "rankdir", .sign '=', .word "LR"], .setting "rankdir" "LR"),
    (.word "node" :: Line.endingSymbols (font "10"),
      .defaults "node" ((font "10").map Attribute.pair)),
    (.word "edge" :: Line.endingSymbols (font "9"),
      .defaults "edge" ((font "9").map Attribute.pair))]

/-- What stands before the first statement. -/
def beginning : List Symbol :=
  [.word "digraph", .word "flowc", .sign '\x7b']

/-- The symbols before the nodes are read as settings, one statement each. -/
theorem readStatement_headerParts :
    ∀ part ∈ headerParts, Symbol.sign ';' ∉ part.1 ∧ readStatement part.1 = some part.2 := by
  decide +kernel

theorem proper_font {size : String} (isSize : IsId size) : ∀ given ∈ font size, given.Proper := by
  have isFont : Attribute.Proper ⟨"fontname", "Helvetica", true⟩ :=
    ⟨IsId.of_check "fontname" rfl, fun _ => rfl⟩
  have isFontSize : Attribute.Proper ⟨"fontsize", size, false⟩ :=
    ⟨IsId.of_check "fontsize" rfl, isSize⟩
  exact List.forall_mem_cons.mpr ⟨isFont, List.forall_mem_singleton.mpr isFontSize⟩

/-- What stands before the nodes is read as the settings of the drawing. -/
theorem runs_header : Runs .nothing header.toList
    (beginning ++ headerParts.flatMap fun part => part.1 ++ [Symbol.sign ';']) .nothing := by
  have begins : Runs .nothing "digraph flowc \x7b\n".toList beginning .nothing := fun _ => rfl
  have direction : Runs .nothing "    rankdir=LR;\n".toList
      [.word "rankdir", .sign '=', .word "LR", .sign ';'] .nothing := fun _ => rfl
  have indent : Runs .nothing "    ".toList [] .nothing := fun _ => rfl
  have newline : Runs .nothing ['\n'] [] .nothing := fun _ => rfl
  have isNode : IsWord "node" := .of_check _ rfl
  have isEdge : IsWord "edge" := .of_check _ rfl
  have nodes := indent.append (Line.runs_ending (proper_font (IsId.of_check "10" rfl)) isNode)
  have edges := indent.append (Line.runs_ending (proper_font (IsId.of_check "9" rfl)) isEdge)
  have whole := begins.append (direction.append (nodes.append (edges.append newline)))
  have text : header.toList = "digraph flowc \x7b\n".toList ++ ("    rankdir=LR;\n".toList ++
      (("    ".toList ++ ("node".toList ++ Line.ending (font "10"))) ++
        (("    ".toList ++ ("edge".toList ++ Line.ending (font "9"))) ++ ['\n']))) := by
    decide +kernel
  rwa [← text] at whole

/-- The lines of the nodes and edges with their parts. -/
def lines (graph : FlowGraph) (classes : Option TemporalMap) : List Line :=
  graph.nodes.mapIdx (nodeParts classes) ++ graph.edges.map (edgeParts classes)

/-- A drawing is its header, then its lines, with a blank line before the edges. -/
theorem toList_render (graph : FlowGraph) (classes : Option TemporalMap) :
    (render graph classes).toList = header.toList ++
      (((graph.nodes.mapIdx (nodeParts classes)).flatMap Line.text) ++
        ((if graph.edges.isEmpty then [] else ['\n']) ++
          (((graph.edges.map (edgeParts classes)).flatMap Line.text) ++ ['\x7d', '\n']))) := by
  have nodes : (String.join (graph.nodes.mapIdx (nodeLine classes))).toList =
      (graph.nodes.mapIdx (nodeParts classes)).flatMap Line.text := by
    rw [String.toList_join, List.mapIdx_eq_zipIdx_map, List.mapIdx_eq_zipIdx_map, List.flatMap_map,
      List.flatMap_map]
    simp only [text_nodeParts]
  have edges : (String.join (graph.edges.map (edgeLine classes))).toList =
      (graph.edges.map (edgeParts classes)).flatMap Line.text := by
    rw [String.toList_join, List.flatMap_map, List.flatMap_map]
    simp only [text_edgeParts]
  have gap : (if graph.edges.isEmpty then "" else "\n").toList =
      if graph.edges.isEmpty then [] else ['\n'] := by
    split_ifs <;> rfl
  simp only [render, String.toList_append, nodes, edges, gap, List.append_assoc]
  rfl

/-- All lines of a graph are proper if its procs are named as in programs. -/
theorem proper_of_mem_lines {graph : FlowGraph} {classes : Option TemporalMap}
    (named : ∀ node ∈ graph.nodes, node.name.toList ∈ Pattern.name) :
    ∀ line ∈ lines graph classes, line.Proper := by
  intro line member
  rcases List.mem_append.mp member with isNode | isEdge
  · obtain ⟨place, bound, rfl⟩ := List.mem_mapIdx.mp isNode
    exact proper_nodeParts classes place (named _ (List.getElem_mem bound))
  · obtain ⟨edge, -, rfl⟩ := List.mem_map.mp isEdge
    exact proper_edgeParts classes edge

/-- A drawing is read as the symbols of its header and of its lines. -/
theorem runs_render {graph : FlowGraph} {classes : Option TemporalMap}
    (proper : ∀ line ∈ lines graph classes, line.Proper) :
    Runs .nothing (render graph classes).toList
      (beginning ++ ((headerParts.flatMap fun part => part.1 ++ [Symbol.sign ';']) ++
        (((lines graph classes).flatMap fun line => line.symbols ++ [Symbol.sign ';']) ++
          [Symbol.sign '\x7d']))) .nothing := by
  obtain ⟨properNodes, properEdges⟩ := List.forall_mem_append.mp proper
  have nodes := runs_flatMap fun line member => (properNodes line member).runs
  have edges := runs_flatMap fun line member => (properEdges line member).runs
  have gap : Runs .nothing (if graph.edges.isEmpty then [] else ['\n']) [] .nothing := by
    split_ifs
    · exact runs_nil _
    · exact runs_step .nothing '\n'
  have closing : Runs .nothing ['\x7d', '\n'] [.sign '\x7d'] .nothing := fun _ => rfl
  have whole := runs_header.append (nodes.append (gap.append (edges.append closing)))
  rw [toList_render, lines, List.flatMap_append]
  simpa using whole

/-- The text of a graph is read as a drawing with its nodes and edges. -/
theorem read?_render {graph : FlowGraph} (classes : Option TemporalMap)
    (named : ∀ node ∈ graph.nodes, node.name.toList ∈ Pattern.name) :
    read? (render graph classes) =
      some ⟨"flowc", headerParts.map Prod.snd ++ (lines graph classes).map Line.statement⟩ := by
  have proper : ∀ line ∈ lines graph classes, line.Proper := proper_of_mem_lines named
  have symbols := runs_render proper []
  rw [List.append_nil, symbolsFrom, Pending.close, List.append_nil] at symbols
  have header := readStatements_flatMap
    (fun part member => (readStatement_headerParts part member).1)
    fun part member => (readStatement_headerParts part member).2
  have content := readStatements_flatMap (fun line _ => Line.semicolon_not_mem_symbols line)
    fun line member => (proper line member).readStatement
  have last : readStatements [] [.sign '\x7d'] = some [] := rfl
  rw [read?, symbols]
  simp only [beginning, List.cons_append, List.nil_append, header, content, last]
  simp [(IsId.of_check "flowc" rfl).name?]

/-! ## What the drawing shows -/

/-- The nodes and edges of a drawing are those of a graph, and nothing else is drawn. -/
structure Drawing.Shows (drawing : Drawing) (graph : FlowGraph) : Prop where
  nodes : drawing.nodes.map Prod.fst = (List.range graph.size).map FlowGraph.nodeName
  edges : drawing.edges.map Prod.fst =
    graph.edges.map fun edge => (FlowGraph.nodeName edge.source, FlowGraph.nodeName edge.target)
  statements : drawing.statements = headerParts.map Prod.snd ++
    (drawing.nodes.map (fun (name, attributes) => .node name attributes) ++
      drawing.edges.map fun ((source, target), attributes) => .edge source target attributes)

/-- Nodes and edges bear the classes of their data, and certain nodes are outlined in red. -/
structure Drawing.Marks (drawing : Drawing) (graph : FlowGraph) (classes : TemporalMap)
    (outlined : List Nat) : Prop where
  labels : (drawing.edges.map fun (_, attributes) => valueOf "label" attributes) =
    graph.edges.map fun edge => some (classes.output edge.source).label
  fills : (drawing.nodes.map fun (_, attributes) => valueOf "fillcolor" attributes) =
    (List.range graph.size).map fun place => some (fill (classes.output place))
  outlines : (drawing.nodes.map fun (_, attributes) =>
      (valueOf "color" attributes, valueOf "penwidth" attributes)) =
    (List.range graph.size).map fun place =>
      if place ∈ outlined then (some "red", some "2") else (none, none)

/-- The drawing of a graph. -/
def drawing (graph : FlowGraph) (classes : Option TemporalMap) : Drawing where
  name := "flowc"
  statements := headerParts.map Prod.snd ++ (lines graph classes).map Line.statement

/-- The nodes of a drawing are those of the graph with their attributes. -/
theorem nodes_drawing (graph : FlowGraph) (classes : Option TemporalMap) :
    (drawing graph classes).nodes = graph.nodes.mapIdx fun place node =>
      (FlowGraph.nodeName place, (nodeAttributeList classes place node).map Attribute.pair) := by
  have header : (headerParts.map Prod.snd).filterMap Statement.node? = [] := rfl
  rw [Drawing.nodes, drawing, List.filterMap_append, header]
  simp [lines, List.mapIdx_eq_zipIdx_map, List.filterMap_map, Function.comp_def, nodeParts,
    edgeParts, Line.statement, Statement.node?]

/-- The edges of a drawing are those of the graph with their attributes. -/
theorem edges_drawing (graph : FlowGraph) (classes : Option TemporalMap) :
    (drawing graph classes).edges = graph.edges.map fun edge =>
      ((FlowGraph.nodeName edge.source, FlowGraph.nodeName edge.target),
        (edgeAttributeList classes edge).map Attribute.pair) := by
  have header : (headerParts.map Prod.snd).filterMap Statement.edge? = [] := rfl
  rw [Drawing.edges, drawing, List.filterMap_append, header]
  simp [lines, List.mapIdx_eq_zipIdx_map, List.filterMap_map, Function.comp_def, nodeParts,
    edgeParts, Line.statement, Statement.edge?]

theorem map_mapIdx {α β γ : Type} (items : List α) (write : Nat → α → β) (change : β → γ) :
    (items.mapIdx write).map change = items.mapIdx fun place item => change (write place item) := by
  rw [List.mapIdx_eq_zipIdx_map, List.mapIdx_eq_zipIdx_map, List.map_map]
  rfl

/-- What depends on the places of nodes only. -/
theorem mapIdx_eq_map_range {α β : Type} (items : List α) {write : Nat → α → β} {known : Nat → β}
    (each : ∀ place item, items[place]? = some item → write place item = known place) :
    items.mapIdx write = (List.range items.length).map known := by
  refine List.ext_getElem (by simp) fun place bound _ => ?_
  rw [List.length_mapIdx] at bound
  rw [List.getElem_mapIdx, List.getElem_map, List.getElem_range]
  exact each place _ (List.getElem?_eq_getElem bound)

/-- The drawing of a graph shows its nodes and edges and nothing else. -/
theorem shows_drawing (graph : FlowGraph) (classes : Option TemporalMap) :
    (drawing graph classes).Shows graph where
  nodes := by
    rw [nodes_drawing, map_mapIdx]
    exact mapIdx_eq_map_range graph.nodes fun _ _ _ => rfl
  edges := by
    rw [edges_drawing, List.map_map]
    rfl
  statements := by
    rw [nodes_drawing, edges_drawing, drawing, lines, List.map_append, map_mapIdx,
      map_mapIdx, List.map_map, List.map_map]
    rfl

/-- The outlined operators are those that are reported. -/
theorem isOutlined_iff {graph : FlowGraph} {classes : TemporalMap} (wellFormed : graph.WellFormed)
    (found : graph.propagate? = some classes) {place : Nat} {node : Node}
    (present : graph.nodes[place]? = some node) :
    isOutlined node (classes.input place) = true ↔
      place ∈ (graph.violations classes).map Violation.node := by
  have inOrder : place ∈ classes.order :=
    ((FlowGraph.isOrder_of_propagate? wellFormed found).mem_iff place).mpr
      (List.getElem?_eq_some_iff.mp present).1
  have reported : isOutlined node (classes.input place) = true ↔
      ∃ violation, graph.violationAt? classes place = some violation := by
    rw [isOutlined, Bool.and_eq_true, beq_iff_eq]
    constructor
    · rintro ⟨required, refused⟩
      rw [required, Requirement.admits, Bool.not_not] at refused
      cases input : classes.input place with
      | liveUnbounded blamed =>
          exact ⟨_, FlowGraph.violationAt?_eq_some_iff.mpr
            ⟨node, blamed, present, required, input, rfl⟩⟩
      | bounded | liveWindowed blamed =>
          rw [input] at refused
          cases refused
    · rintro ⟨violation, isViolation⟩
      obtain ⟨other, blamed, isOther, required, input, -⟩ :=
        FlowGraph.violationAt?_eq_some_iff.mp isViolation
      obtain rfl := Option.some.inj (present.symm.trans isOther)
      rw [required, input]
      exact ⟨rfl, rfl⟩
  rw [FlowGraph.map_node_violations, List.mem_filter, Option.isSome_iff_exists, ← reported]
  exact ⟨fun outlined => ⟨inOrder, outlined⟩, And.right⟩

/-- The drawing of a graph bears the classes and outlines the violations. -/
theorem marks_drawing {graph : FlowGraph} {classes : TemporalMap} (wellFormed : graph.WellFormed)
    (found : graph.propagate? = some classes) :
    (drawing graph (some classes)).Marks graph classes
      ((graph.violations classes).map Violation.node) where
  labels := by
    rw [edges_drawing, List.map_map]
    rfl
  fills := by
    rw [nodes_drawing, map_mapIdx]
    refine mapIdx_eq_map_range graph.nodes fun place node _ => ?_
    simp only [nodeAttributeList]
    split_ifs <;> rfl
  outlines := by
    rw [nodes_drawing, map_mapIdx]
    refine mapIdx_eq_map_range graph.nodes fun place node present => ?_
    simp only [nodeAttributeList, ← isOutlined_iff wellFormed found present]
    split_ifs <;> rfl

/-! ## Main result -/

/--
The text of a graph without cycles, whose operators are named as in programs, is read as
a drawing of its nodes, one after the other, and then of its edges, each as often as it is in
the graph.  An edge is labelled with the class that its source gives out, and a node has the
colour of the class that it gives out.  Exactly the operators that are reported as violations are
outlined in red.  Without the classes the same nodes and edges are drawn.
-/
theorem render_faithful {graph : FlowGraph} (wellFormed : graph.WellFormed)
    (acyclic : graph.Acyclic)
    (named : ∀ node ∈ graph.nodes, node.name.toList ∈ Pattern.name) :
    ∃ classes violations coloured plain, graph.propagate? = some classes ∧
      graph.findViolations? = some violations ∧
      read? (render graph (some classes)) = some coloured ∧
      coloured.Shows graph ∧ coloured.Marks graph classes (violations.map Violation.node) ∧
      read? (render graph none) = some plain ∧ plain.Shows graph := by
  obtain ⟨classes, found⟩ := FlowGraph.propagate?_of_acyclic wellFormed acyclic
  exact ⟨classes, graph.violations classes, _, _, found, FlowGraph.findViolations?_eq found,
    read?_render (some classes) named, shows_drawing graph (some classes),
    marks_drawing wellFormed found, read?_render none named, shows_drawing graph none⟩

/-- Two sources that are merged, where what is merged is sorted twice over. -/
def mergedTwice : FlowGraph :=
  FlowGraph.mergedSources.addEdge 3 4

/-- Both edges to the operator that sorts are drawn, and this operator is outlined. -/
theorem render_faithful_mergedTwice :
    ∃ classes coloured, mergedTwice.propagate? = some classes ∧
      read? (render mergedTwice (some classes)) = some coloured ∧
      coloured.edges.map Prod.fst =
        [("n0", "n3"), ("n1", "n2"), ("n2", "n3"), ("n3", "n4"), ("n3", "n4")] ∧
      coloured.nodes.map Prod.fst = ["n0", "n1", "n2", "n3", "n4"] ∧
      (coloured.nodes.map fun (_, attributes) =>
          (valueOf "color" attributes, valueOf "penwidth" attributes)) =
        [(none, none), (none, none), (none, none), (none, none), (some "red", some "2")] := by
  have names : ∀ name ∈ ["read", "put", "merge", "sort"], name.toList ∈ Pattern.name := by
    simp only [List.forall_mem_cons, List.not_mem_nil, false_imp_iff, implies_true, and_true]
    exact ⟨mem_name_of_all (by decide) (by decide), mem_name_of_all (by decide) (by decide),
      mem_name_of_all (by decide) (by decide), mem_name_of_all (by decide) (by decide)⟩
  have isName : ∀ node ∈ mergedTwice.nodes, node.name ∈ ["read", "put", "merge", "sort"] := by
    decide
  obtain ⟨classes, violations, coloured, -, found, reported, read, shown, marks, -⟩ :=
    render_faithful (by decide)
      (FlowGraph.acyclic_of_ascending (by decide)) fun node member => names _ (isName node member)
  have computed : mergedTwice.findViolations?.map (List.map Violation.node) = some [4] := by
    decide
  rw [reported, Option.map_some, Option.some.injEq] at computed
  refine ⟨classes, coloured, found, read, shown.edges, shown.nodes, ?_⟩
  rw [marks.outlines, computed]
  decide

end Flowgraph.Dot
