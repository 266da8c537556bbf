import Flowgraph.Graph.Dot
import Flowgraph.Token.Lexeme
import Mathlib.Tactic.ByContra
import Mathlib.Tactic.SplitIfs

/-!
# Reading drawings

The part of the DOT language in which graphs are drawn: a directed graph with a name, whose
statements end with semicolons.  A statement sets an attribute of the drawing or the
attributes that nodes and edges have if they do not say otherwise, or it is about one node or
one edge.  Ports, subgraphs and comments are refused, and so is whatever is not DOT.

Texts are read character by character; what has been read of a symbol that may go on is
pending.  So a text can be read in parts (`Runs.append`), each of which begins with
what the part before has left pending.
-/

namespace Flowgraph.Dot

/-! ## Symbols -/

/-- The least parts of a text. -/
inductive Symbol where
  /-- Letters, digits and underscores. -/
  | word (text : String)
  /-- The characters between two quotes; a backslash and what follows it are both kept. -/
  | quoted (text : String)
  /-- The arrow between the ends of an edge. -/
  | arrow
  | sign (c : Char)
  /-- A quote that is not closed. -/
  | unclosed
deriving DecidableEq

/-- What has been read of a symbol. -/
inductive Pending where
  | nothing
  | word (text : List Char)
  | quoted (text : List Char)
  /-- A backslash between quotes. -/
  | escape (text : List Char)
  /-- A dash, which may become an arrow. -/
  | dash

namespace Pending

/-- What a character begins, or what it is by itself. -/
def start (c : Char) : List Symbol × Pending :=
  if isLayout c then ([], nothing)
  else if isNamePart c then ([], word [c])
  else if c = '"' then ([], quoted [])
  else if c = '-' then ([], dash)
  else ([.sign c], nothing)

/-- The symbol that ends before a character or with it, and what is pending after it. -/
def step : Pending → Char → List Symbol × Pending
  | nothing, c => start c
  | word text, c =>
      if isNamePart c then ([], word (text ++ [c]))
      else (.word (String.ofList text) :: (start c).1, (start c).2)
  | quoted text, c =>
      if c = '"' then ([.quoted (String.ofList text)], nothing)
      else if c = '\\' then ([], escape text)
      else ([], quoted (text ++ [c]))
  | escape text, c => ([], quoted (text ++ ['\\', c]))
  | dash, c =>
      if c = '>' then ([.arrow], nothing) else (.sign '-' :: (start c).1, (start c).2)

/-- What is pending at the end of the text. -/
def close : Pending → List Symbol
  | nothing => []
  | word text => [.word (String.ofList text)]
  | quoted _ | escape _ => [.unclosed]
  | dash => [.sign '-']

end Pending

/-- The symbols of a text, of which a part is pending. -/
def symbolsFrom : Pending → List Char → List Symbol
  | pending, [] => pending.close
  | pending, c :: rest => (pending.step c).1 ++ symbolsFrom (pending.step c).2 rest

/-! ## Statements -/

/-- The words that name nothing, in whatever case they are written. -/
def keywords : List (List Char) :=
  ["node", "edge", "graph", "digraph", "subgraph", "strict"].map String.toList

/-- A word that names something: it begins with no digit, or it is a number. -/
def isName (text : String) : Bool :=
  (text.toList.head?.all (fun c => !c.isDigit) && !keywords.contains (text.toList.map Char.toLower))
    || text.toList.all Char.isDigit

/-- The name or the value that a symbol stands for; quotes make no difference. -/
def Symbol.name? : Symbol → Option String
  | word text => if isName text then some text else none
  | quoted text => some text
  | arrow | sign _ | unclosed => none

/-- The names of attributes with their values. -/
abbrev Attributes := List (String × String)

/-- A statement of a drawing. -/
inductive Statement where
  /-- An attribute of the drawing itself. -/
  | setting (name value : String)
  /-- The attributes of what does not say otherwise. -/
  | defaults (what : String) (attributes : Attributes)
  | node (name : String) (attributes : Attributes)
  | edge (source target : String) (attributes : Attributes)
deriving DecidableEq

/-- Attributes with commas between them, up to the closing bracket. -/
def readList : List Symbol → Option Attributes
  | name :: .sign '=' :: value :: .sign mark :: rest => do
      let given := (← name.name?, ← value.name?)
      if mark = ',' then return given :: (← readList rest)
      else if mark = ']' ∧ rest = [] then return [given]
      else none
  | _ => none

/-- Attributes in brackets, or none. -/
def readAttributes : List Symbol → Option Attributes
  | [] => some []
  | .sign '[' :: rest => readList rest
  | _ => none

/-- One statement, without its semicolon. -/
def readStatement : List Symbol → Option Statement
  | [name, .sign '=', value] => return .setting (← name.name?) (← value.name?)
  | source :: .arrow :: target :: attributes =>
      return .edge (← source.name?) (← target.name?) (← readAttributes attributes)
  | .word what :: attributes =>
      if what ∈ ["graph", "node", "edge"] then
        return .defaults what (← readAttributes attributes)
      else return .node (← (Symbol.word what).name?) (← readAttributes attributes)
  | name :: attributes => return .node (← name.name?) (← readAttributes attributes)
  | [] => none

/-- Statements up to the closing brace; the symbols of the first may have begun before. -/
def readStatements (before : List Symbol) : List Symbol → Option (List Statement)
  | [] => none
  | symbol :: rest =>
      if symbol = .sign ';' then
        return (← readStatement before) :: (← readStatements [] rest)
      else if symbol = .sign '\x7d' ∧ rest = [] then
        if before = [] then some [] else none
      else readStatements (before ++ [symbol]) rest

/-- A directed graph as it is drawn. -/
structure Drawing where
  name : String
  statements : List Statement
deriving DecidableEq

/-- The name and the attributes of a node. -/
def Statement.node? : Statement → Option (String × Attributes)
  | node name attributes => some (name, attributes)
  | _ => none

/-- The ends and the attributes of an edge. -/
def Statement.edge? : Statement → Option ((String × String) × Attributes)
  | edge source target attributes => some ((source, target), attributes)
  | _ => none

namespace Drawing

/-- The statements about nodes, in order. -/
def nodes (drawing : Drawing) : List (String × Attributes) :=
  drawing.statements.filterMap Statement.node?

/-- The statements about edges, in order. -/
def edges (drawing : Drawing) : List ((String × String) × Attributes) :=
  drawing.statements.filterMap Statement.edge?

end Drawing

/-- The value of an attribute; of two alike the last counts. -/
def valueOf (name : String) (attributes : Attributes) : Option String :=
  attributes.reverse.lookup name

/-- The drawing that a text describes. -/
def read? (text : String) : Option Drawing :=
  match symbolsFrom .nothing text.toList with
  | .word "digraph" :: name :: .sign '\x7b' :: body =>
      return ⟨← name.name?, ← readStatements [] body⟩
  | _ => none

/-! ## Reading in parts -/

/-- With something pending, a text is read as symbols, and then something else is pending. -/
def Runs (before : Pending) (text : List Char) (symbols : List Symbol) (after : Pending) : Prop :=
  ∀ rest, symbolsFrom before (text ++ rest) = symbols ++ symbolsFrom after rest

theorem runs_nil (pending : Pending) : Runs pending [] [] pending :=
  fun _ => rfl

theorem runs_step (pending : Pending) (c : Char) :
    Runs pending [c] (pending.step c).1 (pending.step c).2 :=
  fun _ => rfl

theorem Runs.append {before between after : Pending} {first second : List Char}
    {symbols more : List Symbol} (runsFirst : Runs before first symbols between)
    (runsSecond : Runs between second more after) :
    Runs before (first ++ second) (symbols ++ more) after := by
  intro rest
  rw [List.append_assoc, runsFirst, runsSecond, List.append_assoc]

/-- Texts after each of which nothing is pending are read one after the other. -/
theorem runs_flatMap {α : Type} {write : α → List Char} {symbols : α → List Symbol}
    {items : List α} (each : ∀ item ∈ items, Runs .nothing (write item) (symbols item) .nothing) :
    Runs .nothing (items.flatMap write) (items.flatMap symbols) .nothing := by
  induction items with
  | nil => exact runs_nil _
  | cons item rest ih =>
      obtain ⟨first, others⟩ := List.forall_mem_cons.mp each
      exact first.append (ih others)

theorem runs_wordRest {text : List Char} (parts : ∀ c ∈ text, isNamePart c = true)
    (read : List Char) : Runs (.word read) text [] (.word (read ++ text)) := by
  induction text generalizing read with
  | nil =>
      rw [List.append_nil]
      exact runs_nil _
  | cons c rest ih =>
      obtain ⟨isPart, others⟩ := List.forall_mem_cons.mp parts
      have first := runs_step (.word read) c
      rw [Pending.step, if_pos isPart] at first
      have whole := first.append (ih others _)
      rwa [List.append_assoc] at whole

/-- A word goes on until something else follows. -/
theorem runs_word {text : List Char} (nonempty : text ≠ [])
    (parts : ∀ c ∈ text, isNamePart c = true) : Runs .nothing text [] (.word text) := by
  obtain ⟨first, rest, rfl⟩ := List.exists_cons_of_ne_nil nonempty
  obtain ⟨isPart, others⟩ := List.forall_mem_cons.mp parts
  have visible : isLayout first = false := by
    by_contra layout
    simp only [isLayout, Bool.not_eq_false, Bool.or_eq_true, beq_iff_eq] at layout
    rcases layout with (((rfl | rfl) | rfl) | rfl) | rfl <;> cases isPart
  have begins := runs_step .nothing first
  rw [Pending.step, Pending.start, visible, if_neg (by simp), if_pos isPart] at begins
  exact begins.append (runs_wordRest others [first])

/-- Between quotes, text without quotes and backslashes is kept. -/
theorem runs_plain {text : List Char} (plain : ∀ c ∈ text, c ≠ '"' ∧ c ≠ '\\')
    (read : List Char) : Runs (.quoted read) text [] (.quoted (read ++ text)) := by
  induction text generalizing read with
  | nil =>
      rw [List.append_nil]
      exact runs_nil _
  | cons c rest ih =>
      obtain ⟨⟨noQuote, noBackslash⟩, others⟩ := List.forall_mem_cons.mp plain
      have first := runs_step (.quoted read) c
      rw [Pending.step, if_neg noQuote, if_neg noBackslash] at first
      have whole := first.append (ih others _)
      rwa [List.append_assoc] at whole

/-- Between quotes, an escaped text goes on up to the quote that follows it. -/
theorem runs_escaped (text : String) (read : List Char) :
    Runs (.quoted read) (escaped text).toList [] (.quoted (read ++ (escaped text).toList)) := by
  rw [escaped, String.toList_ofList]
  generalize text.toList = text
  induction text generalizing read with
  | nil =>
      rw [List.flatMap_nil, List.append_nil]
      exact runs_nil _
  | cons c rest ih =>
      have first : Runs (.quoted read)
          (if c = '\\' then ['\\', '\\'] else if c = '"' then ['\\', '"'] else [c]) []
          (.quoted (read ++
            if c = '\\' then ['\\', '\\'] else if c = '"' then ['\\', '"'] else [c])) := by
        split_ifs with backslash quote
        · exact fun _ => rfl
        · exact fun _ => rfl
        · exact runs_plain (List.forall_mem_singleton.mpr ⟨quote, backslash⟩) read
      rw [List.flatMap_cons, ← List.append_assoc]
      exact first.append (ih _)

/-! ## Reading statements -/

/-- A statement ends at its semicolon. -/
theorem readStatements_cons {symbols : List Symbol} (inner : Symbol.sign ';' ∉ symbols)
    (before rest : List Symbol) :
    readStatements before (symbols ++ .sign ';' :: rest) =
      (readStatement (before ++ symbols)).bind fun first =>
        (readStatements [] rest).map (first :: ·) := by
  induction symbols generalizing before with
  | nil =>
      rw [List.nil_append, readStatements, if_pos rfl, List.append_nil]
      cases readStatement before <;> cases readStatements [] rest <;> rfl
  | cons symbol others ih =>
      rw [List.mem_cons, not_or] at inner
      have notLast : ¬ (symbol = .sign '\x7d' ∧ others ++ .sign ';' :: rest = []) := by simp
      rw [List.cons_append, readStatements, if_neg (Ne.symm inner.1), if_neg notLast, ih inner.2,
        List.append_assoc]
      rfl

/-- Statements are read one after the other. -/
theorem readStatements_flatMap {α : Type} {symbols : α → List Symbol} {statement : α → Statement}
    {items : List α} (inner : ∀ item ∈ items, Symbol.sign ';' ∉ symbols item)
    (each : ∀ item ∈ items, readStatement (symbols item) = some (statement item))
    (rest : List Symbol) :
    readStatements [] ((items.flatMap fun item => symbols item ++ [.sign ';']) ++ rest) =
      (readStatements [] rest).map (items.map statement ++ ·) := by
  induction items with
  | nil => simp
  | cons item others ih =>
      obtain ⟨innerFirst, innerOthers⟩ := List.forall_mem_cons.mp inner
      obtain ⟨first, eachOther⟩ := List.forall_mem_cons.mp each
      rw [List.flatMap_cons, List.append_assoc, List.append_assoc, List.singleton_append,
        readStatements_cons innerFirst, List.nil_append, first, Option.bind_some,
        ih innerOthers eachOther, Option.map_map]
      rfl

end Flowgraph.Dot
