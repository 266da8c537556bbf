import Flowgraph.Program.Parse
import Mathlib.Data.List.Basic

/-!
# Derivations of programs

A derivation says which rules of the grammar make a list of tokens a program.  It is a
tree: one constructor for each rule, and a leaf for each token with its place.

```
program := [chain (';' chain)* [';']]
chain   := stage ('|' stage)*
stage   := proc | '(' chain (';' chain)* [';'] ')'
proc    := IDENTIFIER item*
item    := (OPTION value | value) [',']
value   := term [COMPARISON term]
term    := NUMBER | STRING | MOMENT | IDENTIFIER | IDENTIFIER '(' [value (',' value)*] ')'
```

The leaves from left to right are the tokens that the tree derives, and the tree without
its commas, bars and semicolons is the program that it describes.
-/

namespace Flowgraph

/-- The bytes from the first token of a part to its last. -/
def extent (tokens : List PlacedToken) : Span :=
  tokensSpan 0 tokens

/-- A name as the token of an identifier. -/
def Ident.token (name : Ident) : PlacedToken :=
  ⟨.identifier name.name, name.span⟩

/-- A name as the token that names an option. -/
def Ident.optionToken (name : Ident) : PlacedToken :=
  ⟨.optionName name.name, name.span⟩

/-- A token that may be left out: the place where it stands, if it does. -/
def Token.optional (token : Token) : Option Span → List PlacedToken
  | some span => [⟨token, span⟩]
  | none => []

/-! ## Values -/

mutual

/-- A literal, a name, or a call; a call without arguments is a rule of its own. -/
inductive TermTree where
  | number (value : Number.Binary64) (span : Span)
  | string (value : String) (span : Span)
  | moment (text : String) (span : Span)
  | ident (name : Ident)
  | emptyCall (name : Ident) (opening closing : Span)
  | call (name : Ident) (opening : Span) (arguments : ValueTrees) (closing : Span)

/-- A term, or two terms with the sign of a comparison between them. -/
inductive ValueTree where
  | term (term : TermTree)
  | compare (left : TermTree) (operator : Comparison) (sign : Span) (right : TermTree)

/-- One value, or several with commas between them. -/
inductive ValueTrees where
  | last (value : ValueTree)
  | more (value : ValueTree) (comma : Span) (rest : ValueTrees)

end

mutual

/-- The leaves of a term from left to right. -/
def TermTree.tokens : TermTree → List PlacedToken
  | .number value span => [⟨.number value, span⟩]
  | .string value span => [⟨.string value, span⟩]
  | .moment text span => [⟨.moment text, span⟩]
  | .ident name => [name.token]
  | .emptyCall name opening closing =>
      [name.token, ⟨.openParenthesis, opening⟩, ⟨.closeParenthesis, closing⟩]
  | .call name opening arguments closing =>
      name.token :: ⟨.openParenthesis, opening⟩ ::
        (arguments.tokens ++ [⟨.closeParenthesis, closing⟩])

def ValueTree.tokens : ValueTree → List PlacedToken
  | .term term => term.tokens
  | .compare left operator sign right =>
      left.tokens ++ ⟨.comparison operator, sign⟩ :: right.tokens

def ValueTrees.tokens : ValueTrees → List PlacedToken
  | .last value => value.tokens
  | .more value comma rest => value.tokens ++ ⟨.comma, comma⟩ :: rest.tokens

end

mutual

/-- The value that a term describes. -/
def TermTree.expr : TermTree → Expr
  | .number value span => .number value span
  | .string value span => .string value span
  | .moment text span => .moment text span
  | .ident name => .ident name
  | .emptyCall name _ closing => .call name [] (name.span.through closing)
  | .call name _ arguments closing => .call name arguments.exprs (name.span.through closing)

def ValueTree.expr : ValueTree → Expr
  | .term term => term.expr
  | .compare left operator _ right =>
      .compare left.expr operator right.expr (left.expr.span.through right.expr.span)

def ValueTrees.exprs : ValueTrees → List Expr
  | .last value => [value.expr]
  | .more value _ rest => value.expr :: rest.exprs

end

/-! ## Procs -/

/-- An item of a proc: a value, maybe after the name of an option, maybe before a comma. -/
structure ItemTree where
  option : Option Ident
  value : ValueTree
  comma : Option Span

namespace ItemTree

def tokens (item : ItemTree) : List PlacedToken :=
  (item.option.map Ident.optionToken).toList ++
    (item.value.tokens ++ Token.comma.optional item.comma)

/-- The option that an item gives, if it names one. -/
def option? (item : ItemTree) : Option ProcOption :=
  item.option.map fun name =>
    ⟨name, item.value.expr, name.span.through item.value.expr.span⟩

/-- The positional argument that an item gives, if it does not name an option. -/
def argument? (item : ItemTree) : Option Expr :=
  if item.option.isNone then some item.value.expr else none

end ItemTree

/-- A name and the items after it. -/
structure ProcTree where
  name : Ident
  items : List ItemTree

namespace ProcTree

def tokens (proc : ProcTree) : List PlacedToken :=
  proc.name.token :: proc.items.flatMap ItemTree.tokens

/--
The call: every item in the order of the text, either an option or an argument.  Its span
ends where the blanks and comments after its last token end, which `reach` says.
-/
def call (reach : Nat → Nat) (proc : ProcTree) : ProcCall where
  name := proc.name
  options := proc.items.filterMap ItemTree.option?
  arguments := proc.items.filterMap ItemTree.argument?
  span := ⟨proc.name.span.start, reach (extent proc.tokens).stop⟩

end ProcTree

/-! ## Chains -/

mutual

/-- A proc, or a block between its parentheses. -/
inductive StageTree where
  | proc (proc : ProcTree)
  | block (opening : Span) (branches : ChainTrees) (closing : Span)

/-- Stages with bars between them. -/
inductive ChainTree where
  | last (stage : StageTree)
  | more (stage : StageTree) (bar : Span) (rest : ChainTree)

/-- Chains with semicolons between them, and maybe one after the last. -/
inductive ChainTrees where
  | last (chain : ChainTree) (semicolon : Option Span)
  | more (chain : ChainTree) (semicolon : Span) (rest : ChainTrees)

end

mutual

/-- The leaves of a stage from left to right. -/
def StageTree.tokens : StageTree → List PlacedToken
  | .proc proc => proc.tokens
  | .block opening branches closing =>
      ⟨.openParenthesis, opening⟩ :: (branches.tokens ++ [⟨.closeParenthesis, closing⟩])

def ChainTree.tokens : ChainTree → List PlacedToken
  | .last stage => stage.tokens
  | .more stage bar rest => stage.tokens ++ ⟨.bar, bar⟩ :: rest.tokens

def ChainTrees.tokens : ChainTrees → List PlacedToken
  | .last chain semicolon => chain.tokens ++ Token.semicolon.optional semicolon
  | .more chain semicolon rest => chain.tokens ++ ⟨.semicolon, semicolon⟩ :: rest.tokens

end

mutual

/-- The stage that a derivation describes; `reach` is as in `ProcTree.call`. -/
def StageTree.stage (reach : Nat → Nat) : StageTree → Stage ProcCall
  | .proc proc => .step (proc.call reach)
  | .block opening branches closing =>
      .parallel (branches.flows reach) (opening.through closing)

def ChainTree.stages (reach : Nat → Nat) : ChainTree → List (Stage ProcCall)
  | .last stage => [stage.stage reach]
  | .more stage _ rest => stage.stage reach :: rest.stages reach

def ChainTrees.flows (reach : Nat → Nat) : ChainTrees → List (Flow ProcCall)
  | .last chain _ => [⟨chain.stages reach, extent chain.tokens⟩]
  | .more chain _ rest => ⟨chain.stages reach, extent chain.tokens⟩ :: rest.flows reach

end

/-! ## Programs -/

/-- No chain at all, or chains; only chains may have a semicolon after them. -/
inductive ProgramTree where
  | empty
  | chains (chains : ChainTrees)

namespace ProgramTree

def tokens : ProgramTree → List PlacedToken
  | empty => []
  | chains all => all.tokens

def flows (reach : Nat → Nat) : ProgramTree → List (Flow ProcCall)
  | empty => []
  | chains all => all.flows reach

/-- The program that a derivation describes. -/
def program (reach : Nat → Nat) (stop : Nat) (tree : ProgramTree) : Program :=
  ⟨tree.flows reach, tokensSpan stop tree.tokens⟩

end ProgramTree

/-! ## First and last tokens -/

theorem extent_singleton (token : PlacedToken) : extent [token] = token.span := rfl

/-- Tokens reach from the first of them to the last. -/
theorem extent_eq_through {tokens : List PlacedToken} (nonempty : tokens ≠ []) :
    extent tokens = (tokens.head nonempty).span.through (tokens.getLast nonempty).span := by
  rw [extent, tokensSpan, List.head?_eq_some_head nonempty,
    List.getLast?_eq_some_getLast nonempty]

/-- Tokens begin where the first of them does. -/
theorem extent_cons_start (token : PlacedToken) (rest : List PlacedToken) :
    (extent (token :: rest)).start = token.span.start := by
  rw [extent_eq_through (List.cons_ne_nil token rest)]
  rfl

/-- Tokens begin where the first part of them does, if there is any. -/
theorem extent_append_start {first : List PlacedToken} (nonempty : first ≠ [])
    (second : List PlacedToken) :
    (extent (first ++ second)).start = (extent first).start := by
  obtain ⟨token, rest, rfl⟩ := List.exists_cons_of_ne_nil nonempty
  rw [List.cons_append, extent_cons_start, extent_cons_start]

/-- Two rows of tokens reach from the first row to the second. -/
theorem extent_append {first second : List PlacedToken} (firstNonempty : first ≠ [])
    (secondNonempty : second ≠ []) :
    extent (first ++ second) = (extent first).through (extent second) := by
  have nonempty : first ++ second ≠ [] := List.append_ne_nil_of_left_ne_nil firstNonempty second
  rw [extent_eq_through nonempty, extent_eq_through firstNonempty,
    extent_eq_through secondNonempty, List.head_append_of_ne_nil firstNonempty,
    List.getLast_append_of_ne_nil nonempty secondNonempty]
  rfl

/-- Tokens end where the last part of them does, if there is any. -/
theorem extent_append_stop (first : List PlacedToken) {second : List PlacedToken}
    (nonempty : second ≠ []) : (extent (first ++ second)).stop = (extent second).stop := by
  rcases eq_or_ne first [] with rfl | firstNonempty
  · rfl
  · rw [extent_append firstNonempty nonempty]
    rfl

/-- The place of a term runs from its first token to its last. -/
theorem TermTree.span_expr (tree : TermTree) : tree.expr.span = extent tree.tokens := by
  cases tree with
  | call name opening arguments closing =>
      have ends : (TermTree.call name opening arguments closing).tokens =
          (name.token :: ⟨.openParenthesis, opening⟩ :: arguments.tokens) ++
            [⟨.closeParenthesis, closing⟩] := rfl
      rw [ends, extent_append (List.cons_ne_nil _ _) (List.cons_ne_nil _ _)]
      rfl
  | _ => rfl

/-- Nothing derives without tokens; a term has one at least. -/
theorem TermTree.tokens_ne_nil (tree : TermTree) : tree.tokens ≠ [] := by
  cases tree <;> simp [TermTree.tokens]

/-- A value has the place of its tokens. -/
theorem ValueTree.span_expr (tree : ValueTree) : tree.expr.span = extent tree.tokens := by
  cases tree with
  | term term => exact term.span_expr
  | compare left operator sign right =>
      have ends : (ValueTree.compare left operator sign right).tokens =
          (left.tokens ++ [⟨.comparison operator, sign⟩]) ++ right.tokens := by
        simp [ValueTree.tokens]
      rw [ends, extent_append (by simp) right.tokens_ne_nil,
        extent_append left.tokens_ne_nil (List.cons_ne_nil _ _), ← left.span_expr,
        ← right.span_expr]
      rfl

end Flowgraph
