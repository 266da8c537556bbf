import Flowgraph.Program
import Flowgraph.Token.Lexeme

/-!
# Reading a program token by token

A program is read from left to right, one token at a time, and no token is read
twice.  The grammar is

```
program := [chain (';' chain)* [';']]
chain   := stage ('|' stage)*
stage   := proc | '(' chain (';' chain)* [';'] ')'
proc    := IDENTIFIER item*
item    := (OPTION value | value) [',']
value   := term [COMPARISON term]
term    := NUMBER | STRING | MOMENT | IDENTIFIER | IDENTIFIER '(' [value (',' value)*] ')'
```

A `Draft` is what has been read so far: the blocks that are still open, the
finished chains, and a `Phase` that says what the last token was part of.  Each
phase knows which tokens may come next (`Draft.next?`) and how they are listed in
a message (`Draft.expected`).
-/

namespace Flowgraph

/-! ## What has been read so far -/

/-- A chain that goes on: its finished stages, the last of them first, and its first byte. -/
structure ChainDraft where
  stages : List (Stage ProcCall)
  start : Nat

/-- A proc that goes on; its options and its arguments are listed with the last first. -/
structure ProcDraft where
  name : Ident
  options : List ProcOption
  arguments : List Expr

/-- An item of a proc that goes on: the value of an option, or an argument. -/
structure ItemDraft where
  chain : ChainDraft
  proc : ProcDraft
  option : Option Ident

/-- The left side and the sign of a comparison whose right side goes on. -/
structure Comparand where
  left : Expr
  operator : Comparison

/--
A call that goes on: its finished arguments, the last of them first, and the
comparison of which the call is the right side, if there is one.
-/
structure CallDraft where
  name : Ident
  arguments : List Expr
  comparison : Option Comparand

/-- A block that goes on, and the chain that it is a stage of. -/
structure BlockDraft where
  /-- The finished chains beside the chain of the block, the last of them first. -/
  finished : List (Flow ProcCall)
  chain : ChainDraft
  /-- The first byte of the block. -/
  start : Nat

/-- What the last token was part of. -/
inductive Phase where
  /-- A chain begins here, or what encloses the chains ends if it may. -/
  | chainStart (mayEnd : Bool)
  /-- A bar was read, and the next stage begins here. -/
  | stageStart (chain : ChainDraft)
  /-- A block was closed. -/
  | blockEnd (chain : ChainDraft)
  /-- The name of a proc was read, or the comma after an item. -/
  | itemStart (chain : ChainDraft) (proc : ProcDraft)
  /-- A term begins here, or the innermost call ends if it may. -/
  | termStart (item : ItemDraft) (calls : List CallDraft) (comparison : Option Comparand)
      (mayClose : Bool)
  /-- A term was read. -/
  | termEnd (item : ItemDraft) (calls : List CallDraft) (comparison : Option Comparand)
      (term : Expr)

/-- What has been read of a program so far. -/
structure Draft where
  /-- The blocks that go on, the innermost first. -/
  blocks : List BlockDraft
  /-- The finished chains of the innermost block, or of the program, the last of them first. -/
  finished : List (Flow ProcCall)
  phase : Phase
  /-- The offset after the last token. -/
  stop : Nat

/-- Nothing has been read yet. -/
def Draft.initial : Draft where
  blocks := []
  finished := []
  phase := .chainStart true
  stop := 0

/-! ## Finishing a part -/

/-- A term, as the right side of the comparison that waits for it if there is one. -/
def finishValue (comparison : Option Comparand) (term : Expr) : Expr :=
  match comparison with
  | some ⟨left, operator⟩ => .compare left operator term (left.span.through term.span)
  | none => term

/-- The proc with one more item. -/
def ItemDraft.finish (item : ItemDraft) (value : Expr) : ProcDraft :=
  match item.option with
  | some name =>
      { item.proc with
        options := ⟨name, value, name.span.through value.span⟩ :: item.proc.options }
  | none => { item.proc with arguments := value :: item.proc.arguments }

/-- The chain with the proc as one more stage; `reach` is the offset after the proc. -/
def ChainDraft.addProc (chain : ChainDraft) (proc : ProcDraft) (reach : Nat) : ChainDraft :=
  { chain with
    stages :=
      .step
        { name := proc.name
          options := proc.options.reverse
          arguments := proc.arguments.reverse
          span := ⟨proc.name.span.start, reach⟩ } :: chain.stages }

/-- The finished chain; `stop` is the offset after its last token. -/
def ChainDraft.finish (chain : ChainDraft) (stop : Nat) : Flow ProcCall :=
  ⟨chain.stages.reverse, ⟨chain.start, stop⟩⟩

/-- The chain that encloses a block, with the block as one more stage. -/
def BlockDraft.finish (block : BlockDraft) (branches : List (Flow ProcCall)) (stop : Nat) :
    ChainDraft :=
  { block.chain with
    stages := .parallel branches.reverse ⟨block.start, stop⟩ :: block.chain.stages }

namespace Draft

/--
The chain that ends if the next token does not belong to its last stage.  There
is none where a stage or a part of one must follow.  `reach` gives for the end
of a proc the offset at which the blanks and comments after it end.
-/
def chain? (reach : Nat → Nat) (draft : Draft) : Option ChainDraft :=
  match draft.phase with
  | .blockEnd chain => some chain
  | .itemStart chain proc => some (chain.addProc proc (reach draft.stop))
  | .termEnd item [] comparison term =>
      some (item.chain.addProc (item.finish (finishValue comparison term)) (reach draft.stop))
  | _ => none

/--
The chains of the innermost block or of the program, the last of them first, if
it may end here.
-/
def finished? (reach : Nat → Nat) (draft : Draft) : Option (List (Flow ProcCall)) :=
  match draft.phase with
  | .chainStart true => some draft.finished
  | _ => (draft.chain? reach).map fun chain => chain.finish draft.stop :: draft.finished

/-! ## The next token -/

/-- The draft after a token that leads to a phase of the same block. -/
def advance (draft : Draft) (span : Span) (phase : Phase) : Draft :=
  { draft with phase, stop := span.stop }

/-- The first token of a stage: the name of a proc, or the parenthesis that opens a block. -/
def beginStage? (draft : Draft) (chain : ChainDraft) : PlacedToken → Option Draft
  | ⟨.identifier name, span⟩ =>
      some (draft.advance span (.itemStart chain ⟨⟨name, span⟩, [], []⟩))
  | ⟨.openParenthesis, span⟩ =>
      some
        { blocks := ⟨draft.finished, chain, span.start⟩ :: draft.blocks
          finished := []
          phase := .chainStart false
          stop := span.stop }
  | _ => none

/-- A term that is a single token. -/
def atom? : PlacedToken → Option Expr
  | ⟨.number value, span⟩ => some (.number value span)
  | ⟨.string value, span⟩ => some (.string value span)
  | ⟨.moment text, span⟩ => some (.moment text span)
  | ⟨.identifier name, span⟩ => some (.ident ⟨name, span⟩)
  | _ => none

/-- The first token of an item: the name of an option, or a term. -/
def beginItem? (draft : Draft) (chain : ChainDraft) (proc : ProcDraft) (token : PlacedToken) :
    Option Draft :=
  match token with
  | ⟨.optionName name, span⟩ =>
      some (draft.advance span (.termStart ⟨chain, proc, some ⟨name, span⟩⟩ [] none false))
  | _ => (atom? token).map fun term =>
      draft.advance token.span (.termEnd ⟨chain, proc, none⟩ [] none term)

/-- The end of the innermost block. -/
def closeBlock? (reach : Nat → Nat) (draft : Draft) (span : Span) : Option Draft :=
  match draft.blocks with
  | block :: outer =>
      (draft.finished? reach).map fun branches =>
        { blocks := outer
          finished := block.finished
          phase := .blockEnd (block.finish branches span.stop)
          stop := span.stop }
  | [] => none

/-- A token after a stage: a bar, a semicolon, or the end of the innermost block. -/
def endStage? (reach : Nat → Nat) (draft : Draft) : PlacedToken → Option Draft
  | ⟨.bar, span⟩ =>
      (draft.chain? reach).map fun chain => draft.advance span (.stageStart chain)
  | ⟨.semicolon, span⟩ =>
      (draft.chain? reach).map fun chain =>
        { draft with
          finished := chain.finish draft.stop :: draft.finished
          phase := .chainStart true
          stop := span.stop }
  | ⟨.closeParenthesis, span⟩ => draft.closeBlock? reach span
  | _ => none

/-- The end of the innermost call; `last` holds its last argument if that ends here too. -/
def closeCall (draft : Draft) (item : ItemDraft) (call : CallDraft) (outer : List CallDraft)
    (last : List Expr) (span : Span) : Draft :=
  draft.advance span
    (.termEnd item outer call.comparison
      (.call call.name (last ++ call.arguments).reverse (call.name.span.through span)))

/--
A token that belongs to the item of a term: it turns the term into a call or
into the left side of a comparison, or it ends the value that the term is or
completes.
-/
def afterTerm? (draft : Draft) (item : ItemDraft) (calls : List CallDraft)
    (comparison : Option Comparand) (term : Expr) (token : PlacedToken) : Option Draft :=
  let value := finishValue comparison term
  match token.token with
  | .openParenthesis =>
      match term with
      | .ident name =>
          some (draft.advance token.span
            (.termStart item (⟨name, [], comparison⟩ :: calls) none true))
      | _ => none
  | .comparison operator =>
      match comparison with
      | none =>
          some (draft.advance token.span (.termStart item calls (some ⟨term, operator⟩) false))
      | some _ => none
  | .comma =>
      match calls with
      | call :: outer =>
          let longer := { call with arguments := value :: call.arguments }
          some (draft.advance token.span (.termStart item (longer :: outer) none false))
      | [] => some (draft.advance token.span (.itemStart item.chain (item.finish value)))
  | .closeParenthesis =>
      match calls with
      | call :: outer => some (draft.closeCall item call outer [value] token.span)
      | [] => none
  | _ => none

/-- The draft after one more token, if the token may come next. -/
def next? (reach : Nat → Nat) (draft : Draft) (token : PlacedToken) : Option Draft :=
  match draft.phase with
  | .chainStart mayEnd =>
      match token.token with
      | .closeParenthesis => if mayEnd then draft.closeBlock? reach token.span else none
      | _ => draft.beginStage? ⟨[], token.span.start⟩ token
  | .stageStart chain => draft.beginStage? chain token
  | .blockEnd _ => draft.endStage? reach token
  | .itemStart chain proc =>
      (draft.beginItem? chain proc token).or (draft.endStage? reach token)
  | .termStart item calls comparison mayClose =>
      match token.token with
      | .closeParenthesis =>
          match mayClose, calls with
          | true, call :: outer => some (draft.closeCall item call outer [] token.span)
          | _, _ => none
      | _ => (atom? token).map fun term =>
          draft.advance token.span (.termEnd item calls comparison term)
  | .termEnd item calls comparison term =>
      (draft.afterTerm? item calls comparison term token).or
        (match calls with
          | [] =>
              (draft.beginItem? item.chain (item.finish (finishValue comparison term)) token).or
                (draft.endStage? reach token)
          | _ :: _ => none)

/--
Read as many tokens as possible: the draft after them, and the tokens from the
first on that may not come next.
-/
def readOn (reach : Nat → Nat) (draft : Draft) : List PlacedToken → Draft × List PlacedToken
  | [] => (draft, [])
  | token :: rest =>
      match draft.next? reach token with
      | some following => following.readOn reach rest
      | none => (draft, token :: rest)

end Draft

end Flowgraph
