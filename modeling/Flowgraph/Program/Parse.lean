import Flowgraph.Program.Draft
import Flowgraph.Source

/-!
# Programs from texts

Reading stops at the first token that cannot follow the tokens before it.  The
error names that token, or the end of the text, and lists what could have stood
there.  Stray characters are errors of their own; they do not keep the tokens
around them from being read.
-/

namespace Flowgraph

/-- What can stand at a place of a program, as messages list it. -/
inductive Expected where
  | identifier
  | openParenthesis
  | closeParenthesis
  | bar
  | semicolon
  | comma
  /-- A literal, the name of an option or the sign of a comparison. -/
  | other
  | endOfInput
deriving DecidableEq, Repr

/-- How messages list what can stand at a place. -/
def Expected.text : Expected → String
  | identifier => "'<ident>'"
  | openParenthesis => "'('"
  | closeParenthesis => "')'"
  | bar => "'|'"
  | semicolon => "';'"
  | comma => "','"
  | other => "something else"
  | endOfInput => "end of input"

namespace Draft

/-- What ends the innermost block, or the program when no block is open. -/
def closing (draft : Draft) : Expected :=
  if draft.blocks.isEmpty then .endOfInput else .closeParenthesis

/-- What can follow a stage. -/
def afterStage (draft : Draft) : List Expected :=
  [.bar, .semicolon, draft.closing]

/-- What can come next, in the order in which messages list it. -/
def expected (draft : Draft) : List Expected :=
  match draft.phase with
  | .chainStart mayEnd =>
      [.identifier, .openParenthesis] ++ (if mayEnd then [draft.closing] else [])
  | .stageStart _ => [.identifier, .openParenthesis]
  | .blockEnd _ => draft.afterStage
  | .itemStart _ _ => [.other, .identifier] ++ draft.afterStage
  | .termStart _ _ _ mayClose =>
      [.other, .identifier] ++ (if mayClose then [.closeParenthesis] else [])
  | .termEnd _ calls comparison term =>
      (match term with
        | .ident _ => [.openParenthesis]
        | _ => []) ++
      (match calls, comparison with
        | [], none => [.other, .comma, .identifier] ++ draft.afterStage
        | [], some _ => [.comma, .other, .identifier] ++ draft.afterStage
        | _ :: _, none => [.other, .comma, .closeParenthesis]
        | _ :: _, some _ => [.comma, .closeParenthesis])

end Draft

/-- Why a text is no program. -/
inductive ParseFault where
  | stray (stray : Stray)
  /-- A token, or the end of the text, stands where something else is expected. -/
  | unexpected (found : Option Token) (expected : List Expected) (span : Span)
deriving DecidableEq, Repr

namespace ParseFault

/-- The place of a fault. -/
def span : ParseFault → Span
  | stray piece => piece.span
  | unexpected _ _ span => span

/-- A list with commas between its items, and with `or` before the last. -/
def alternatives : List String → String
  | [] => ""
  | [only] => only
  | [second, last] => second ++ ", or " ++ last
  | first :: rest => first ++ ", " ++ alternatives rest

/-- The message about a fault. -/
def message : ParseFault → String
  | stray piece => piece.message
  | unexpected found expected _ =>
      "found " ++
        (match found with
          | some token => "'" ++ token.text ++ "'"
          | none => "end of input") ++
        " expected " ++ alternatives (expected.map Expected.text)

end ParseFault

/-- A program, unless its tokens do not form one, and the faults that were found. -/
structure Parse where
  program : Option Program
  faults : List ParseFault

/--
The chains of a whole program.  `reach` gives the offset after the blanks and
comments that follow an offset, and `stop` is the length of the text.
-/
def readChains (reach : Nat → Nat) (stop : Nat) (tokens : List PlacedToken) :
    Except ParseFault (List (Flow ProcCall)) :=
  match Draft.initial.readOn reach tokens with
  | (draft, token :: _) => .error (.unexpected (some token.token) draft.expected token.span)
  | (draft, []) =>
      match draft.blocks, draft.finished? reach with
      | [], some chains => .ok chains.reverse
      | _, _ => .error (.unexpected none draft.expected (.empty stop))

/-- The bytes from the first token to the last, or none at the end of the text. -/
def tokensSpan (stop : Nat) (tokens : List PlacedToken) : Span :=
  match tokens.head?, tokens.getLast? with
  | some first, some last => first.span.through last.span
  | _, _ => .empty stop

/-- Read a text as a program. -/
def parse (text : List Char) : Parse :=
  let lexing := lex text
  let stop := Text.byteLength text
  let strays := lexing.strays.map ParseFault.stray
  match readChains (afterTrivia text) stop lexing.tokens with
  | .ok chains => ⟨some ⟨chains, tokensSpan stop lexing.tokens⟩, strays⟩
  | .error fault => ⟨none, strays ++ [fault]⟩

end Flowgraph
