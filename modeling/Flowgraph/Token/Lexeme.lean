import Flowgraph.Source
import Flowgraph.Text.Quoted
import Flowgraph.Text.Split
import Flowgraph.Text.Utf8
import Flowgraph.Token

/-!
# Cutting a text into pieces

A text is cut from its beginning, each time at the longest lexeme that starts
there.  A piece is layout or a comment, a token, or a stray piece where no
lexeme starts or where a literal does not mean anything.  No character is lost:
the pieces of a text, put together again, are the text (`pieces_join`).
-/

namespace Flowgraph

/-- What a piece of text is. -/
inductive Lexeme where
  /-- Blanks between tokens, or a comment. -/
  | trivia
  | token (value : Token)
  /-- Characters that are part of no token. -/
  | stray
deriving DecidableEq, Repr

/-- A lexeme and its characters. -/
structure Piece where
  lexeme : Lexeme
  text : List Char
deriving DecidableEq, Repr

/-- The blanks that may stand between tokens. -/
def isLayout (c : Char) : Bool :=
  c == ' ' || c == '\t' || c == '\r' || c == '\n' || c == '\x0c'

/-- The characters that a name begins with: the letters of ASCII and the underscore. -/
def isNameStart (c : Char) : Bool :=
  c.isAlpha || c == '_'

/-- The characters that a name goes on with: those that begin one and the decimal digits. -/
def isNamePart (c : Char) : Bool :=
  c.isAlphanum || c == '_'

/-! ## Literals -/

/--
How many of the characters after an opening quote belong to the literal, and
whether they include a closing quote.  A backslash takes the character after it
along, unless that is a line feed.
-/
def stringExtent : List Char → Nat × Bool
  | [] => (0, false)
  | '\\' :: [] => (0, false)
  | '\\' :: escaped :: rest =>
      if escaped = '\n' then (0, false)
      else
        let (count, closed) := stringExtent rest
        (count + 2, closed)
  | c :: rest =>
      if c = '"' then (1, true)
      else
        let (count, closed) := stringExtent rest
        (count + 1, closed)

/-- What a character means after a backslash. -/
def escapeMeaning (c : Char) : Option Char :=
  if c = '"' then some '"'
  else if c = '\\' then some '\\'
  else if c = 'n' then some '\n'
  else if c = 't' then some '\t'
  else none

/-- What the characters between the quotes say, if every escape has a meaning. -/
def unescape : List Char → Option (List Char)
  | [] => some []
  | '\\' :: [] => none
  | '\\' :: escaped :: rest =>
      (escapeMeaning escaped).bind fun meaning => (unescape rest).map (meaning :: ·)
  | c :: rest => (unescape rest).map (c :: ·)

/-- The lexeme of an opening quote, and how many of the characters after it belong to it. -/
def scanString (rest : List Char) : Lexeme × Nat :=
  let (count, closed) := stringExtent rest
  if closed then
    match unescape (rest.take (count - 1)) with
    | some value => (.token (.string (String.ofList value)), count)
    | none => (.stray, count)
  else (.stray, count)

/--
The lexeme of a colon, and how many of the characters after it belong to it.
A moment ends at the next colon of the line and is not all blank.
-/
def scanMoment (rest : List Char) : Lexeme × Nat :=
  let inner := rest.takeWhile fun c => c != ':' && c != '\n'
  if inner ≠ [] ∧ (rest.drop inner.length).head? = some ':' then
    let text := Text.trim inner
    if text = [] then (.stray, inner.length + 1)
    else (.token (.moment (String.ofList text)), inner.length + 1)
  else (.stray, inner.length)

/--
How many characters continue a number after its first digit or its sign: more
digits, then a point if digits follow it, and those.
-/
def numberExtent (rest : List Char) : Nat :=
  let whole := rest.takeWhile Char.isDigit
  match rest.drop whole.length with
  | '.' :: more =>
      let places := more.takeWhile Char.isDigit
      if places = [] then whole.length else whole.length + 1 + places.length
  | _ => whole.length

/-- The lexeme of a digit or of a minus sign before one. -/
def scanNumber (first : Char) (rest : List Char) : Lexeme × Nat :=
  let count := numberExtent rest
  match Number.Binary64.read (first :: rest.take count) with
  | some value => (.token (.number value), count)
  | none => (.stray, count)

/-! ## Lexemes -/

/-- A sign of one character, or of two when an equals sign follows. -/
def scanSign (rest : List Char) (alone withEquals : Lexeme) : Lexeme × Nat :=
  if rest.head? = some '=' then (withEquals, 1) else (alone, 0)

/-- The longest lexeme that begins with a character, and how many more characters it has. -/
def scan (first : Char) (rest : List Char) : Lexeme × Nat :=
  if isLayout first then
    (.trivia, (rest.takeWhile isLayout).length)
  else if isNameStart first then
    let more := rest.takeWhile isNamePart
    (.token (.identifier (String.ofList (first :: more))), more.length)
  else if first.isDigit then
    scanNumber first rest
  else
    match first with
    | '|' => (.token .bar, 0)
    | ';' => (.token .semicolon, 0)
    | '(' => (.token .openParenthesis, 0)
    | ')' => (.token .closeParenthesis, 0)
    | ',' => (.token .comma, 0)
    | '=' => scanSign rest (.token (.comparison .assign)) (.token (.comparison .equal))
    | '!' => scanSign rest .stray (.token (.comparison .notEqual))
    | '<' => scanSign rest (.token (.comparison .less)) (.token (.comparison .lessOrEqual))
    | '>' => scanSign rest (.token (.comparison .greater)) (.token (.comparison .greaterOrEqual))
    | '"' => scanString rest
    | ':' => scanMoment rest
    | '/' =>
        match rest with
        | '/' :: comment => (.trivia, 1 + (comment.takeWhile (· != '\n')).length)
        | _ => (.stray, 0)
    | '-' =>
        match rest with
        | next :: _ =>
            if isNameStart next then
              let name := rest.takeWhile isNamePart
              (.token (.optionName (String.ofList name)), name.length)
            else if next.isDigit then scanNumber first rest
            else (.stray, 0)
        | [] => (.stray, 0)
    | _ => (.stray, 0)

/-! ## The pieces of a text -/

/-- The pieces after the first `skip` characters, which belong to the piece before them. -/
def piecesAfter : Nat → List Char → List Piece
  | _, [] => []
  | skip + 1, _ :: rest => piecesAfter skip rest
  | 0, first :: rest =>
      let (lexeme, more) := scan first rest
      ⟨lexeme, first :: rest.take more⟩ :: piecesAfter more rest

/-- The pieces of a text, in order. -/
def pieces (text : List Char) : List Piece :=
  piecesAfter 0 text

theorem piecesAfter_eq_pieces_drop (skip : Nat) (text : List Char) :
    piecesAfter skip text = pieces (text.drop skip) := by
  induction text generalizing skip with
  | nil => cases skip <;> simp [pieces, piecesAfter]
  | cons first rest ih =>
      cases skip with
      | zero => rfl
      | succ skip => simpa [piecesAfter] using ih skip

@[simp]
theorem pieces_nil : pieces [] = [] := rfl

/-- The first piece is the longest lexeme, and the others are the pieces of what it leaves. -/
theorem pieces_cons (first : Char) (rest : List Char) :
    pieces (first :: rest) =
      ⟨(scan first rest).1, first :: rest.take (scan first rest).2⟩ ::
        pieces (rest.drop (scan first rest).2) := by
  rw [← piecesAfter_eq_pieces_drop]
  rfl

/-- The pieces of a text, put together again, are the text. -/
theorem pieces_join (text : List Char) : (pieces text).flatMap Piece.text = text := by
  suffices joined : ∀ (text : List Char) (skip : Nat),
      (piecesAfter skip text).flatMap Piece.text = text.drop skip from joined text 0
  intro text
  induction text with
  | nil => intro skip; cases skip <;> simp [piecesAfter]
  | cons first rest ih =>
      intro skip
      cases skip with
      | zero => simp [piecesAfter, ih, List.take_append_drop]
      | succ skip => simpa [piecesAfter] using ih skip

/-- A token and the bytes it was read from. -/
structure PlacedToken where
  token : Token
  span : Span
deriving DecidableEq, Repr

/-- Characters that belong to no token, and their bytes. -/
structure Stray where
  text : List Char
  span : Span
deriving DecidableEq, Repr

/-- The message about a stray piece. -/
def Stray.message (stray : Stray) : String :=
  "unexpected character: " ++ Text.quoted stray.text

/-- The spans of pieces that follow each other from an offset on. -/
def placed (offset : Nat) : List Piece → List (Piece × Span)
  | [] => []
  | piece :: rest =>
      let stop := offset + Text.byteLength piece.text
      (piece, ⟨offset, stop⟩) :: placed stop rest

/-- The tokens of a text in order, and its stray pieces in order. -/
structure Lexing where
  tokens : List PlacedToken
  strays : List Stray
deriving DecidableEq, Repr

/-- Read a text as tokens; stray pieces are set aside and reading goes on after them. -/
def lex (text : List Char) : Lexing :=
  let all := placed 0 (pieces text)
  { tokens := all.filterMap fun (piece, span) =>
      match piece.lexeme with
      | .token value => some ⟨value, span⟩
      | _ => none
    strays := all.filterMap fun (piece, span) =>
      match piece.lexeme with
      | .stray => some ⟨piece.text, span⟩
      | _ => none }

/-! ## Trivia after a construct -/

/--
The number of bytes of blanks and comments that a text begins with.  A comment
runs to the end of its line; `inComment` says whether one has begun.
-/
def triviaLength (inComment : Bool) : List Char → Nat
  | [] => 0
  | c :: rest =>
      if inComment && c != '\n' then c.utf8Size + triviaLength true rest
      else if Text.isBlank c then c.utf8Size + triviaLength false rest
      else if c = '/' ∧ rest.head? = some '/' then c.utf8Size + triviaLength true rest
      else 0

/-- The offset at which the blanks and comments that follow an offset end. -/
def afterTrivia (text : List Char) (offset : Nat) : Nat :=
  match Text.dropBytes? offset text with
  | some rest => offset + triviaLength false rest
  | none => offset

end Flowgraph
