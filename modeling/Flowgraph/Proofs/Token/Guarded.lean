import Flowgraph.Proofs.Source.Guarded
import Flowgraph.Proofs.Token.Division

/-!
# Tokens without a failure

What a string or a moment says stands between the first and the last byte of its literal, and
the name of an option stands after its first byte.  A stray piece is cut out of the text
for the message about it.  A guarded function gives nothing where such a cut is reversed,
goes past the end, or falls inside a character.

The cuts succeed in every text (`guardedLex_eq`): the bytes that are taken away are a quote, a
colon or a dash, and every piece stands between characters.
-/

namespace Flowgraph

open Pattern

/-! ## Guarded computations -/

/-- What stands between the first and the last byte of a literal. -/
def guardedInner (written : List Char) : Option (List Char) :=
  Text.slice? written 1 (Text.byteLength written - 1)

/-- The lexeme of a literal in quotes. -/
def guardedString (written : List Char) : Option Lexeme := do
  match unescape (← guardedInner written) with
  | some value => return .token (.string (String.ofList value))
  | none => return .stray

/-- The lexeme of a literal in colons. -/
def guardedMoment (written : List Char) : Option Lexeme := do
  let text := Text.trim (← guardedInner written)
  return if text = [] then .stray else .token (.moment (String.ofList text))

/-- The lexeme of a dash and a name. -/
def guardedOption (written : List Char) : Option Lexeme := do
  let name ← Text.slice? written 1 (Text.byteLength written)
  return .token (.optionName (String.ofList name))

/-- The lexeme that begins with a character, if what it says can be cut out of it. -/
def guardedScan (first : Char) (rest : List Char) : Option (Lexeme × Nat) :=
  match first, rest with
  | '"', rest =>
      let (count, closed) := stringExtent rest
      if closed then do return (← guardedString ('"' :: rest.take count), count)
      else some (.stray, count)
  | ':', rest =>
      let inner := rest.takeWhile fun c => c != ':' && c != '\n'
      if inner ≠ [] ∧ (rest.drop inner.length).head? = some ':' then do
        return (← guardedMoment (':' :: rest.take (inner.length + 1)), inner.length + 1)
      else some (.stray, inner.length)
  | '-', next :: later =>
      if isNameStart next then do
        let name := (next :: later).takeWhile isNamePart
        return (← guardedOption ('-' :: (next :: later).take name.length), name.length)
      else some (scan '-' (next :: later))
  | first, rest => some (scan first rest)

/-- The pieces after some characters, if what they say can be cut out of them. -/
def guardedPiecesAfter : Nat → List Char → Option (List Piece)
  | _, [] => some []
  | skip + 1, _ :: rest => guardedPiecesAfter skip rest
  | 0, first :: rest => do
      let (lexeme, more) ← guardedScan first rest
      return ⟨lexeme, first :: rest.take more⟩ :: (← guardedPiecesAfter more rest)

/-- A piece with the characters that stand at its place in the text. -/
def guardedPiece (text : List Char) (placedPiece : Piece × Span) : Option (Piece × Span) := do
  let (piece, span) := placedPiece
  return ({ piece with text := ← Text.slice? text span.start span.stop }, span)

/-- Read a text as tokens, if everything can be cut out where it stands. -/
def guardedLex (text : List Char) : Option Lexing := do
  let all ← (placed 0 (← guardedPiecesAfter 0 text)).mapM (guardedPiece text)
  return {
    tokens := all.filterMap fun (piece, span) =>
      match piece.lexeme with
      | .token value => some ⟨value, span⟩
      | _ => none
    strays := all.filterMap fun (piece, span) =>
      match piece.lexeme with
      | .stray => some ⟨piece.text, span⟩
      | _ => none }

/-! ## Every cut succeeds -/

/-- What stands between two characters of one byte can be cut out. -/
theorem guardedInner_eq {first last : Char} (inner : List Char) (firstByte : first.utf8Size = 1)
    (lastByte : last.utf8Size = 1) : guardedInner (first :: (inner ++ [last])) = some inner := by
  have cut := Text.slice?_append [first] inner [last]
  simp only [Text.byteLength_cons, Text.byteLength_nil, firstByte, Nat.add_zero] at cut
  have length : Text.byteLength (first :: (inner ++ [last])) - 1 = 1 + Text.byteLength inner := by
    simp only [Text.byteLength_cons, Text.byteLength_append, Text.byteLength_nil, firstByte,
      lastByte]
    omega
  rw [guardedInner, length]
  exact cut

/-- A string is cut out of its quotes without a failure. -/
theorem guardedScan_string (rest : List Char) :
    guardedScan '"' rest = some (scan '"' rest) := by
  change _ = some (scanString rest)
  rw [guardedScan]
  cases extent : stringExtent rest with
  | mk count closed =>
      cases closed with
      | false => simp [scanString, extent]
      | true =>
          obtain ⟨body, isBody, after, rfl, rfl⟩ := exists_body_of_stringExtent extent
          have written : (body ++ '"' :: after).take (body.length + 1) = body ++ ['"'] := by
            simp [List.take_append]
          have inner : guardedInner ('"' :: (body ++ ['"'])) = some body :=
            guardedInner_eq body rfl rfl
          rw [scanString_of_body isBody]
          simp only [if_true, written, guardedString, inner, Option.bind_eq_bind, Option.bind_some]
          cases unescape body <;> rfl

/-- A moment is cut out of its colons without a failure. -/
theorem guardedScan_moment (rest : List Char) :
    guardedScan ':' rest = some (scan ':' rest) := by
  change _ = some (scanMoment rest)
  rw [guardedScan]
  by_cases closed : (rest.takeWhile fun c => c != ':' && c != '\n') ≠ [] ∧
      (rest.drop (rest.takeWhile fun c => c != ':' && c != '\n').length).head? = some ':'
  · obtain ⟨after, split⟩ := List.head?_eq_some_iff.mp closed.2
    have isInner : (rest.takeWhile fun c => c != ':' && c != '\n') ∈ run isMomentPart :=
      mem_run_iff.mpr ⟨closed.1, fun _ member => List.mem_takeWhile_imp member⟩
    have written : rest.take ((rest.takeWhile fun c => c != ':' && c != '\n').length + 1) =
        (rest.takeWhile fun c => c != ':' && c != '\n') ++ [':'] := by
      rw [List.take_add, split, take_takeWhile]
      rfl
    have inner : guardedInner
        (':' :: ((rest.takeWhile fun c => c != ':' && c != '\n') ++ [':'])) = some _ :=
      guardedInner_eq _ rfl rfl
    simp only [scanMoment, if_pos closed, written, guardedMoment, inner, Option.bind_eq_bind,
      Option.bind_some]
    split_ifs <;> rfl
  · simp only [scanMoment, if_neg closed]

/-- An option is cut off its dash without a failure. -/
theorem guardedScan_option (next : Char) (later : List Char) :
    guardedScan '-' (next :: later) = some (scan '-' (next :: later)) := by
  rw [guardedScan]
  split_ifs with starts
  · have cut := Text.slice?_append ['-'] ((next :: later).takeWhile isNamePart) []
    rw [List.append_nil, ← Text.byteLength_append] at cut
    have name : Text.slice? ('-' :: (next :: later).takeWhile isNamePart) 1
        (Text.byteLength ('-' :: (next :: later).takeWhile isNamePart)) = some _ := cut
    rw [scan_of_option starts]
    simp only [take_takeWhile, guardedOption, name, Option.bind_eq_bind, Option.bind_some]
    rfl
  · rfl

/-- What a literal says can always be cut out of it. -/
theorem guardedScan_eq (first : Char) (rest : List Char) :
    guardedScan first rest = some (scan first rest) := by
  by_cases quote : first = '"'
  · exact quote ▸ guardedScan_string rest
  by_cases colon : first = ':'
  · exact colon ▸ guardedScan_moment rest
  by_cases dash : first = '-'
  · subst dash
    cases rest with
    | nil => rfl
    | cons next later => exact guardedScan_option next later
  · rw [guardedScan] <;> simp_all

theorem guardedPiecesAfter_eq (skip : Nat) (text : List Char) :
    guardedPiecesAfter skip text = some (piecesAfter skip text) := by
  induction text generalizing skip with
  | nil => cases skip <;> rfl
  | cons first rest ih =>
      cases skip with
      | zero => simp [guardedPiecesAfter, piecesAfter, guardedScan_eq, ih]
      | succ skip => exact ih skip

/-- Every text is read as tokens and stray pieces without a failure. -/
theorem guardedLex_eq (text : List Char) : guardedLex text = some (lex text) := by
  have scanned : guardedPiecesAfter 0 text = some (pieces text) := guardedPiecesAfter_eq 0 text
  have cut : (placed 0 (pieces text)).mapM (guardedPiece text) =
      some ((placed 0 (pieces text)).map id) := by
    apply mapM_eq_some_map
    rintro ⟨piece, span⟩ member
    rw [guardedPiece, slice?_of_mem_placed member]
    rfl
  rw [List.map_id] at cut
  rw [guardedLex, scanned]
  simp only [Option.bind_eq_bind, Option.bind_some, cut]
  rfl

end Flowgraph
