import Flowgraph.Token.Lexeme
import Mathlib.Tactic.SplitIfs

/-!
# Tokens as slices of the text

Every piece of a text stands at its own place: the bytes of its span, cut out of the text,
are the characters of the piece (`slice?_of_mem_placed`).  For a name these are the
characters of the name, and for the name of an option there is a dash before them.
-/

namespace Flowgraph

/-- A piece stands between the pieces before it and those after it. -/
theorem exists_of_mem_placed {offset : Nat} {all : List Piece} {piece : Piece} {span : Span}
    (member : (piece, span) ∈ placed offset all) :
    ∃ before after, all = before ++ piece :: after ∧
      span.start = offset + Text.byteLength (before.flatMap Piece.text) ∧
      span.stop = span.start + Text.byteLength piece.text := by
  induction all generalizing offset with
  | nil => cases member
  | cons first rest ih =>
      rcases List.mem_cons.mp member with same | later
      · obtain ⟨rfl, rfl⟩ := Prod.mk.inj same
        exact ⟨[], rest, rfl, rfl, rfl⟩
      · obtain ⟨before, after, rfl, start, stop⟩ := ih later
        refine ⟨first :: before, after, rfl, ?_, stop⟩
        rw [start, List.flatMap_cons, Text.byteLength_append, Nat.add_assoc]

/-- An offset at which a character of a text begins, or at which the text ends. -/
def IsBoundary (text : List Char) (offset : Nat) : Prop :=
  ∃ before after, text = before ++ after ∧ offset = Text.byteLength before

theorem isBoundary_zero (text : List Char) : IsBoundary text 0 :=
  ⟨[], text, rfl, rfl⟩

/-- A span of a text: its ends are in order, not behind the text, and between characters. -/
structure Span.Within (text : List Char) (span : Span) : Prop where
  ordered : span.start ≤ span.stop
  bounded : span.stop ≤ Text.byteLength text
  starts : IsBoundary text span.start
  stops : IsBoundary text span.stop

/-- The span of a part of a text. -/
theorem Span.within_append (before middle after : List Char) :
    Span.Within (before ++ (middle ++ after))
      ⟨Text.byteLength before, Text.byteLength before + Text.byteLength middle⟩ where
  ordered := Nat.le_add_right _ _
  bounded := by simp only [Text.byteLength_append]; omega
  starts := ⟨before, middle ++ after, rfl, rfl⟩
  stops := ⟨before ++ middle, after, (List.append_assoc ..).symm, (Text.byteLength_append ..).symm⟩

/-- A text is cut at an offset in one way only. -/
theorem Text.append_inj_of_byteLength {before after before' after' : List Char}
    (same : before ++ after = before' ++ after') (length : byteLength before = byteLength before') :
    before = before' ∧ after = after' := by
  have left := dropBytes?_append before after
  rw [same, length, dropBytes?_append] at left
  obtain rfl := Option.some.inj left
  exact ⟨List.append_cancel_right same, rfl⟩

/-- The bytes of a span that begins after one part of a text and ends after the next. -/
theorem Text.slice?_append (before middle after : List Char) :
    slice? (before ++ (middle ++ after)) (byteLength before)
        (byteLength before + byteLength middle) =
      some middle := by
  simp [slice?]

/-- Of two beginnings of a text the one with fewer bytes begins the other. -/
theorem Text.prefix_of_byteLength_le {left right other rest : List Char}
    (same : left ++ right = other ++ rest) (shorter : byteLength left ≤ byteLength other) :
    left <+: other := by
  rcases List.append_eq_append_iff.mp same with ⟨middle, rfl, -⟩ | ⟨middle, rfl, -⟩
  · exact List.prefix_append ..
  · rw [byteLength_append] at shorter
    cases middle with
    | nil => exact ⟨[], by rw [List.append_nil, List.append_nil]⟩
    | cons c more =>
        have positive := c.utf8Size_pos
        rw [byteLength_cons] at shorter
        omega

/-- A place of a text divides it into three parts. -/
theorem Span.Within.exists_parts {text : List Char} {span : Span} (within : span.Within text) :
    ∃ before middle after, text = before ++ (middle ++ after) ∧
      span = ⟨Text.byteLength before, Text.byteLength before + Text.byteLength middle⟩ := by
  obtain ⟨before, rest, split, start⟩ := within.starts
  obtain ⟨upTo, after, splitStop, stop⟩ := within.stops
  obtain ⟨middle, rfl⟩ := Text.prefix_of_byteLength_le (split.symm.trans splitStop)
    (by have ordered := within.ordered; omega)
  refine ⟨before, middle, after, by rw [splitStop, List.append_assoc], ?_⟩
  rw [Text.byteLength_append] at stop
  cases span
  cases start
  cases stop
  rfl

/-- Of two places that begin alike the one that ends first is a beginning of the other. -/
theorem Text.exists_slice?_append {text written : List Char} {part whole : Span}
    (partWithin : part.Within text) (wholeWithin : whole.Within text)
    (starts : whole.start = part.start) (stops : part.stop ≤ whole.stop)
    (isWritten : slice? text part.start part.stop = some written) :
    ∃ rest, slice? text whole.start whole.stop = some (written ++ rest) := by
  obtain ⟨before, middle, after, split, rfl⟩ := partWithin.exists_parts
  obtain ⟨beforeWhole, middleWhole, afterWhole, splitWhole, rfl⟩ := wholeWithin.exists_parts
  obtain ⟨rfl, rests⟩ := append_inj_of_byteLength (splitWhole.symm.trans split) starts
  obtain ⟨rest, rfl⟩ := Text.prefix_of_byteLength_le rests.symm (by simpa using stops)
  rw [split, slice?_append, Option.some.injEq] at isWritten
  rw [splitWhole, slice?_append, isWritten]
  exact ⟨rest, rfl⟩

theorem slice?_of_mem_placed {text : List Char} {piece : Piece} {span : Span}
    (member : (piece, span) ∈ placed 0 (pieces text)) :
    Text.slice? text span.start span.stop = some piece.text := by
  obtain ⟨before, after, split, start, stop⟩ := exists_of_mem_placed member
  have joined := pieces_join text
  rw [split, List.flatMap_append, List.flatMap_cons] at joined
  rw [stop, start, Nat.zero_add, ← joined, Text.slice?_append]

/-- Every piece is the longest lexeme at some place of the text. -/
theorem exists_scan_of_mem_pieces {text : List Char} {piece : Piece}
    (member : piece ∈ pieces text) :
    ∃ first rest, piece = ⟨(scan first rest).1, first :: rest.take (scan first rest).2⟩ := by
  induction length : text.length using Nat.strongRecOn generalizing text with
  | ind length ih =>
      cases text with
      | nil => cases member
      | cons first rest =>
          rw [pieces_cons] at member
          rcases List.mem_cons.mp member with rfl | later
          · exact ⟨first, rest, rfl⟩
          · refine ih _ ?_ later rfl
            simp only [← length, List.length_drop, List.length_cons]
            omega

/-! ## Names -/

/-- What is written where a name or the name of an option stands. -/
def Lexeme.Spells (lexeme : Lexeme) (text : List Char) : Prop :=
  match lexeme with
  | .token (.identifier name) => text = name.toList
  | .token (.optionName name) => text = '-' :: name.toList
  | _ => True

theorem spells_scanNumber (first : Char) (rest text : List Char) :
    (scanNumber first rest).1.Spells text := by
  simp only [scanNumber]
  cases Number.Binary64.read (first :: rest.take (numberExtent rest)) <;> trivial

theorem spells_scanString (rest text : List Char) : (scanString rest).1.Spells text := by
  simp only [scanString]
  split_ifs
  · cases unescape (rest.take ((stringExtent rest).1 - 1)) <;> trivial
  · trivial

theorem spells_scanMoment (rest text : List Char) : (scanMoment rest).1.Spells text := by
  simp only [scanMoment]
  split_ifs <;> trivial

theorem spells_scanSign {alone withEquals : Lexeme} {text : List Char} (rest : List Char)
    (spellsAlone : alone.Spells text) (spellsWithEquals : withEquals.Spells text) :
    (scanSign rest alone withEquals).1.Spells text := by
  rw [scanSign]
  split_ifs
  · exact spellsWithEquals
  · exact spellsAlone

theorem take_takeWhile (holds : Char → Bool) (rest : List Char) :
    rest.take (rest.takeWhile holds).length = rest.takeWhile holds :=
  (List.prefix_iff_eq_take.mp (List.takeWhile_prefix holds)).symm

/-- A name is written as it is, and the name of an option after a dash. -/
theorem spells_scan (first : Char) (rest : List Char) :
    (scan first rest).1.Spells (first :: rest.take (scan first rest).2) := by
  simp only [scan]
  split_ifs
  · trivial
  · rw [take_takeWhile, Lexeme.Spells, String.toList_ofList]
  · exact spells_scanNumber first rest _
  · split
    -- The signs of comparisons, then the literals in quotes and in colons.
    case h_6 | h_7 | h_8 | h_9 => exact spells_scanSign rest trivial trivial
    case h_10 => exact spells_scanString rest _
    case h_11 => exact spells_scanMoment rest _
    -- A slash may begin a comment, a dash the name of an option or a number.
    case h_12 => split <;> trivial
    case h_13 =>
      split
      · split_ifs
        · rw [take_takeWhile, Lexeme.Spells, String.toList_ofList]
        · exact spells_scanNumber _ _ _
        · trivial
      · trivial
    all_goals trivial

theorem exists_piece_of_mem_tokens {text : List Char} {token : PlacedToken}
    (member : token ∈ (lex text).tokens) :
    ∃ piece, (piece, token.span) ∈ placed 0 (pieces text) ∧
      piece.lexeme = .token token.token := by
  obtain ⟨⟨piece, span⟩, stands, kept⟩ := List.mem_filterMap.mp member
  cases lexeme : piece.lexeme with
  | token value =>
      simp only [lexeme, Option.some.injEq] at kept
      subst kept
      exact ⟨piece, stands, lexeme⟩
  | _ => simp [lexeme] at kept

/-- A token is what is scanned at some place, and its slice is what was scanned there. -/
theorem exists_scan_of_mem_tokens {text : List Char} {token : PlacedToken}
    (member : token ∈ (lex text).tokens) :
    ∃ first rest, (scan first rest).1 = .token token.token ∧
      Text.slice? text token.span.start token.span.stop =
        some (first :: rest.take (scan first rest).2) := by
  obtain ⟨piece, stands, lexeme⟩ := exists_piece_of_mem_tokens member
  obtain ⟨before, after, split, -, -⟩ := exists_of_mem_placed stands
  have standsIn : piece ∈ pieces text := by simp [split]
  obtain ⟨first, rest, rfl⟩ := exists_scan_of_mem_pieces standsIn
  exact ⟨first, rest, lexeme, slice?_of_mem_placed stands⟩

theorem exists_slice_of_mem_tokens {text : List Char} {token : PlacedToken}
    (member : token ∈ (lex text).tokens) :
    ∃ written, Text.slice? text token.span.start token.span.stop = some written ∧
      (Lexeme.token token.token).Spells written := by
  obtain ⟨first, rest, scanned, slice⟩ := exists_scan_of_mem_tokens member
  refine ⟨_, slice, ?_⟩
  rw [← scanned]
  exact spells_scan first rest

/-- A name in a text is the slice of the text at its place. -/
theorem slice?_of_identifier {text : List Char} {name : String} {span : Span}
    (member : ⟨.identifier name, span⟩ ∈ (lex text).tokens) :
    Text.slice? text span.start span.stop = some name.toList := by
  obtain ⟨written, slice, rfl⟩ := exists_slice_of_mem_tokens member
  exact slice

/-- The name of an option is such a slice without the dash. -/
theorem slice?_of_optionName {text : List Char} {name : String} {span : Span}
    (member : ⟨.optionName name, span⟩ ∈ (lex text).tokens) :
    Text.slice? text span.start span.stop = some ('-' :: name.toList) := by
  obtain ⟨written, slice, rfl⟩ := exists_slice_of_mem_tokens member
  exact slice

end Flowgraph
