import Flowgraph.Proofs.Token.Lexing

/-!
# What follows a token

In a text without stray characters the blanks and comments behind a token go on up to the
next token, or up to the end of the text (`afterTrivia_stop`).  So whoever passes over
them from the end of a token comes to where the next token begins, although a blank is more
for `afterTrivia` than for `scan`.

Between two tokens there are then, apart from blanks and comments, only the tokens between
them (`exists_pieces_between`).
-/

namespace Flowgraph

/-- Where the first of some tokens begins, or where the text stops if there is none. -/
def nextStart (stop : Nat) : List PlacedToken → Nat
  | [] => stop
  | token :: _ => token.span.start

theorem triviaLength_eq_nextStart {offset : Nat} {text : List Char}
    (clean : (lexFrom offset text).strays = []) :
    offset + triviaLength false text =
      nextStart (offset + Text.byteLength text) (lexFrom offset text).tokens := by
  induction text using pieces_induction generalizing offset with
  | nil => rfl
  | cons first rest ih =>
      obtain ⟨noStray, cleanRest⟩ := strays_lexFrom_cons clean
      have length := (byteLength_piece first rest (scan first rest).2).2
      rw [lexFrom_cons]
      cases scanned : (scan first rest).1 with
      | stray => exact absurd scanned noStray
      | token value =>
          rw [triviaLength_of_scan_token scanned]
          rfl
      | trivia =>
          rw [triviaLength_of_scan_trivia scanned, ← Nat.add_assoc, ih cleanRest, Nat.add_assoc,
            length]
          rfl

theorem afterTrivia_stop_from (before text : List Char)
    (clean : (lexFrom (Text.byteLength before) text).strays = [])
    {earlier later : List PlacedToken} {token : PlacedToken}
    (split : (lexFrom (Text.byteLength before) text).tokens = earlier ++ token :: later) :
    afterTrivia (before ++ text) token.span.stop =
      nextStart (Text.byteLength (before ++ text)) later := by
  induction text using pieces_induction generalizing before earlier with
  | nil => simp [lexFrom_nil] at split
  | cons first rest ih =>
      obtain ⟨-, cleanRest⟩ := strays_lexFrom_cons clean
      have whole : before ++ first :: rest =
          (before ++ first :: rest.take (scan first rest).2) ++ rest.drop (scan first rest).2 := by
        rw [List.append_assoc, List.cons_append, List.take_append_drop]
      have offset := Text.byteLength_append before (first :: rest.take (scan first rest).2)
      rw [← offset] at cleanRest
      rw [lexFrom_cons, ← offset, Lexing.tokens_append] at split
      rw [whole]
      cases scanned : (scan first rest).1 with
      | trivia | stray =>
          rw [scanned] at split
          exact ih _ cleanRest split
      | token value =>
          rw [scanned] at split
          cases earlier with
          | nil =>
              obtain ⟨rfl, others⟩ := List.cons.inj split
              rw [afterTrivia_append, triviaLength_eq_nextStart cleanRest, ← Text.byteLength_append,
                ← others]
              rfl
          | cons isFirst others => exact ih _ cleanRest (List.cons.inj split).2

/-- The blanks and comments after a token end where the next token begins. -/
theorem afterTrivia_stop {text : List Char} (clean : (lex text).strays = [])
    {earlier later : List PlacedToken} {token : PlacedToken}
    (split : (lex text).tokens = earlier ++ token :: later) :
    afterTrivia text token.span.stop = nextStart (Text.byteLength text) later :=
  afterTrivia_stop_from [] text clean split

/-! ## The pieces between two tokens -/

/-- A piece as a token at its place. -/
def Piece.token? : Piece × Span → Option PlacedToken
  | (⟨.token value, _⟩, span) => some ⟨value, span⟩
  | _ => none

theorem tokens_eq_filterMap_token? (text : List Char) :
    (lex text).tokens = (placed 0 (pieces text)).filterMap Piece.token? := by
  refine List.filterMap_congr fun ⟨⟨lexeme, characters⟩, span⟩ _ => ?_
  cases lexeme <;> rfl

theorem Piece.lexeme_of_token? {piece : Piece × Span} {token : PlacedToken}
    (isToken : Piece.token? piece = some token) :
    piece.1.lexeme = .token token.token ∧ piece.2 = token.span := by
  obtain ⟨⟨lexeme, characters⟩, span⟩ := piece
  cases lexeme with
  | token value =>
      obtain rfl := Option.some.inj isToken
      exact ⟨rfl, rfl⟩
  | _ => cases isToken

/-- The characters of pieces, put together. -/
def textOf (all : List (Piece × Span)) : List Char :=
  (all.map Prod.fst).flatMap Piece.text

theorem textOf_append (first second : List (Piece × Span)) :
    textOf (first ++ second) = textOf first ++ textOf second := by
  rw [textOf, List.map_append, List.flatMap_append]
  rfl

theorem map_fst_placed (offset : Nat) (all : List Piece) :
    (placed offset all).map Prod.fst = all := by
  induction all generalizing offset with
  | nil => rfl
  | cons piece rest ih => rw [placed, List.map_cons, ih]

theorem textOf_placed (text : List Char) : textOf (placed 0 (pieces text)) = text := by
  rw [textOf, map_fst_placed, pieces_join]

/-- A piece begins where the pieces before it end. -/
theorem start_of_placed_eq {offset : Nat} {all : List Piece} {before after : List (Piece × Span)}
    {piece : Piece × Span} (split : placed offset all = before ++ piece :: after) :
    piece.2.start = offset + Text.byteLength (textOf before) := by
  induction before generalizing offset all with
  | nil =>
      cases all with
      | nil => cases split
      | cons first rest =>
          obtain ⟨rfl, -⟩ := List.cons.inj split
          rfl
  | cons earlier before ih =>
      cases all with
      | nil => cases split
      | cons first rest =>
          obtain ⟨rfl, others⟩ := List.cons.inj split
          rw [ih others, Nat.add_assoc, ← Text.byteLength_append]
          rfl

/-- The text from where some pieces begin to where the piece behind them begins. -/
theorem slice?_of_placed_eq {text : List Char} {before inner after : List (Piece × Span)}
    {last : Piece × Span} (split : placed 0 (pieces text) = before ++ (inner ++ last :: after)) :
    Text.slice? text (Text.byteLength (textOf before)) last.2.start =
      some (textOf inner) := by
  have stop : last.2.start =
      Text.byteLength (textOf before) + Text.byteLength (textOf inner) := by
    rw [← List.append_assoc] at split
    rw [start_of_placed_eq split, Nat.zero_add, textOf_append, Text.byteLength_append]
  have whole := textOf_placed text
  rw [split, textOf_append, textOf_append] at whole
  rw [stop]
  conv_lhs => rw [← whole]
  exact Text.slice?_append ..

/-- In a text without stray characters what is no token is blanks or a comment. -/
theorem lexeme_eq_trivia {text : List Char} (clean : (lex text).strays = [])
    {piece : Piece × Span} (member : piece ∈ placed 0 (pieces text))
    (noToken : Piece.token? piece = none) : piece.1.lexeme = .trivia := by
  have noStray := List.filterMap_eq_nil_iff.mp clean piece member
  obtain ⟨⟨lexeme, characters⟩, span⟩ := piece
  cases lexeme with
  | trivia => rfl
  | token value => cases noToken
  | stray => cases noStray

/-- The pieces are cut where one token begins and where a later one begins. -/
theorem exists_cut {text : List Char} {before between after : List PlacedToken}
    {last : PlacedToken} (stop : Nat)
    (split : (lex text).tokens = before ++ (between ++ last :: after)) :
    ∃ prior inner piece others,
      placed 0 (pieces text) = prior ++ (inner ++ piece :: others) ∧
        piece.2 = last.span ∧
        nextStart stop (between ++ last :: after) = Text.byteLength (textOf prior) ∧
        ∀ stands ∈ inner, ∀ token ∈ Piece.token? stands, token ∈ between := by
  rw [tokens_eq_filterMap_token?] at split
  obtain ⟨early, late, splitEarly, -, lateTokens⟩ := List.filterMap_eq_append_iff.mp split
  obtain ⟨middle, later, rfl, middleTokens, laterTokens⟩ :=
    List.filterMap_eq_append_iff.mp lateTokens
  obtain ⟨gap, piece, others, rfl, noTokens, isLast, -⟩ :=
    List.filterMap_eq_cons_iff.mp laterTokens
  have place := (Piece.lexeme_of_token? isLast).2
  have isBetween : ∀ stands ∈ middle ++ gap, ∀ token ∈ Piece.token? stands,
      token ∈ between := by
    intro stands member token isToken
    rcases List.mem_append.mp member with inMiddle | inGap
    · exact middleTokens ▸ List.mem_filterMap.mpr ⟨stands, inMiddle, isToken⟩
    · simp [noTokens stands inGap] at isToken
  -- Whatever stands before the first of the tokens in between is left out.
  cases between with
  | nil =>
      have cut : placed 0 (pieces text) =
          (early ++ (middle ++ gap)) ++ ([] ++ piece :: others) := by
        simp only [splitEarly, List.append_assoc, List.nil_append]
      refine ⟨_, _, _, _, cut, place, ?_, by simp⟩
      rw [List.nil_append, nextStart, ← place, start_of_placed_eq cut, Nat.zero_add]
  | cons sign more =>
      obtain ⟨skipped, first, rest, rfl, -, isFirst, -⟩ :=
        List.filterMap_eq_cons_iff.mp middleTokens
      have cut : placed 0 (pieces text) =
          (early ++ skipped) ++ (first :: (rest ++ gap) ++ piece :: others) := by
        simp only [splitEarly, List.append_assoc, List.cons_append]
      have part : first :: (rest ++ gap) <:+ skipped ++ first :: rest ++ gap :=
        ⟨skipped, by simp only [List.append_assoc, List.cons_append]⟩
      refine ⟨_, _, _, _, cut, place, ?_, fun stands member => ?_⟩
      · rw [List.cons_append, nextStart, ← (Piece.lexeme_of_token? isFirst).2,
          start_of_placed_eq cut, Nat.zero_add]
      · exact isBetween stands (part.subset member)

/--
The pieces from where one token begins to where a later one begins are the tokens in between,
blanks and comments.
-/
theorem exists_pieces_between {text : List Char} (clean : (lex text).strays = [])
    {before between after : List PlacedToken} {last : PlacedToken} (stop : Nat)
    (split : (lex text).tokens = before ++ (between ++ last :: after)) :
    ∃ inner : List Piece, inner <:+: pieces text ∧
      Text.slice? text (nextStart stop (between ++ last :: after)) last.span.start =
        some (inner.flatMap Piece.text) ∧
      ∀ piece ∈ inner,
        piece.lexeme = .trivia ∨ ∃ token ∈ between, piece.lexeme = .token token.token := by
  obtain ⟨prior, inner, piece, others, cut, place, start, isBetween⟩ := exists_cut stop split
  refine ⟨inner.map Prod.fst, ?_, ?_, ?_⟩
  · rw [← map_fst_placed 0 (pieces text), cut]
    exact (List.infix_append' prior inner (piece :: others)).map Prod.fst
  · rw [start, ← place]
    exact slice?_of_placed_eq cut
  · simp only [List.forall_mem_map]
    intro stands member
    cases isToken : Piece.token? stands with
    | none =>
        have inText : stands ∈ placed 0 (pieces text) := by simp [cut, member]
        exact .inl (lexeme_eq_trivia clean inText isToken)
    | some token =>
        exact .inr ⟨token, isBetween stands member token isToken,
          (Piece.lexeme_of_token? isToken).1⟩

end Flowgraph
