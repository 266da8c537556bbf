import Flowgraph.Proofs.Token.Slices
import Mathlib.Data.List.Basic
import Mathlib.Data.List.TakeWhile

/-!
# Tokens in the order of the text

A text is read as tokens from some offset on: its first piece, and what is left after it
at a later offset (`lexFrom_cons`).  The places of the tokens follow from this by going
over the pieces.

Between two tokens of a text without stray characters there is nothing but blanks and
comments, and no token begins with what a comment or a blank begins with.  So the blanks
and comments that follow a token end before the next one (`pairwise_afterTrivia`).
-/

namespace Flowgraph

namespace Lexing

instance : Append Lexing where
  append first second := ⟨first.tokens ++ second.tokens, first.strays ++ second.strays⟩

@[simp]
theorem tokens_append (first second : Lexing) :
    (first ++ second).tokens = first.tokens ++ second.tokens := rfl

@[simp]
theorem strays_append (first second : Lexing) :
    (first ++ second).strays = first.strays ++ second.strays := rfl

theorem append_assoc (first second third : Lexing) :
    first ++ second ++ third = first ++ (second ++ third) :=
  Lexing.mk.injEq .. ▸ ⟨List.append_assoc .., List.append_assoc ..⟩

/-- What a single piece is read as. -/
def ofPiece (piece : Piece) (span : Span) : Lexing :=
  match piece.lexeme with
  | .token value => ⟨[⟨value, span⟩], []⟩
  | .stray => ⟨[], [⟨piece.text, span⟩]⟩
  | .trivia => ⟨[], []⟩

@[simp]
theorem nil_append (lexing : Lexing) : (⟨[], []⟩ : Lexing) ++ lexing = lexing := rfl

end Lexing

/-- A part of a text read as tokens, where the part begins at an offset. -/
def lexFrom (offset : Nat) (text : List Char) : Lexing :=
  { tokens := (placed offset (pieces text)).filterMap fun (piece, span) =>
      match piece.lexeme with
      | .token value => some ⟨value, span⟩
      | _ => none
    strays := (placed offset (pieces text)).filterMap fun (piece, span) =>
      match piece.lexeme with
      | .stray => some ⟨piece.text, span⟩
      | _ => none }

theorem lex_eq_lexFrom (text : List Char) : lex text = lexFrom 0 text := rfl

theorem lexFrom_nil (offset : Nat) : lexFrom offset [] = ⟨[], []⟩ := rfl

/-- The first piece of a text is read, and then the rest behind it. -/
theorem lexFrom_cons (offset : Nat) (first : Char) (rest : List Char) :
    lexFrom offset (first :: rest) =
      Lexing.ofPiece ⟨(scan first rest).1, first :: rest.take (scan first rest).2⟩
          ⟨offset, offset + Text.byteLength (first :: rest.take (scan first rest).2)⟩ ++
        lexFrom (offset + Text.byteLength (first :: rest.take (scan first rest).2))
          (rest.drop (scan first rest).2) := by
  rw [lexFrom, pieces_cons]
  simp only [placed, List.filterMap_cons]
  cases (scan first rest).1 <;> rfl

/-- What holds of a text if it holds of what its first piece leaves holds of every text. -/
@[elab_as_elim]
theorem pieces_induction {motive : List Char → Prop} (nil : motive [])
    (cons : ∀ first rest, motive (rest.drop (scan first rest).2) → motive (first :: rest))
    (text : List Char) : motive text := by
  induction length : text.length using Nat.strongRecOn generalizing text with
  | ind length ih =>
      cases text with
      | nil => exact nil
      | cons first rest =>
          refine cons first rest (ih _ ?_ _ rfl)
          simp only [← length, List.length_drop, List.length_cons]
          omega

/-! ## What a piece begins with -/

/-- The visible characters of ASCII are no blanks. -/
theorem isBlank_eq_false {c : Char} (low : 0x20 < c.toNat) (high : c.toNat < 0x7f) :
    Text.isBlank c = false := by
  rw [Bool.eq_false_iff]
  simp only [Text.isBlank, ne_eq, Bool.or_eq_true, Bool.and_eq_true, decide_eq_true_eq, beq_iff_eq]
  omega

theorem isBlank_of_isNameStart {c : Char} (starts : isNameStart c) : Text.isBlank c = false := by
  simp only [isNameStart, Bool.or_eq_true, beq_iff_eq] at starts
  rcases starts with letter | rfl
  · delta Char.isAlpha Char.isUpper Char.isLower at letter
    simp only [Bool.or_eq_true, Bool.and_eq_true, decide_eq_true_eq, ge_iff_le,
      UInt32.le_iff_toNat_le] at letter
    refine isBlank_eq_false ?_ ?_ <;> simp only [Char.toNat] <;> grind
  · decide

theorem isBlank_of_isDigit {c : Char} (digit : c.isDigit) : Text.isBlank c = false := by
  simp only [Char.isDigit, Bool.and_eq_true, decide_eq_true_eq, ge_iff_le, UInt32.le_iff_toNat_le]
    at digit
  refine isBlank_eq_false ?_ ?_ <;> simp only [Char.toNat] <;> grind

theorem isBlank_of_isLayout {c : Char} (layout : isLayout c) : Text.isBlank c := by
  simp only [isLayout, Bool.or_eq_true, beq_iff_eq] at layout
  rcases layout with (((rfl | rfl) | rfl) | rfl) | rfl <;> decide

theorem scan_of_isLayout {first : Char} (layout : isLayout first) (rest : List Char) :
    scan first rest = (.trivia, (rest.takeWhile isLayout).length) := by
  simp only [scan, if_pos layout]

theorem scan_comment (comment : List Char) :
    scan '/' ('/' :: comment) = (.trivia, 1 + (comment.takeWhile (· != '\n')).length) := rfl

theorem scanNumber_ne_trivia (first : Char) (rest : List Char) :
    (scanNumber first rest).1 ≠ .trivia := by
  simp only [scanNumber]
  cases Number.Binary64.read (first :: rest.take (numberExtent rest)) <;> simp

theorem scanString_ne_trivia (rest : List Char) : (scanString rest).1 ≠ .trivia := by
  simp only [scanString]
  split_ifs
  · cases unescape (rest.take ((stringExtent rest).1 - 1)) <;> simp
  · simp

theorem scanMoment_ne_trivia (rest : List Char) : (scanMoment rest).1 ≠ .trivia := by
  simp only [scanMoment]
  split_ifs <;> simp

/-- Apart from blanks and comments a piece is a token or a stray piece. -/
theorem scan_ne_trivia {first : Char} (noLayout : isLayout first = false) {rest : List Char}
    (noComment : first = '/' → rest.head? ≠ some '/') : (scan first rest).1 ≠ .trivia := by
  simp only [scan, noLayout, Bool.false_eq_true, if_false]
  split_ifs
  · simp
  · exact scanNumber_ne_trivia first rest
  · split
    case h_6 | h_7 | h_8 | h_9 => rw [scanSign]; split_ifs <;> simp
    case h_10 => exact scanString_ne_trivia rest
    case h_11 => exact scanMoment_ne_trivia rest
    case h_12 =>
      split
      · exact absurd rfl (noComment rfl)
      · simp
    case h_13 =>
      split
      · split_ifs
        · simp
        · exact scanNumber_ne_trivia _ _
        · simp
      · simp
    all_goals simp

/-- Neither a blank nor the slash of a comment begins a token. -/
theorem not_isBlank_of_scan {first : Char} {rest : List Char} {value : Token}
    (scanned : (scan first rest).1 = .token value) :
    Text.isBlank first = false ∧ first ≠ '/' := by
  simp only [scan] at scanned
  split_ifs at scanned with layout name digit
  · exact ⟨isBlank_of_isNameStart name, by rintro rfl; exact absurd name (by decide)⟩
  · exact ⟨isBlank_of_isDigit digit, by rintro rfl; exact absurd digit (by decide)⟩
  · split at scanned
    case h_12 => split at scanned <;> cases scanned
    case h_14 => cases scanned
    all_goals exact ⟨by decide, by decide⟩

/-! ## Blanks and comments -/

theorem triviaLength_append_of_isBlank {blanks : List Char}
    (blank : ∀ c ∈ blanks, Text.isBlank c = true) (rest : List Char) :
    triviaLength false (blanks ++ rest) = Text.byteLength blanks + triviaLength false rest := by
  induction blanks with
  | nil => simp
  | cons c later ih =>
      have first := blank c (List.mem_cons_self ..)
      rw [List.cons_append, triviaLength,
        ih fun c member => blank c (List.mem_cons_of_mem _ member)]
      simp [first, Nat.add_assoc]

theorem triviaLength_append_of_comment {comment : List Char} (line : ∀ c ∈ comment, c ≠ '\n')
    (rest : List Char) :
    triviaLength true (comment ++ rest) = Text.byteLength comment + triviaLength true rest := by
  induction comment with
  | nil => simp
  | cons c later ih =>
      have first := line c (List.mem_cons_self ..)
      rw [List.cons_append, triviaLength,
        ih fun c member => line c (List.mem_cons_of_mem _ member)]
      simp [first, Nat.add_assoc]

/-- A comment is over at the end of its line. -/
theorem triviaLength_true_eq {rest : List Char} (ends : ∀ c ∈ rest.head?, c = '\n') :
    triviaLength true rest = triviaLength false rest := by
  cases rest with
  | nil => rfl
  | cons c later =>
      obtain rfl := ends c rfl
      rfl

theorem afterTrivia_append (before after : List Char) :
    afterTrivia (before ++ after) (Text.byteLength before) =
      Text.byteLength before + triviaLength false after := by
  simp [afterTrivia]

theorem drop_takeWhile (holds : Char → Bool) (text : List Char) :
    text.drop (text.takeWhile holds).length = text.dropWhile holds := by
  have split : text.takeWhile holds ++ text.dropWhile holds = text :=
    List.takeWhile_append_dropWhile
  calc
    text.drop (text.takeWhile holds).length =
        (text.takeWhile holds ++ text.dropWhile holds).drop (text.takeWhile holds).length := by
      rw [split]
    _ = text.dropWhile holds := List.drop_left

/-- A piece of blanks and comments belongs to what it begins. -/
theorem triviaLength_of_scan_trivia {first : Char} {rest : List Char}
    (scanned : (scan first rest).1 = .trivia) :
    triviaLength false (first :: rest) =
      Text.byteLength (first :: rest.take (scan first rest).2) +
        triviaLength false (rest.drop (scan first rest).2) := by
  by_cases layout : isLayout first = true
  · rw [scan_of_isLayout layout]
    have blank : ∀ c ∈ first :: rest.take (rest.takeWhile isLayout).length,
        Text.isBlank c = true := by
      intro c member
      rcases List.mem_cons.mp member with rfl | later
      · exact isBlank_of_isLayout layout
      · rw [take_takeWhile] at later
        exact isBlank_of_isLayout (List.mem_takeWhile_imp later)
    rw [← triviaLength_append_of_isBlank blank, List.cons_append, List.take_append_drop]
  · have noLayout : isLayout first = false := by simpa using layout
    obtain ⟨rfl, begins⟩ : first = '/' ∧ rest.head? = some '/' := by
      by_contra none
      exact scan_ne_trivia noLayout (by tauto) scanned
    obtain ⟨comment, rfl⟩ := List.head?_eq_some_iff.mp begins
    have line : ∀ c ∈ comment.takeWhile (· != '\n'), c ≠ '\n' := by
      intro c member
      simpa using List.mem_takeWhile_imp member
    have ends : ∀ c ∈ (comment.dropWhile (· != '\n')).head?, c = '\n' := by
      intro c member
      have kept := List.head?_dropWhile_not (· != '\n') comment
      rw [Option.mem_def.mp member] at kept
      simpa using kept
    have whole := triviaLength_append_of_comment line (comment.dropWhile (· != '\n'))
    rw [List.takeWhile_append_dropWhile, triviaLength_true_eq ends] at whole
    have opened : triviaLength false ('/' :: '/' :: comment) =
        '/'.utf8Size + ('/'.utf8Size + triviaLength true comment) := rfl
    rw [opened, whole, scan_comment, Nat.add_comm 1, List.take_succ_cons, List.drop_succ_cons,
      take_takeWhile, drop_takeWhile, Text.byteLength_cons, Text.byteLength_cons]
    omega

/-- There are no blanks and comments before a token. -/
theorem triviaLength_of_scan_token {first : Char} {rest : List Char} {value : Token}
    (scanned : (scan first rest).1 = .token value) : triviaLength false (first :: rest) = 0 := by
  obtain ⟨visible, noSlash⟩ := not_isBlank_of_scan scanned
  simp [triviaLength, visible, noSlash]

/-! ## Tokens in order -/

/-- A token is the first piece of a part of a text, or one of the rest. -/
theorem mem_tokens_lexFrom_cons {offset : Nat} {first : Char} {rest : List Char}
    {token : PlacedToken} :
    token ∈ (lexFrom offset (first :: rest)).tokens ↔
      ((scan first rest).1 = .token token.token ∧
          token.span = ⟨offset,
            offset + Text.byteLength (first :: rest.take (scan first rest).2)⟩) ∨
        token ∈ (lexFrom (offset + Text.byteLength (first :: rest.take (scan first rest).2))
          (rest.drop (scan first rest).2)).tokens := by
  rw [lexFrom_cons, Lexing.tokens_append, List.mem_append]
  obtain ⟨token, span⟩ := token
  cases (scan first rest).1 <;> simp [Lexing.ofPiece, eq_comm]

/-- The rest of a text without stray characters has none. -/
theorem strays_lexFrom_cons {offset : Nat} {first : Char} {rest : List Char}
    (clean : (lexFrom offset (first :: rest)).strays = []) :
    (scan first rest).1 ≠ .stray ∧
      (lexFrom (offset + Text.byteLength (first :: rest.take (scan first rest).2))
        (rest.drop (scan first rest).2)).strays = [] := by
  rw [lexFrom_cons, Lexing.strays_append, List.append_eq_nil_iff] at clean
  refine ⟨?_, clean.2⟩
  intro stray
  simp [Lexing.ofPiece, stray] at clean

theorem byteLength_piece (first : Char) (rest : List Char) (more : Nat) :
    0 < Text.byteLength (first :: rest.take more) ∧
      Text.byteLength (first :: rest.take more) + Text.byteLength (rest.drop more) =
        Text.byteLength (first :: rest) := by
  constructor
  · have positive := first.utf8Size_pos
    rw [Text.byteLength_cons]
    omega
  · rw [← Text.byteLength_append, List.cons_append, List.take_append_drop]

/-- The tokens of a part of a text stand in it, each with at least one byte. -/
theorem bounds_of_mem_lexFrom {offset : Nat} {text : List Char} {token : PlacedToken}
    (member : token ∈ (lexFrom offset text).tokens) :
    offset ≤ token.span.start ∧ token.span.start < token.span.stop ∧
      token.span.stop ≤ offset + Text.byteLength text := by
  induction text using pieces_induction generalizing offset with
  | nil => simp [lexFrom_nil] at member
  | cons first rest ih =>
      have piece := byteLength_piece first rest (scan first rest).2
      rcases mem_tokens_lexFrom_cons.mp member with ⟨-, place⟩ | later
      · simp only [place]
        omega
      · have bounds := ih later
        omega

/-- Where a token begins, the blanks and comments before it have ended. -/
theorem triviaLength_le_start {offset : Nat} {text : List Char}
    (clean : (lexFrom offset text).strays = []) {token : PlacedToken}
    (member : token ∈ (lexFrom offset text).tokens) :
    offset + triviaLength false text ≤ token.span.start := by
  induction text using pieces_induction generalizing offset with
  | nil => simp [lexFrom_nil] at member
  | cons first rest ih =>
      obtain ⟨noStray, cleanRest⟩ := strays_lexFrom_cons clean
      cases scanned : (scan first rest).1 with
      | stray => exact absurd scanned noStray
      | token value =>
          rw [triviaLength_of_scan_token scanned]
          exact (bounds_of_mem_lexFrom member).1
      | trivia =>
          rw [triviaLength_of_scan_trivia scanned, ← Nat.add_assoc]
          rcases mem_tokens_lexFrom_cons.mp member with ⟨token, -⟩ | later
          · simp [scanned] at token
          · exact ih cleanRest later

/-- The blanks and comments after a token end before the tokens that follow it. -/
theorem pairwise_afterTrivia_from (before text : List Char)
    (clean : (lexFrom (Text.byteLength before) text).strays = []) :
    (lexFrom (Text.byteLength before) text).tokens.Pairwise fun token later =>
      afterTrivia (before ++ text) token.span.stop ≤ later.span.start := by
  induction text using pieces_induction generalizing before with
  | nil => exact .nil
  | cons first rest ih =>
      obtain ⟨-, cleanRest⟩ := strays_lexFrom_cons clean
      have whole : before ++ first :: rest =
          (before ++ first :: rest.take (scan first rest).2) ++ rest.drop (scan first rest).2 := by
        rw [List.append_assoc, List.cons_append, List.take_append_drop]
      have offset := Text.byteLength_append before (first :: rest.take (scan first rest).2)
      rw [← offset] at cleanRest
      have ordered := ih _ cleanRest
      rw [lexFrom_cons, ← offset, whole, Lexing.tokens_append, List.pairwise_append]
      refine ⟨?_, ordered, ?_⟩
      · cases (scan first rest).1 <;> simp [Lexing.ofPiece]
      · intro token isFirst later member
        have stop : token.span.stop =
            Text.byteLength (before ++ first :: rest.take (scan first rest).2) := by
          cases scanned : (scan first rest).1 <;>
            simp_all [Lexing.ofPiece]
        rw [stop, afterTrivia_append]
        exact triviaLength_le_start cleanRest member

/-- The blanks and comments after a token end before the tokens that follow it. -/
theorem pairwise_afterTrivia {text : List Char} (clean : (lex text).strays = []) :
    (lex text).tokens.Pairwise fun token later =>
      afterTrivia text token.span.stop ≤ later.span.start :=
  pairwise_afterTrivia_from [] text clean

theorem le_afterTrivia (text : List Char) (offset : Nat) : offset ≤ afterTrivia text offset := by
  rw [afterTrivia]
  cases Text.dropBytes? offset text with
  | none => exact Nat.le_refl _
  | some rest => exact Nat.le_add_right _ _

/-- Tokens begin one after the other. -/
theorem pairwise_starts {text : List Char} (clean : (lex text).strays = []) :
    (lex text).tokens.Pairwise fun token later => token.span.start < later.span.start := by
  refine (pairwise_afterTrivia clean).imp_of_mem fun {token later} member _ ordered => ?_
  have bounds := bounds_of_mem_lexFrom member
  have follows := le_afterTrivia text token.span.stop
  omega

end Flowgraph
