import Flowgraph.Proofs.Token.LongestMatch

/-!
# How a text is divided

The tokens and the stray pieces of a text stand one after the other, and between them there
is nothing but blanks and comments (`Division`).  Every byte of the text so belongs to
exactly one token, one stray piece or one gap between them.  With what is known about the
longest match this describes the reading of every text, whether it has stray pieces or not.
-/

namespace Flowgraph

open Pattern

/-! ## Spans and the gaps between them -/

/-- The gaps that spans leave between two offsets: before the first, between them, behind them. -/
def gaps (start stop : Nat) : List Span → List Span
  | [] => [⟨start, stop⟩]
  | span :: later => ⟨start, span.start⟩ :: gaps span.stop stop later

/-- Only the first gap depends on where the gaps begin. -/
theorem exists_gaps_eq (stop : Nat) (spans : List Span) :
    ∃ finish later, ∀ start, gaps start stop spans = ⟨start, finish⟩ :: later := by
  cases spans with
  | nil => exact ⟨stop, [], fun _ => rfl⟩
  | cons span others => exact ⟨span.start, gaps span.stop stop others, fun _ => rfl⟩

/-- Spans with at least one byte that follow each other between two offsets. -/
def InOrder (start stop : Nat) : List Span → Prop
  | [] => start ≤ stop
  | span :: later => start ≤ span.start ∧ span.start < span.stop ∧ InOrder span.stop stop later

/-- Whether the byte at an offset belongs to a span. -/
def Span.holds (offset : Nat) (span : Span) : Bool :=
  span.start ≤ offset && offset < span.stop

section InOrder

variable {start stop : Nat} {spans : List Span}

theorem InOrder.of_le {earlier : Nat} (ordered : InOrder start stop spans)
    (le : earlier ≤ start) : InOrder earlier stop spans := by
  cases spans with
  | nil => exact le.trans ordered
  | cons span later => exact ⟨le.trans ordered.1, ordered.2⟩

/-- Spans in order are not empty and lie within their bounds. -/
theorem InOrder.bounds (ordered : InOrder start stop spans) :
    start ≤ stop ∧
      ∀ span ∈ spans, start ≤ span.start ∧ span.start < span.stop ∧ span.stop ≤ stop := by
  induction spans generalizing start with
  | nil => exact ⟨ordered, by simp⟩
  | cons span later ih =>
      obtain ⟨le, nonempty, orderedLater⟩ := ordered
      obtain ⟨atMost, bounds⟩ := ih orderedLater
      refine ⟨by omega, List.forall_mem_cons.mpr ⟨⟨le, nonempty, atMost⟩, ?_⟩⟩
      intro other member
      have := bounds other member
      omega

/-- Of two spans in order, the first ends before the second begins. -/
theorem InOrder.pairwise (ordered : InOrder start stop spans) :
    spans.Pairwise fun span later => span.stop ≤ later.start := by
  induction spans generalizing start with
  | nil => exact .nil
  | cons span later ih =>
      obtain ⟨-, -, orderedLater⟩ := ordered
      exact .cons (fun other member => (orderedLater.bounds.2 other member).1) (ih orderedLater)

/-- Every byte between the two offsets belongs to one of the spans or to one of the gaps. -/
theorem InOrder.countP_eq (ordered : InOrder start stop spans) (offset : Nat) :
    (spans ++ gaps start stop spans).countP (Span.holds offset) =
      if start ≤ offset ∧ offset < stop then 1 else 0 := by
  induction spans generalizing start with
  | nil => simp [gaps, Span.holds]
  | cons span later ih =>
      obtain ⟨le, nonempty, orderedLater⟩ := ordered
      have atMost := orderedLater.bounds.1
      have rest := ih orderedLater
      rw [List.countP_append] at rest ⊢
      simp only [gaps, List.countP_cons, Span.holds, Bool.and_eq_true, decide_eq_true_eq] at rest ⊢
      split_ifs at rest ⊢ <;> omega

end InOrder

/-! ## Tokens and stray pieces -/

/-- What stands in a text between blanks and comments. -/
inductive Mark where
  | token (token : PlacedToken)
  | stray (stray : Stray)
deriving DecidableEq, Repr

namespace Mark

def span : Mark → Span
  | .token placed => placed.span
  | .stray piece => piece.span

def token? : Mark → Option PlacedToken
  | .token placed => some placed
  | .stray _ => none

def stray? : Mark → Option Stray
  | .token _ => none
  | .stray piece => some piece

/-- What a piece is, unless it is blanks or a comment. -/
def ofPiece (piece : Piece) (span : Span) : Option Mark :=
  match piece.lexeme with
  | .token value => some (.token ⟨value, span⟩)
  | .stray => some (.stray ⟨piece.text, span⟩)
  | .trivia => none

/-- A mark is placed where its piece is. -/
theorem span_of_ofPiece {piece : Piece} {span : Span} {mark : Mark}
    (made : ofPiece piece span = some mark) : mark.span = span := by
  simp only [ofPiece] at made
  split at made
  · exact Option.some.inj made ▸ rfl
  · exact Option.some.inj made ▸ rfl
  · cases made

end Mark

/-- The tokens and stray pieces of a part of a text that begins at an offset. -/
def marksFrom (offset : Nat) (text : List Char) : List Mark :=
  (placed offset (pieces text)).filterMap fun (piece, span) => Mark.ofPiece piece span

/-- The first mark is that of what is read first, and the others are those of the rest. -/
theorem marksFrom_cons (offset : Nat) (first : Char) (rest : List Char) :
    marksFrom offset (first :: rest) =
      (Mark.ofPiece ⟨(scan first rest).1, first :: rest.take (scan first rest).2⟩
          ⟨offset, offset + Text.byteLength (first :: rest.take (scan first rest).2)⟩).toList ++
        marksFrom (offset + Text.byteLength (first :: rest.take (scan first rest).2))
          (rest.drop (scan first rest).2) := by
  rw [marksFrom, pieces_cons]
  simp only [placed, List.filterMap_cons]
  cases (scan first rest).1 <;> rfl

/-- The tokens among the marks are those of the text. -/
theorem tokens_eq_filterMap (offset : Nat) (text : List Char) :
    (marksFrom offset text).filterMap Mark.token? = (lexFrom offset text).tokens := by
  rw [marksFrom, List.filterMap_filterMap]
  congr 1
  funext ⟨piece, span⟩
  cases lexeme : piece.lexeme <;> simp [Mark.ofPiece, lexeme, Mark.token?]

/-- The stray pieces among the marks are those of the text. -/
theorem strays_eq_filterMap (offset : Nat) (text : List Char) :
    (marksFrom offset text).filterMap Mark.stray? = (lexFrom offset text).strays := by
  rw [marksFrom, List.filterMap_filterMap]
  congr 1
  funext ⟨piece, span⟩
  cases lexeme : piece.lexeme <;> simp [Mark.ofPiece, lexeme, Mark.stray?]

/-- Tokens and stray pieces follow each other, and none of them is empty. -/
theorem inOrder_marksFrom (offset : Nat) (text : List Char) :
    InOrder offset (offset + Text.byteLength text) ((marksFrom offset text).map Mark.span) := by
  induction text using pieces_induction generalizing offset with
  | nil => exact Nat.le_refl _
  | cons first rest ih =>
      obtain ⟨positive, length⟩ := byteLength_piece first rest (scan first rest).2
      have later := ih (offset + Text.byteLength (first :: rest.take (scan first rest).2))
      rw [Nat.add_assoc, length] at later
      rw [marksFrom_cons]
      cases made : Mark.ofPiece ⟨(scan first rest).1, first :: rest.take (scan first rest).2⟩
          ⟨offset, offset + Text.byteLength (first :: rest.take (scan first rest).2)⟩ with
      | none => exact later.of_le (Nat.le_add_right _ _)
      | some mark =>
          rw [Option.toList_some, List.singleton_append, List.map_cons, Mark.span_of_ofPiece made]
          exact ⟨Nat.le_refl _, Nat.lt_add_of_pos_right positive, later⟩

/-! ## What is passed over -/

/--
Texts that are passed over before another: blanks and comments, where a comment goes on to
the end of its line or of the text.
-/
inductive Skipped (after : List Char) : List Char → Prop
  | nothing : Skipped after []
  | blanks {run rest : List Char} : run ∈ blanks → Skipped after rest → Skipped after (run ++ rest)
  | comment {line rest : List Char} : line ∈ comment → (∀ c ∈ (rest ++ after).head?, c = '\n') →
      Skipped after rest → Skipped after (line ++ rest)

/-- A gap that is passed over. -/
def Span.IsSkipped (text : List Char) (gap : Span) : Prop :=
  ∃ before skipped after, text = before ++ (skipped ++ after) ∧ Skipped after skipped ∧
    gap = ⟨Text.byteLength before, Text.byteLength before + Text.byteLength skipped⟩

/-- A piece of blanks or of a comment can be passed over before what is passed over anyway. -/
theorem Skipped.piece {first : Char} {rest skipped after : List Char}
    (trivia : (scan first rest).1 = .trivia)
    (left : rest.drop (scan first rest).2 = skipped ++ after) (skips : Skipped after skipped) :
    Skipped after (first :: rest.take (scan first rest).2 ++ skipped) := by
  by_cases layout : isLayout first = true
  · rw [scan_of_isLayout layout, take_takeWhile]
    refine .blanks (mem_run_iff.mpr ⟨List.cons_ne_nil _ _, ?_⟩) skips
    exact List.forall_mem_cons.mpr ⟨layout, fun _ member => List.mem_takeWhile_imp member⟩
  · have noLayout : isLayout first = false := by simpa using layout
    obtain ⟨rfl, begins⟩ : first = '/' ∧ rest.head? = some '/' := by
      by_contra none
      exact scan_ne_trivia noLayout (by tauto) trivia
    obtain ⟨line, rfl⟩ := List.head?_eq_some_iff.mp begins
    rw [scan_comment, Nat.add_comm 1, List.drop_succ_cons, drop_takeWhile] at left
    rw [scan_comment, Nat.add_comm 1, List.take_succ_cons, take_takeWhile]
    refine .comment (mem_comment_iff.mpr ⟨_, takeWhile_mem_many _ _, rfl⟩) ?_ skips
    intro c member
    have kept := List.head?_dropWhile_not (· != '\n') line
    rw [left, Option.mem_def.mp member] at kept
    simpa using kept

/-- A gap begins already with the piece of trivia before it. -/
theorem Span.IsSkipped.extend {before rest : List Char} {first : Char} {finish : Nat}
    (trivia : (scan first rest).1 = .trivia)
    (gap : Span.IsSkipped (before ++ first :: rest)
      ⟨Text.byteLength before + Text.byteLength (first :: rest.take (scan first rest).2), finish⟩) :
    Span.IsSkipped (before ++ first :: rest) ⟨Text.byteLength before, finish⟩ := by
  obtain ⟨earlier, skipped, after, split, skips, place⟩ := gap
  obtain ⟨start, rfl⟩ := Span.mk.inj place
  have whole : before ++ first :: rest =
      (before ++ first :: rest.take (scan first rest).2) ++ rest.drop (scan first rest).2 := by
    rw [List.append_assoc, List.cons_append, List.take_append_drop]
  rw [← Text.byteLength_append] at start
  rw [whole] at split
  obtain ⟨rfl, left⟩ := Text.append_inj_of_byteLength split start
  refine ⟨before, first :: rest.take (scan first rest).2 ++ skipped, after, ?_,
    skips.piece trivia left, ?_⟩
  · rw [List.append_assoc, ← left, List.cons_append, List.take_append_drop]
  · rw [Text.byteLength_append, Text.byteLength_append, Nat.add_assoc]

/-- The gaps between the tokens and stray pieces of a text are passed over. -/
theorem isSkipped_of_mem_gaps (before text : List Char) :
    ∀ gap ∈ gaps (Text.byteLength before) (Text.byteLength before + Text.byteLength text)
        ((marksFrom (Text.byteLength before) text).map Mark.span),
      gap.IsSkipped (before ++ text) := by
  induction text using pieces_induction generalizing before with
  | nil =>
      intro gap member
      rw [List.mem_singleton.mp member]
      exact ⟨before, [], [], rfl, .nothing, rfl⟩
  | cons first rest ih =>
      have length := (byteLength_piece first rest (scan first rest).2).2
      have later := ih (before ++ first :: rest.take (scan first rest).2)
      rw [Text.byteLength_append, Nat.add_assoc, length, List.append_assoc, List.cons_append,
        List.take_append_drop] at later
      rw [marksFrom_cons]
      cases trivia : (scan first rest).1 with
      | trivia =>
          obtain ⟨finish, others, split⟩ := exists_gaps_eq
            (Text.byteLength before + Text.byteLength (first :: rest))
            ((marksFrom (Text.byteLength before +
              Text.byteLength (first :: rest.take (scan first rest).2))
              (rest.drop (scan first rest).2)).map Mark.span)
          simp only [Mark.ofPiece, Option.toList_none, List.nil_append, split,
            List.forall_mem_cons] at later ⊢
          refine ⟨later.1.extend trivia, later.2⟩
      | token value | stray =>
          simp only [Mark.ofPiece, Option.toList_some, List.singleton_append, List.map_cons,
            gaps, List.forall_mem_cons, Mark.span]
          exact ⟨⟨before, [], first :: rest, rfl, .nothing, rfl⟩, later⟩

/-! ## What stands in the text -/

/-- A piece is the longest lexeme at its place. -/
theorem exists_scan_of_mem_placed {text : List Char} {piece : Piece} {span : Span}
    (before : List Char) (member : (piece, span) ∈ placed (Text.byteLength before) (pieces text)) :
    ∃ earlier first rest, before ++ text = earlier ++ first :: rest ∧
      piece = ⟨(scan first rest).1, first :: rest.take (scan first rest).2⟩ ∧
      span = ⟨Text.byteLength earlier, Text.byteLength earlier + Text.byteLength piece.text⟩ := by
  induction text using pieces_induction generalizing before with
  | nil => cases member
  | cons first rest ih =>
      rw [pieces_cons, placed, List.mem_cons] at member
      rcases member with here | later
      · obtain ⟨rfl, rfl⟩ := Prod.mk.inj here
        exact ⟨before, first, rest, rfl, rfl, rfl⟩
      · rw [← Text.byteLength_append] at later
        obtain ⟨earlier, next, left, split, place⟩ := ih _ later
        rw [List.append_assoc, List.cons_append, List.take_append_drop] at split
        exact ⟨earlier, next, left, split, place⟩

/-- No beginning of a text that is longer matches a pattern. -/
def IsLongestMatch (matched text : List Char) : Prop :=
  ∀ longer, longer <+: text → IsLexeme longer → longer.length ≤ matched.length

/-- A token is the longest match where it stands, and alone it is read as it is in the text. -/
def PlacedToken.ReadsIn (text : List Char) (token : PlacedToken) : Prop :=
  ∃ written after, Text.slice? text token.span.start token.span.stop = some written ∧
    Text.dropBytes? token.span.start text = some (written ++ after) ∧
    written ∈ token.token.pattern ∧ IsLongestMatch written (written ++ after) ∧
    lex written = ⟨[⟨token.token, ⟨0, Text.byteLength written⟩⟩], []⟩

/--
A stray piece stands where no pattern matches, or it is the longest match and a literal
without a meaning.
-/
def Stray.StraysIn (text : List Char) (stray : Stray) : Prop :=
  ∃ after, Text.slice? text stray.span.start stray.span.stop = some stray.text ∧
    Text.dropBytes? stray.span.start text = some (stray.text ++ after) ∧
    ((∀ matched, matched <+: stray.text ++ after → ¬ IsLexeme matched) ∨
      Meaningless stray.text ∧ IsLongestMatch stray.text (stray.text ++ after))

/-- What is read of a text is the longest match at its start. -/
theorem isLongestMatch_scan (first : Char) (rest : List Char) :
    IsLongestMatch (first :: rest.take (scan first rest).2) (first :: rest) := by
  intro longer begins isLexeme
  have length := (covers_of_isLexeme isLexeme begins).length
  have atMost := begins.length_le
  simp only [List.length_cons, List.length_take] at length atMost ⊢
  omega

/-- Every token is read where it stands in the text. -/
theorem readsIn_of_mem_tokens {text : List Char} {token : PlacedToken}
    (member : token ∈ (lex text).tokens) : token.ReadsIn text := by
  obtain ⟨piece, stands, lexeme⟩ := exists_piece_of_mem_tokens member
  obtain ⟨earlier, first, rest, rfl, rfl, place⟩ := exists_scan_of_mem_placed [] stands
  obtain ⟨matched, again⟩ := scan_isolated first rest token.token lexeme
  refine ⟨_, rest.drop (scan first rest).2, slice?_of_mem_placed stands, ?_, matched, ?_, ?_⟩
  · rw [place, Text.dropBytes?_append, List.cons_append, List.take_append_drop]
  · rw [List.cons_append, List.take_append_drop]
    exact isLongestMatch_scan first rest
  · have whole : (rest.take (scan first rest).2).take (scan first rest).2 =
        rest.take (scan first rest).2 := by rw [List.take_take, Nat.min_self]
    have nothing : (rest.take (scan first rest).2).drop (scan first rest).2 = [] :=
      List.drop_eq_nil_of_le (List.length_take_le _ _)
    change (scan first rest).1 = .token token.token at lexeme
    rw [lex_eq_lexFrom, lexFrom_cons, again, whole, nothing, lexFrom_nil, Nat.zero_add, lexeme]
    rfl

/-- Every stray piece is a piece of the text. -/
theorem exists_piece_of_mem_strays {text : List Char} {stray : Stray}
    (member : stray ∈ (lex text).strays) :
    ∃ piece, (piece, stray.span) ∈ placed 0 (pieces text) ∧ piece.lexeme = .stray ∧
      piece.text = stray.text := by
  obtain ⟨⟨piece, span⟩, stands, kept⟩ := List.mem_filterMap.mp member
  cases lexeme : piece.lexeme with
  | stray =>
      simp only [lexeme, Option.some.injEq] at kept
      subst kept
      exact ⟨piece, stands, lexeme, rfl⟩
  | _ => simp [lexeme] at kept

/-- Every stray piece is stray where it stands in the text. -/
theorem straysIn_of_mem_strays {text : List Char} {stray : Stray}
    (member : stray ∈ (lex text).strays) : stray.StraysIn text := by
  obtain ⟨piece, stands, lexeme, written⟩ := exists_piece_of_mem_strays member
  obtain ⟨earlier, first, rest, rfl, rfl, place⟩ := exists_scan_of_mem_placed [] stands
  refine ⟨rest.drop (scan first rest).2, written ▸ slice?_of_mem_placed stands, ?_, ?_⟩
  · rw [place, Text.dropBytes?_append, ← written, List.cons_append, List.take_append_drop]
  rw [← written, List.cons_append, List.take_append_drop]
  by_cases begun : ∃ matched, matched <+: first :: rest ∧ IsLexeme matched
  · obtain ⟨matched, begins, isLexeme⟩ := begun
    exact .inr ⟨(covers_of_isLexeme isLexeme begins).meaningless lexeme,
      isLongestMatch_scan first rest⟩
  · exact .inl fun matched begins isLexeme => begun ⟨matched, begins, isLexeme⟩

/-! ## The division of a text -/

/--
Tokens and stray pieces divide a text if they are those that are read from it, each in its
order, if their spans follow each other, and if the gaps between them are passed over.
-/
structure Division (text : List Char) (marks : List Mark) : Prop where
  tokens : marks.filterMap Mark.token? = (lex text).tokens
  strays : marks.filterMap Mark.stray? = (lex text).strays
  within : ∀ mark ∈ marks, mark.span.start < mark.span.stop ∧ mark.span.Within text
  disjoint : marks.Pairwise fun mark later => mark.span.stop ≤ later.span.start
  skipped : ∀ gap ∈ gaps 0 (Text.byteLength text) (marks.map Mark.span), gap.IsSkipped text
  covered : ∀ offset < Text.byteLength text,
    (marks.map Mark.span ++ gaps 0 (Text.byteLength text) (marks.map Mark.span)).countP
      (Span.holds offset) = 1

/-- Every mark is that of a piece of the text. -/
theorem Mark.exists_of_mem_marksFrom {text : List Char} {mark : Mark}
    (member : mark ∈ marksFrom 0 text) :
    ∃ piece, (piece, mark.span) ∈ placed 0 (pieces text) := by
  obtain ⟨⟨piece, span⟩, stands, made⟩ := List.mem_filterMap.mp member
  exact ⟨piece, span_of_ofPiece made ▸ stands⟩

/-- The marks of a text divide it. -/
theorem division_marksFrom (text : List Char) : Division text (marksFrom 0 text) := by
  have ordered := inOrder_marksFrom 0 text
  rw [Nat.zero_add] at ordered
  have skipped := isSkipped_of_mem_gaps [] text
  rw [Text.byteLength_nil, Nat.zero_add] at skipped
  refine ⟨tokens_eq_filterMap 0 text, strays_eq_filterMap 0 text, ?_,
    List.pairwise_map.mp ordered.pairwise, skipped, ?_⟩
  · intro mark member
    obtain ⟨piece, stands⟩ := Mark.exists_of_mem_marksFrom member
    obtain ⟨earlier, first, rest, split, rfl, place⟩ := exists_scan_of_mem_placed [] stands
    rw [List.nil_append] at split
    refine ⟨(ordered.bounds.2 _ (List.mem_map_of_mem member)).2.1, ?_⟩
    have within := Span.within_append earlier (first :: rest.take (scan first rest).2)
      (rest.drop (scan first rest).2)
    rw [List.cons_append, List.take_append_drop, ← split] at within
    exact place ▸ within
  · intro offset inside
    rw [ordered.countP_eq offset, if_pos ⟨Nat.zero_le _, inside⟩]

/-- Every token has a span within the text, which is not empty. -/
theorem tokens_within {text : List Char} {token : PlacedToken}
    (member : token ∈ (lex text).tokens) :
    token.span.start < token.span.stop ∧ token.span.Within text := by
  have division := division_marksFrom text
  rw [← division.tokens] at member
  obtain ⟨mark, isMark, isToken⟩ := List.mem_filterMap.mp member
  cases mark with
  | token placed => exact Option.some.inj isToken ▸ division.within _ isMark
  | stray piece => cases isToken

/-- Every stray piece has a span within the text, which is not empty. -/
theorem strays_within {text : List Char} {stray : Stray} (member : stray ∈ (lex text).strays) :
    stray.span.start < stray.span.stop ∧ stray.span.Within text := by
  have division := division_marksFrom text
  rw [← division.strays] at member
  obtain ⟨mark, isMark, isStray⟩ := List.mem_filterMap.mp member
  cases mark with
  | token placed => cases isStray
  | stray piece => exact Option.some.inj isStray ▸ division.within _ isMark

/-- Every token ends before the next begins, whether there are stray pieces or not. -/
theorem pairwise_tokens (text : List Char) :
    (lex text).tokens.Pairwise fun token later => token.span.stop ≤ later.span.start := by
  have division := division_marksFrom text
  rw [← division.tokens, List.pairwise_filterMap]
  refine division.disjoint.imp fun {mark later} ordered => ?_
  cases mark <;> cases later <;> simp_all [Mark.token?, Mark.span]

/-- Of two stray pieces, the first ends before the second begins. -/
theorem pairwise_strays (text : List Char) :
    (lex text).strays.Pairwise fun stray later => stray.span.stop ≤ later.span.start := by
  have division := division_marksFrom text
  rw [← division.strays, List.pairwise_filterMap]
  refine division.disjoint.imp fun {mark later} ordered => ?_
  cases mark <;> cases later <;> simp_all [Mark.stray?, Mark.span]

/--
Every text is divided into its tokens, its stray pieces, and the blanks and comments between
them.  Tokens and stray pieces are listed in the order of the text.  Every token is the
longest match where it begins and is read alone as the same token; every stray piece begins
where nothing matches, or is a longest match that means nothing.
-/
theorem lex_divides (text : List Char) :
    (∃ marks, Division text marks) ∧
      (lex text).tokens.Pairwise (fun token later => token.span.start < later.span.start) ∧
      (lex text).strays.Pairwise (fun stray later => stray.span.start < later.span.start) ∧
      (∀ token ∈ (lex text).tokens, token.ReadsIn text) ∧
      ∀ stray ∈ (lex text).strays, stray.StraysIn text := by
  refine ⟨⟨_, division_marksFrom text⟩, ?_, ?_, fun _ => readsIn_of_mem_tokens,
    fun _ => straysIn_of_mem_strays⟩
  · exact (pairwise_tokens text).imp_of_mem fun member _ ordered =>
      (tokens_within member).1.trans_le ordered
  · exact (pairwise_strays text).imp_of_mem fun member _ ordered =>
      (strays_within member).1.trans_le ordered

end Flowgraph
