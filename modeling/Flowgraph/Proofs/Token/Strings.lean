import Flowgraph.Proofs.Token.Division
import Flowgraph.Proofs.Token.Words

/-!
# Strings between quotes

Every text can be written between quotes: a quote and a backslash after a backslash, a line
feed and a tab as they are or as a backslash and a letter, and any other character as it is.
Such a literal ends where it is meant to end, whatever comes then, and is read as the text
(`strings_expressible`).  No string is written in another way.

Two definitions meet here.  The pattern of strings decides where a literal ends, and takes
any character but a line feed along after a backslash; what a literal means is decided later,
and only some of these characters have a meaning (`spells_of_unescape`).
-/

namespace Flowgraph.StringLiteral

open Pattern Text

/-- The ways to write a character between quotes. -/
def spellings (c : Char) : List (List Char) :=
  if c = '"' then [['\\', '"']]
  else if c = '\\' then [['\\', '\\']]
  else if c = '\n' then [['\n'], ['\\', 'n']]
  else if c = '\t' then [['\t'], ['\\', 't']]
  else [[c]]

/-- What stands between quotes spells a text: its characters one after the other. -/
inductive Spells : List Char → List Char → Prop where
  | nil : Spells [] []
  | cons {c : Char} {spelling body value : List Char} (isSpelled : spelling ∈ spellings c)
      (spells : Spells body value) : Spells (spelling ++ body) (c :: value)

/-- A literal: what stands between quotes, and the quotes. -/
def literal (body : List Char) : List Char :=
  '"' :: (body ++ ['"'])

variable {c : Char} {body value : List Char}

theorem spellings_ne_nil (c : Char) : spellings c ≠ [] := by
  rw [spellings]
  split_ifs <;> exact List.cons_ne_nil _ _

/-- A character is written as it is, or as a backslash and a character that means it. -/
theorem mem_spellings_iff {spelling : List Char} :
    spelling ∈ spellings c ↔ (spelling = [c] ∧ c ≠ '"' ∧ c ≠ '\\') ∨
      ∃ escaped, spelling = ['\\', escaped] ∧ escapeMeaning escaped = some c := by
  have known : (∃ escaped, spelling = ['\\', escaped] ∧ escapeMeaning escaped = some c) ↔
      (spelling, c) ∈ [(['\\', '"'], '"'), (['\\', '\\'], '\\'), (['\\', 'n'], '\n'),
        (['\\', 't'], '\t')] := by
    simp only [escapeMeaning]
    grind
  rw [known, spellings]
  grind

theorem exists_spells (value : List Char) : ∃ body, Spells body value := by
  induction value with
  | nil => exact ⟨[], .nil⟩
  | cons c rest ih =>
      obtain ⟨body, spells⟩ := ih
      obtain ⟨spelling, isSpelled⟩ := List.exists_mem_of_ne_nil _ (spellings_ne_nil c)
      exact ⟨spelling ++ body, .cons isSpelled spells⟩

/-! ## The pattern and the meaning -/

/-- A plain character means itself. -/
theorem unescape_cons (noEscape : c ≠ '\\') (rest : List Char) :
    unescape (c :: rest) = (unescape rest).map (c :: ·) := by
  rw [unescape]
  · intro escape
    exact absurd escape noEscape
  · intro _ _ escape
    exact absurd escape noEscape

/-- What spells a text matches the pattern, so that no quote in it is taken for its end. -/
theorem Spells.mem_stringBody (spells : Spells body value) : body ∈ stringBody := by
  induction spells with
  | nil => exact nil_mem_stringBody
  | cons isSpelled spells ih =>
      rcases mem_spellings_iff.mp isSpelled with ⟨rfl, noQuote, noEscape⟩ | ⟨escaped, rfl, means⟩
      · exact plain_mem_stringBody noQuote noEscape ih
      · refine escape_mem_stringBody ?_ ih
        rintro rfl
        cases means

theorem Spells.unescape (spells : Spells body value) : unescape body = some value := by
  induction spells with
  | nil => rfl
  | cons isSpelled spells ih =>
      rcases mem_spellings_iff.mp isSpelled with ⟨rfl, noQuote, noEscape⟩ | ⟨escaped, rfl, means⟩
      · rw [List.singleton_append, unescape_cons noEscape, ih, Option.map_some]
      · rw [List.cons_append, List.singleton_append, Flowgraph.unescape, means, ih]
        rfl

/-- What matches the pattern spells the text that it means. -/
theorem spells_of_unescape (isBody : body ∈ stringBody) (means : unescape body = some value) :
    Spells body value := by
  induction isBody using stringBody_induction generalizing value with
  | nil =>
      obtain rfl := Option.some.inj means
      exact .nil
  | plain c rest noQuote noEscape isRest ih =>
      rw [unescape_cons noEscape] at means
      obtain ⟨later, meansLater, rfl⟩ := Option.map_eq_some_iff.mp means
      exact .cons (mem_spellings_iff.mpr (.inl ⟨rfl, noQuote, noEscape⟩)) (ih meansLater)
  | escape escaped rest line isRest ih =>
      rw [unescape, Option.bind_eq_some_iff] at means
      obtain ⟨c, meansFirst, others⟩ := means
      obtain ⟨later, meansLater, rfl⟩ := Option.map_eq_some_iff.mp others
      exact .cons (mem_spellings_iff.mpr (.inr ⟨escaped, rfl, meansFirst⟩)) (ih meansLater)

/-! ## Reading literals -/

/-- Before a text a literal is read as the string that it spells, and then the text is read. -/
theorem Spells.readsBefore {text : String} (spells : Spells body text.toList) (after : List Char) :
    ReadsBefore after (literal body) (.string text) := by
  have scanned : scan '"' (body ++ ['"'] ++ after) = scanString (body ++ '"' :: after) := by
    rw [List.append_assoc]
    rfl
  refine readsBefore_of_scan ?_
  rw [scanned, scanString_of_body spells.mem_stringBody, spells.unescape, List.length_append,
    List.length_singleton]
  dsimp only
  rw [String.ofList_toList]

/-- A literal is read as a string exactly if it spells it. -/
theorem lex_literal_iff {text : String} :
    lex (literal body) = ⟨[⟨.string text, ⟨0, byteLength (literal body)⟩⟩], []⟩ ↔
      Spells body text.toList := by
  constructor
  · intro read
    have member : ⟨.string text, ⟨0, byteLength (literal body)⟩⟩ ∈ (lex (literal body)).tokens := by
      rw [read]
      exact List.mem_singleton_self _
    obtain ⟨written, after, slice, -, matched, -⟩ := readsIn_of_mem_tokens member
    have whole : slice? (literal body) 0 (byteLength (literal body)) = some (literal body) := by
      simpa using slice?_append [] (literal body) []
    obtain rfl := Option.some.inj (whole.symm.trans slice)
    obtain ⟨inner, isBody, same⟩ := mem_string_iff.mp matched
    obtain rfl : body = inner := List.append_cancel_right (List.cons.inj same).2
    have scanned : scan '"' (body ++ ['"']) = scanString (body ++ '"' :: []) := rfl
    rw [lex_eq_lexFrom, literal, lexFrom_cons, scanned, scanString_of_body isBody] at read
    cases means : unescape body with
    | none =>
        rw [means] at read
        have strays := congrArg Lexing.strays read
        simp [Lexing.ofPiece] at strays
    | some value =>
        rw [means] at read
        have tokens := congrArg Lexing.tokens read
        rw [Lexing.tokens_append] at tokens
        have token := congrArg PlacedToken.token (List.cons.inj tokens).1
        rw [← Token.string.inj token, String.toList_ofList]
        exact spells_of_unescape isBody means
  · intro spells
    have read := spells.readsBefore [] 0
    rwa [List.append_nil, lexFrom_nil, Nat.zero_add] at read

/-- Where a string is read, a literal stands that spells it. -/
theorem exists_spells_of_mem_tokens {characters : List Char} {text : String} {span : Span}
    (member : ⟨.string text, span⟩ ∈ (lex characters).tokens) :
    ∃ body, Spells body text.toList ∧
      slice? characters span.start span.stop = some (literal body) := by
  obtain ⟨written, after, slice, -, matched, -, again⟩ := readsIn_of_mem_tokens member
  obtain ⟨body, -, rfl⟩ := mem_string_iff.mp matched
  exact ⟨body, lex_literal_iff.mp again, slice⟩

/-! ## Main result -/

/--
Every text is the value of a literal.  In whatever way its characters are written between the
quotes, the literal is the first token and ends at its own last quote, whatever follows it;
alone it is the only token.  Wherever a text is read as a string there is such a literal, and
each of the literals that spell the text is read as the same string again.
-/
theorem strings_expressible (text : String) :
    (∃ body, Spells body text.toList) ∧
      (∀ body, Spells body text.toList → ∀ rest,
        lex (literal body ++ rest) =
          ⟨[⟨.string text, ⟨0, byteLength (literal body)⟩⟩], []⟩ ++
            lexFrom (byteLength (literal body)) rest) ∧
      (∀ body, lex (literal body) = ⟨[⟨.string text, ⟨0, byteLength (literal body)⟩⟩], []⟩ ↔
        Spells body text.toList) ∧
      ∀ characters span, ⟨.string text, span⟩ ∈ (lex characters).tokens →
        ∃ body, Spells body text.toList ∧
          slice? characters span.start span.stop = some (literal body) := by
  refine ⟨exists_spells text.toList, ?_, fun _ => lex_literal_iff, ?_⟩
  · intro body spells rest
    have read := spells.readsBefore rest 0
    rwa [Nat.zero_add] at read
  · exact fun _ _ => exists_spells_of_mem_tokens

/-- A backslash before the last quote, a quote and a line feed, and a quote that opens nothing. -/
theorem strings_expressible_backslashLast :
    Spells "\\\"\\n\n\\\\".toList "\"\n\n\\".toList ∧
      (lex (literal "\\\"\\n\n\\\\".toList ++ "\" ~".toList)).tokens.head? =
        some ⟨.string "\"\n\n\\", ⟨0, 9⟩⟩ := by
  have spells : Spells "\\\"\\n\n\\\\".toList "\"\n\n\\".toList := by
    have spelled : ∀ spelling c, spelling ∈ spellings c → ∀ body value, Spells body value →
        Spells (spelling ++ body) (c :: value) := fun _ _ isSpelled _ _ => .cons isSpelled
    exact spelled ['\\', '"'] '"' (by decide) _ _ <| spelled ['\\', 'n'] '\n' (by decide) _ _ <|
      spelled ['\n'] '\n' (by decide) _ _ <| spelled ['\\', '\\'] '\\' (by decide) _ _ .nil
  refine ⟨spells, ?_⟩
  rw [(strings_expressible "\"\n\n\\").2.1 _ spells]
  rfl

end Flowgraph.StringLiteral
