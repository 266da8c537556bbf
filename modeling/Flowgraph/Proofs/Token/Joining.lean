import Flowgraph.Proofs.Program.Relocation
import Flowgraph.Proofs.Token.Lexing

/-!
# Texts that are put together

Two texts are put together with a semicolon on a line of its own between them.  No token
and no comment goes on after the end of a line, so the first text is cut into pieces as it
is alone (`lexFrom_append_newline`), unless a stray character or a literal that is not
closed stands in it.  The tokens of the second text are the same as when it stands alone,
only later.
-/

namespace Flowgraph

/-! ## Where a line ends -/

section Newline

variable {rest : List Char} (more : List Char)

/-- What a line feed stops is the same whether the line goes on after it or not. -/
theorem takeWhile_append_newline {holds : Char → Bool} (stops : holds '\n' = false) :
    (rest ++ '\n' :: more).takeWhile holds = rest.takeWhile holds := by
  induction rest with
  | nil => simp [stops]
  | cons c later ih =>
      rw [List.cons_append, List.takeWhile_cons, List.takeWhile_cons, ih]

/-- More text comes behind what is left. -/
theorem drop_takeWhile_append {holds : Char → Bool} :
    (rest ++ more).drop (rest.takeWhile holds).length =
      rest.drop (rest.takeWhile holds).length ++ more :=
  List.drop_append_of_le_length (List.takeWhile_prefix holds).length_le

theorem head?_append_newline {c : Char} (visible : c ≠ '\n') :
    (rest ++ '\n' :: more).head? = some c ↔ rest.head? = some c := by
  cases rest with
  | nil => simpa using visible.symm
  | cons first later => simp

/-- A number does not go on past a line feed. -/
theorem numberExtent_append_newline :
    numberExtent (rest ++ '\n' :: more) = numberExtent rest := by
  have noDigit : Char.isDigit '\n' = false := by decide
  rw [numberExtent, numberExtent, takeWhile_append_newline more noDigit, drop_takeWhile_append]
  cases rest.drop (rest.takeWhile Char.isDigit).length with
  | nil => rfl
  | cons point places =>
      by_cases dot : point = '.'
      · subst dot
        simp only [List.cons_append, takeWhile_append_newline more noDigit]
      · simp [dot]

theorem numberExtent_le (rest : List Char) : numberExtent rest ≤ rest.length := by
  have whole := (List.takeWhile_prefix Char.isDigit (l := rest)).length_le
  rw [numberExtent]
  cases split : rest.drop (rest.takeWhile Char.isDigit).length with
  | nil => exact whole
  | cons point places =>
      have length := congrArg List.length split
      have digits := (List.takeWhile_prefix Char.isDigit (l := places)).length_le
      rw [List.length_drop, List.length_cons] at length
      by_cases dot : point = '.'
      · subst dot
        simp only
        split_ifs <;> omega
      · simpa [dot] using whole

/-- A plain character makes a string one character longer. -/
theorem stringExtent_cons {c : Char} (noEscape : c ≠ '\\') (noQuote : c ≠ '"') (rest : List Char) :
    stringExtent (c :: rest) = ((stringExtent rest).1 + 1, (stringExtent rest).2) := by
  rw [stringExtent]
  · simp [noQuote]
  · intro escape; exact absurd escape noEscape
  · intro _ _ escape; exact absurd escape noEscape

/-- A string that is closed does not depend on what follows. -/
theorem stringExtent_append {count : Nat} (closed : stringExtent rest = (count, true)) :
    stringExtent (rest ++ more) = (count, true) ∧ count ≤ rest.length := by
  fun_induction stringExtent rest generalizing count with
  | case1 | case2 | case3 => cases closed
  | case4 escaped later visible inner isClosed found ih =>
      obtain ⟨rfl, rfl⟩ := Prod.mk.inj closed
      obtain ⟨same, atMost⟩ := ih found
      constructor
      · simp [stringExtent, visible, same]
      · simpa using atMost
  | case5 later =>
      obtain ⟨rfl, -⟩ := Prod.mk.inj closed
      simp [stringExtent]
  | case6 c later noEnd noEscape noQuote inner isClosed found ih =>
      obtain ⟨rfl, rfl⟩ := Prod.mk.inj closed
      obtain ⟨same, atMost⟩ := ih found
      have plain : c ≠ '\\' := by
        rintro rfl
        cases later with
        | nil => exact noEnd rfl rfl
        | cons escaped later => exact noEscape escaped later rfl rfl
      constructor
      · rw [List.cons_append, stringExtent_cons plain noQuote, same]
      · simpa using atMost

/-- What is read of a line is the same before a line end, and no more than the line. -/
def EndsInLine (scanner : List Char → Lexeme × Nat) (rest : List Char) : Prop :=
  (∀ more, scanner (rest ++ '\n' :: more) = scanner rest) ∧ (scanner rest).2 ≤ rest.length

omit more

/-- A number ends in its line. -/
theorem scanNumber_endsInLine (first : Char) (rest : List Char) :
    EndsInLine (scanNumber first) rest := by
  have atMost := numberExtent_le rest
  constructor
  · intro more
    simp only [scanNumber, numberExtent_append_newline, List.take_append_of_le_length atMost]
  · simp only [scanNumber]
    cases Number.Binary64.read (first :: rest.take (numberExtent rest)) <;> exact atMost

/-- A sign ends in its line. -/
theorem scanSign_endsInLine (alone withEquals : Lexeme) (rest : List Char) :
    EndsInLine (fun rest => scanSign rest alone withEquals) rest := by
  constructor
  · intro more
    simp only [scanSign, head?_append_newline more (c := '=') (by decide)]
  · simp only [scanSign]
    split_ifs with equals
    · obtain ⟨later, rfl⟩ := List.head?_eq_some_iff.mp equals
      simp
    · simp

/-- A moment ends in its line. -/
theorem scanMoment_endsInLine (rest : List Char) : EndsInLine scanMoment rest := by
  constructor
  · intro more
    simp only [scanMoment]
    rw [takeWhile_append_newline more (by decide), drop_takeWhile_append]
    simp only [head?_append_newline more (c := ':') (by decide)]
  · have inner := (List.takeWhile_prefix (fun c => c != ':' && c != '\n') (l := rest)).length_le
    have beyond : (rest.drop (rest.takeWhile fun c => c != ':' && c != '\n').length).head? =
        some ':' → (rest.takeWhile fun c => c != ':' && c != '\n').length < rest.length := by
      intro closing
      obtain ⟨later, split⟩ := List.head?_eq_some_iff.mp closing
      have length := congrArg List.length split
      rw [List.length_drop, List.length_cons] at length
      omega
    simp only [scanMoment]
    split_ifs with closed blank
    · exact beyond closed.2
    · exact beyond closed.2
    · exact inner

/-- A string that is closed ends in its line. -/
theorem scanString_endsInLine {rest : List Char} (known : (scanString rest).1 ≠ .stray) :
    EndsInLine scanString rest := by
  obtain ⟨count, closed, extent⟩ : ∃ count closed, stringExtent rest = (count, closed) :=
    ⟨_, _, rfl⟩
  cases closed with
  | false => simp [scanString, extent] at known
  | true =>
      have atMost := (stringExtent_append [] extent).2
      constructor
      · intro more
        have taken : (rest ++ '\n' :: more).take (count - 1) = rest.take (count - 1) :=
          List.take_append_of_le_length ((Nat.sub_le _ _).trans atMost)
        simp only [scanString, extent, (stringExtent_append ('\n' :: more) extent).1, taken]
      · simp only [scanString, extent, if_true]
        cases unescape (rest.take (count - 1)) <;> exact atMost

/-- A name ends in its line. -/
theorem scanName_endsInLine (lexeme : List Char → Lexeme) (rest : List Char) :
    EndsInLine
      (fun rest => (lexeme (rest.takeWhile isNamePart), (rest.takeWhile isNamePart).length))
      rest := by
  constructor
  · intro more
    simp only [takeWhile_append_newline more (show isNamePart '\n' = false by decide)]
  · exact (List.takeWhile_prefix isNamePart).length_le

/-- A comment or a token ends in the line in which it begins. -/
theorem scan_endsInLine {first : Char} (noLayout : isLayout first = false) {rest : List Char}
    (known : (scan first rest).1 ≠ .stray) : EndsInLine (scan first) rest := by
  change EndsInLine (fun rest => scan first rest) rest
  simp only [scan, noLayout, Bool.false_eq_true, if_false] at known ⊢
  split_ifs at known ⊢ with name digit
  · exact scanName_endsInLine
      (fun more => .token (.identifier (String.ofList (first :: more)))) rest
  · exact scanNumber_endsInLine first rest
  · split at known
    case h_6 | h_7 | h_8 | h_9 => exact scanSign_endsInLine _ _ rest
    case h_10 => exact scanString_endsInLine known
    case h_11 => exact scanMoment_endsInLine rest
    case h_12 =>
      split at known
      case h_1 comment =>
        have line : ∀ more, (comment ++ '\n' :: more).takeWhile (· != '\n') =
            comment.takeWhile (· != '\n') :=
          fun more => takeWhile_append_newline more (by decide)
        have length := (List.takeWhile_prefix (· != '\n') (l := comment)).length_le
        constructor
        · intro more
          simp only [List.cons_append, line]
        · simp only [List.length_cons]
          omega
      case h_2 => exact absurd rfl known
    case h_13 =>
      split at known
      case h_1 next later =>
        split_ifs at known with name digit
        · have option := scanName_endsInLine
            (fun name => .token (.optionName (String.ofList name))) (next :: later)
          constructor
          · intro more
            simpa only [List.cons_append, name, if_true] using option.1 more
          · simpa only [name, if_true] using option.2
        · have number := scanNumber_endsInLine '-' (next :: later)
          constructor
          · intro more
            simpa only [List.cons_append, name, digit, Bool.false_eq_true, if_true, if_false]
              using number.1 more
          · simpa only [name, digit, Bool.false_eq_true, if_true, if_false] using number.2
        · exact absurd rfl known
      case h_2 => exact absurd rfl known
    case h_14 => exact absurd rfl known
    all_goals exact ⟨fun _ => rfl, Nat.zero_le _⟩

end Newline

/-! ## Reading on after a line end -/

/-- A run of blanks is read as nothing. -/
theorem lexFrom_run {c : Char} (layout : isLayout c) (offset : Nat) (rest : List Char) :
    lexFrom offset (c :: rest) =
      lexFrom (offset + Text.byteLength (c :: rest.takeWhile isLayout))
        (rest.dropWhile isLayout) := by
  rw [lexFrom_cons, scan_of_isLayout layout, take_takeWhile, drop_takeWhile]
  rfl

/-- A blank only moves on what follows it. -/
theorem lexFrom_cons_of_isLayout {c : Char} (layout : isLayout c) (offset : Nat)
    (rest : List Char) : lexFrom offset (c :: rest) = lexFrom (offset + c.utf8Size) rest := by
  rw [lexFrom_run layout]
  cases rest with
  | nil => rfl
  | cons next later =>
      by_cases goesOn : isLayout next = true
      · rw [lexFrom_run goesOn, List.takeWhile_cons, List.dropWhile_cons, if_pos goesOn,
          if_pos goesOn, Text.byteLength_cons c, Nat.add_assoc]
      · rw [List.takeWhile_cons, List.dropWhile_cons, if_neg goesOn, if_neg goesOn]
        rfl

/-- Blanks are skipped before a text, and only move it. -/
theorem lexFrom_append_of_isLayout {blanks : List Char} (layout : ∀ c ∈ blanks, isLayout c = true)
    (offset : Nat) (rest : List Char) :
    lexFrom offset (blanks ++ rest) = lexFrom (offset + Text.byteLength blanks) rest := by
  induction blanks generalizing offset with
  | nil => rfl
  | cons c later ih =>
      rw [List.cons_append, lexFrom_cons_of_isLayout (layout c (List.mem_cons_self ..)),
        ih fun c member => layout c (List.mem_cons_of_mem _ member), Text.byteLength_cons,
        Nat.add_assoc]

/-- A text without stray characters is read before a line end as it is alone. -/
theorem lexFrom_append_newline {offset : Nat} {text : List Char}
    (clean : (lexFrom offset text).strays = []) (more : List Char) :
    lexFrom offset (text ++ '\n' :: more) =
      lexFrom offset text ++ lexFrom (offset + Text.byteLength text) ('\n' :: more) := by
  induction text using pieces_induction generalizing offset with
  | nil => rfl
  | cons first rest ih =>
      obtain ⟨known, cleanRest⟩ := strays_lexFrom_cons clean
      have length := (byteLength_piece first rest (scan first rest).2).2
      have later := ih cleanRest
      rw [Nat.add_assoc, length] at later
      rw [lexFrom_cons offset first rest, Lexing.append_assoc, ← later]
      by_cases layout : isLayout first = true
      · have run : ∀ c ∈ first :: rest.takeWhile isLayout, isLayout c = true := by
          intro c member
          rcases List.mem_cons.mp member with rfl | inRun
          · exact layout
          · exact List.mem_takeWhile_imp inRun
        rw [scan_of_isLayout layout, take_takeWhile, drop_takeWhile]
        conv_lhs => rw [← List.takeWhile_append_dropWhile (p := isLayout) (l := rest)]
        rw [← List.cons_append, List.append_assoc, lexFrom_append_of_isLayout run]
        rfl
      · obtain ⟨same, atMost⟩ := scan_endsInLine (by simpa using layout) known
        rw [List.cons_append, lexFrom_cons, same more, List.take_append_of_le_length atMost,
          List.drop_append_of_le_length atMost]

/-- Where the offsets of a text go if other text is put before it. -/
def Relocation.later (number : Nat) : Relocation :=
  ⟨(· + number), (· + number), (· + number)⟩

/-- A text is read at a later offset as it is at the beginning, only later. -/
theorem lexFrom_add (offset number : Nat) (text : List Char) :
    (lexFrom (offset + number) text).tokens =
        (lexFrom offset text).tokens.map
          (PlacedToken.relocate (.later number)) ∧
      ((lexFrom (offset + number) text).strays = [] ↔ (lexFrom offset text).strays = []) := by
  induction text using pieces_induction generalizing offset with
  | nil => simp [lexFrom_nil]
  | cons first rest ih =>
      have later := ih (offset + Text.byteLength (first :: rest.take (scan first rest).2))
      rw [lexFrom_cons, lexFrom_cons offset, Nat.add_right_comm, Lexing.tokens_append,
        Lexing.tokens_append, Lexing.strays_append, Lexing.strays_append, later.1,
        List.map_append, List.append_eq_nil_iff, List.append_eq_nil_iff, later.2]
      cases (scan first rest).1 <;>
        simp [Lexing.ofPiece, PlacedToken.relocate, Span.relocate, Relocation.later,
          Nat.add_right_comm]

/-! ## Texts with a semicolon between them -/

/-- Two texts with a semicolon on a line of its own between them. -/
def joined (first second : List Char) : List Char :=
  first ++ '\n' :: ';' :: '\n' :: second

/-- What is put before the second text. -/
theorem joined_eq_append (first second : List Char) :
    joined first second = (first ++ ['\n', ';', '\n']) ++ second := by
  simp [joined]

theorem byteLength_seam (first : List Char) :
    Text.byteLength (first ++ ['\n', ';', '\n']) = Text.byteLength first + 3 := by
  rw [Text.byteLength_append]
  rfl

/-- Joined texts have the tokens of the first, the semicolon, and those of the second. -/
theorem lex_joined {first : List Char} (clean : (lex first).strays = []) (second : List Char) :
    (lex (joined first second)).tokens =
        (lex first).tokens ++
          ⟨.semicolon, ⟨Text.byteLength first + 1, Text.byteLength first + 2⟩⟩ ::
            (lex second).tokens.map
              (PlacedToken.relocate (.later (Text.byteLength first + 3))) ∧
      ((lex (joined first second)).strays = [] ↔ (lex second).strays = []) := by
  have newline : isLayout '\n' = true := by decide
  have between : ∀ offset, lexFrom offset (';' :: '\n' :: second) =
      ⟨[⟨.semicolon, ⟨offset, offset + 1⟩⟩], []⟩ ++ lexFrom (offset + 2) second := by
    intro offset
    have semicolon : scan ';' ('\n' :: second) = (.token .semicolon, 0) := rfl
    rw [lexFrom_cons, semicolon, List.drop_zero, lexFrom_cons_of_isLayout newline]
    rfl
  have whole : lex (joined first second) = lex first ++
      (⟨[⟨.semicolon, ⟨Text.byteLength first + 1, Text.byteLength first + 2⟩⟩], []⟩ ++
        lexFrom (0 + (Text.byteLength first + 3)) second) := by
    rw [lex_eq_lexFrom, joined, lexFrom_append_newline clean, lexFrom_cons_of_isLayout newline,
      between, Nat.zero_add, Nat.zero_add]
    rfl
  obtain ⟨tokens, strays⟩ := lexFrom_add 0 (Text.byteLength first + 3) second
  rw [whole]
  constructor
  · rw [Lexing.tokens_append, Lexing.tokens_append, tokens]
    rfl
  · rw [Lexing.strays_append, Lexing.strays_append, clean]
    exact strays

end Flowgraph
