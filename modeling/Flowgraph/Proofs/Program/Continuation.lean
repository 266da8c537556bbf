import Flowgraph.Compile.Run
import Flowgraph.Proofs.Program.Relocation

/-!
# What may come next

Tokens are viable if a program begins with them.  Every draft can be completed: a name
ends where a term or a stage begins, and parentheses close what is open
(`Draft.exists_accepts`).  So the tokens read so far are viable, and one more token leaves
them so exactly if it can be read (`viable_concat_iff`).

An error therefore stands at the first token after which the text cannot be completed any
more, and what it lists is neither more nor less than what could have stood there.
-/

namespace Flowgraph

/-! ## Viable tokens -/

/-- Tokens that have a derivation, wherever they stand in a text. -/
def IsProgram (tokens : List Token) : Prop :=
  ∃ tree : ProgramTree, tree.tokens.map PlacedToken.token = tokens

/-- Tokens that a program begins with. -/
def Viable (tokens : List Token) : Prop :=
  ∃ rest, IsProgram (tokens ++ rest)

variable {reach : Nat → Nat}

/-- Tokens without their places. -/
theorem map_relocate_forget (tokens : List PlacedToken) :
    tokens.map (PlacedToken.relocate .forget) =
      (tokens.map PlacedToken.token).map fun token => ⟨token, .empty 0⟩ := by
  rw [List.map_map]
  rfl

/-- Where the tokens stand does not decide whether they are accepted. -/
theorem accepts_forget_iff (tokens : List PlacedToken) :
    Draft.initial.Accepts (fun _ => 0) (tokens.map (PlacedToken.relocate .forget)) ↔
      Draft.initial.Accepts reach tokens := by
  rw [Draft.Accepts, Draft.Accepts, Draft.complete?_forget reach, Option.isSome_map]

/-- The tokens that are accepted from the start are the programs. -/
theorem accepts_iff_isProgram (reach : Nat → Nat) (tokens : List PlacedToken) :
    Draft.initial.Accepts reach tokens ↔ IsProgram (tokens.map PlacedToken.token) := by
  constructor
  · intro accepted
    obtain ⟨tree, rfl⟩ := exists_programTree accepted
    exact ⟨tree, rfl⟩
  · rintro ⟨tree, same⟩
    have derived : Draft.initial.Accepts reach tree.tokens := by
      rw [Draft.Accepts, tree.complete?_tokens]
      rfl
    rw [← accepts_forget_iff, map_relocate_forget] at derived ⊢
    rwa [← same]

/-- Tokens are viable exactly if they can be continued to what is accepted. -/
theorem viable_iff_exists_accepts (reach : Nat → Nat) (tokens : List PlacedToken) :
    Viable (tokens.map PlacedToken.token) ↔
      ∃ rest, Draft.initial.Accepts reach (tokens ++ rest) := by
  constructor
  · rintro ⟨rest, program⟩
    refine ⟨rest.map fun token => ⟨token, .empty 0⟩, (accepts_iff_isProgram reach _).mpr ?_⟩
    simpa [Function.comp_def] using program
  · rintro ⟨rest, accepted⟩
    refine ⟨rest.map PlacedToken.token, ?_⟩
    rw [← List.map_append]
    exact (accepts_iff_isProgram reach _).mp accepted

namespace Draft

/-! ## Every draft can be completed -/

/-- A draft whose flowgraph may end here can be completed. -/
theorem exists_accepts_of_finished {draft : Draft} (ends : (draft.finished? reach).isSome)
    (closes : draft.next? reach ⟨.closeParenthesis, .empty 0⟩ =
      draft.closeBlock? reach (.empty 0)) :
    ∃ rest, draft.Accepts reach rest := by
  obtain ⟨blocks, finished, phase, stop⟩ := draft
  induction blocks generalizing finished phase stop with
  | nil =>
      refine ⟨[], ?_⟩
      rw [Accepts, complete?_nil]
      simpa using ends
  | cons block outer ih =>
      obtain ⟨branches, finishedBlock⟩ := Option.isSome_iff_exists.mp ends
      obtain ⟨rest, accepted⟩ := ih block.finished (.blockEnd (block.finish branches 0)) 0 rfl rfl
      refine ⟨⟨.closeParenthesis, .empty 0⟩ :: rest, (accepts_cons ?_).mpr accepted⟩
      rw [closes, closeBlock?, finishedBlock]
      rfl

/-- A draft that has just read a term can be completed. -/
theorem exists_accepts_of_termEnd (blocks : List BlockDraft) (finished : List (Flow ProcCall))
    (stop : Nat) (item : ItemDraft) (calls : List CallDraft) (comparison : Option Comparand)
    (term : Expr) :
    ∃ rest, Accepts reach ⟨blocks, finished, .termEnd item calls comparison term, stop⟩ rest := by
  induction calls generalizing comparison term stop with
  | nil => exact exists_accepts_of_finished rfl rfl
  | cons call outer ih =>
      obtain ⟨rest, accepted⟩ := ih 0 call.comparison
        (.call call.name ([finishValue comparison term] ++ call.arguments).reverse
          (call.name.span.through (.empty 0)))
      exact ⟨⟨.closeParenthesis, .empty 0⟩ :: rest, (accepts_cons rfl).mpr accepted⟩

/-- Whatever has been read can be completed to a program. -/
theorem exists_accepts (reach : Nat → Nat) (draft : Draft) : ∃ rest, draft.Accepts reach rest := by
  obtain ⟨blocks, finished, phase, stop⟩ := draft
  have named : ∀ chain : ChainDraft, ∃ rest,
      Accepts reach ⟨blocks, finished, .itemStart chain ⟨⟨"", .empty 0⟩, [], []⟩, 0⟩ rest :=
    fun chain => exists_accepts_of_finished rfl rfl
  cases phase with
  | chainStart mayEnd =>
      obtain ⟨rest, accepted⟩ := named ⟨[], 0⟩
      exact ⟨⟨.identifier "", .empty 0⟩ :: rest, (accepts_cons rfl).mpr accepted⟩
  | stageStart chain =>
      obtain ⟨rest, accepted⟩ := named chain
      exact ⟨⟨.identifier "", .empty 0⟩ :: rest, (accepts_cons rfl).mpr accepted⟩
  | blockEnd chain => exact exists_accepts_of_finished rfl rfl
  | itemStart chain proc => exact exists_accepts_of_finished rfl rfl
  | termStart item calls comparison mayClose =>
      obtain ⟨rest, accepted⟩ :=
        exists_accepts_of_termEnd blocks finished 0 item calls comparison (.ident ⟨"", .empty 0⟩)
      exact ⟨⟨.identifier "", .empty 0⟩ :: rest, (accepts_cons rfl).mpr accepted⟩
  | termEnd item calls comparison term =>
      exact exists_accepts_of_termEnd blocks finished stop item calls comparison term

/-! ## Where reading stops -/

/-- Reading splits the tokens into those that lead to a draft and those after them. -/
theorem readOn_splits {draft final : Draft} {tokens unread : List PlacedToken}
    (read : draft.readOn reach tokens = (final, unread)) (opened : draft.Opened) :
    ∃ before, tokens = before ++ unread ∧ final.Opened ∧
      (∀ rest, draft.Accepts reach (before ++ rest) ↔ final.Accepts reach rest) ∧
      ∀ token ∈ unread.head?, final.next? reach token = none := by
  induction tokens generalizing draft with
  | nil =>
      obtain ⟨rfl, rfl⟩ := Prod.mk.inj read
      exact ⟨[], rfl, opened, fun _ => Iff.rfl, by simp⟩
  | cons token rest ih =>
      rw [readOn] at read
      cases next : draft.next? reach token with
      | none =>
          simp only [next] at read
          obtain ⟨rfl, rfl⟩ := Prod.mk.inj read
          exact ⟨[], rfl, opened, fun _ => Iff.rfl, by simp [next]⟩
      | some following =>
          simp only [next] at read
          obtain ⟨before, rfl, opened, accepts, refused⟩ := ih read (isAfter_of_next? next).opened
          refine ⟨token :: before, rfl, opened, fun later => ?_, refused⟩
          rw [List.cons_append, accepts_cons next, accepts]

end Draft

section Prefix

variable {final : Draft} {before : List PlacedToken}
  (accepts : ∀ rest, Draft.initial.Accepts reach (before ++ rest) ↔ final.Accepts reach rest)

include accepts

/-- The tokens before the place where reading stops are viable. -/
theorem viable_of_accepts : Viable (before.map PlacedToken.token) := by
  obtain ⟨rest, accepted⟩ := final.exists_accepts reach
  exact (viable_iff_exists_accepts reach before).mpr ⟨rest, (accepts rest).mpr accepted⟩

/-- Viable tokens remain so with one more token exactly if it can be read. -/
theorem viable_concat_iff (token : PlacedToken) :
    Viable (before.map PlacedToken.token ++ [token.token]) ↔
      (final.next? reach token).isSome := by
  have joined : before.map PlacedToken.token ++ [token.token] =
      (before ++ [token]).map PlacedToken.token := by simp
  rw [joined, viable_iff_exists_accepts reach]
  simp only [List.append_assoc, List.singleton_append, accepts]
  cases next : final.next? reach token with
  | none => simpa using fun rest => Draft.not_accepts_cons next
  | some following =>
      obtain ⟨rest, accepted⟩ := following.exists_accepts reach
      simpa using ⟨rest, (Draft.accepts_cons next).mpr accepted⟩

/-- The tokens that are read make a program if no block is open and the last flowgraph may end. -/
theorem isProgram_iff_finished :
    IsProgram (before.map PlacedToken.token) ↔
      final.blocks.isEmpty ∧ (final.finished? reach).isSome := by
  rw [← accepts_iff_isProgram reach, ← List.append_nil before, accepts, Draft.Accepts,
    Draft.complete?_nil]
  cases final.blocks.isEmpty <;> simp

end Prefix

/-! ## The list of an error -/

/-- How messages list a token. -/
def Token.expectation : Token → Expected
  | .bar => .bar
  | .semicolon => .semicolon
  | .openParenthesis => .openParenthesis
  | .closeParenthesis => .closeParenthesis
  | .comma => .comma
  | .identifier _ => .identifier
  | .comparison _ | .optionName _ | .number _ | .string _ | .moment _ => .other

namespace Draft

variable {draft : Draft}

theorem isSome_finished? (ends : (draft.chain? reach).isSome) : (draft.finished? reach).isSome := by
  obtain ⟨blocks, finished, phase, stop⟩ := draft
  cases phase with
  | chainStart mayEnd => cases ends
  | _ => simpa [finished?] using ends

/-- A block is closed exactly by the sign that is awaited for it. -/
theorem isSome_closeBlock?_iff (ends : (draft.finished? reach).isSome) (span : Span) :
    (draft.closeBlock? reach span).isSome ↔ .closeParenthesis = draft.closing := by
  obtain ⟨blocks, finished, phase, stop⟩ := draft
  cases blocks with
  | nil => simp [closeBlock?, closing]
  | cons block outer => simpa [closeBlock?, closing] using ends

/-- A stage begins with a name or with a parenthesis. -/
theorem isSome_beginStage?_iff (chain : ChainDraft) (token : PlacedToken) :
    (draft.beginStage? chain token).isSome ↔
      token.token.expectation ∈ [Expected.identifier, .openParenthesis] := by
  obtain ⟨token, span⟩ := token
  cases token <;> simp [beginStage?, Token.expectation]

/-- Of the tokens with a name in messages, only an identifier begins an item. -/
theorem isSome_beginItem?_iff (chain : ChainDraft) (proc : ProcDraft) {token : PlacedToken}
    (listed : token.token.expectation ≠ .other) :
    (draft.beginItem? chain proc token).isSome ↔ token.token.expectation = .identifier := by
  obtain ⟨token, span⟩ := token
  cases token <;> simp_all [beginItem?, atom?, Token.expectation]

/-- A stage ends with the tokens that may follow a stage. -/
theorem isSome_endStage?_iff (ends : (draft.chain? reach).isSome) (token : PlacedToken) :
    (draft.endStage? reach token).isSome ↔ token.token.expectation ∈ draft.afterStage := by
  have closes := isSome_closeBlock?_iff (isSome_finished? ends) token.span
  obtain ⟨token, span⟩ := token
  cases token with
  | bar | semicolon => simpa [endStage?, afterStage, Token.expectation] using ends
  | closeParenthesis => simpa [endStage?, afterStage, Token.expectation] using closes
  | _ =>
      cases outermost : draft.blocks.isEmpty <;>
        simp [endStage?, afterStage, closing, outermost, Token.expectation]

/-- The signs that belong to a term, and those that end it inside a call. -/
theorem isSome_afterTerm?_iff (draft : Draft) (item : ItemDraft) (calls : List CallDraft)
    (comparison : Option Comparand) (term : Expr) {token : PlacedToken}
    (listed : token.token.expectation ≠ .other) :
    (draft.afterTerm? item calls comparison term token).isSome ↔
      (token.token.expectation = .openParenthesis ∧ ∃ name, term = .ident name) ∨
        token.token.expectation = .comma ∨
        (token.token.expectation = .closeParenthesis ∧ calls ≠ []) := by
  obtain ⟨token, span⟩ := token
  cases token with
  | openParenthesis => cases term <;> simp [afterTerm?, Token.expectation]
  | comma | closeParenthesis => cases calls <;> simp [afterTerm?, Token.expectation]
  | comparison operator => exact absurd rfl listed
  | _ => simp [afterTerm?, Token.expectation]

section Phases

variable {blocks : List BlockDraft} {finished : List (Flow ProcCall)} {stop : Nat}

/-- At the start of a chain the list of an error has what may come next. -/
theorem mem_expected_chainStart_iff (mayEnd : Bool) (token : PlacedToken) :
    token.token.expectation ∈ expected ⟨blocks, finished, .chainStart mayEnd, stop⟩ ↔
      (next? reach ⟨blocks, finished, .chainStart mayEnd, stop⟩ token).isSome := by
  have closes : mayEnd = true →
      ((closeBlock? reach ⟨blocks, finished, .chainStart mayEnd, stop⟩ token.span).isSome ↔
        .closeParenthesis = closing ⟨blocks, finished, .chainStart mayEnd, stop⟩) := by
    rintro rfl
    exact isSome_closeBlock?_iff rfl token.span
  obtain ⟨token, span⟩ := token
  cases token with
  | closeParenthesis =>
      cases mayEnd with
      | true => simpa [expected, next?, Token.expectation] using (closes rfl).symm
      | false => simp [expected, next?, Token.expectation]
  | _ =>
      cases mayEnd <;> cases blocks <;>
        simp [expected, next?, Token.expectation, beginStage?, closing]

/-- At the start of a term the list of an error has what may come next. -/
theorem mem_expected_termStart_iff {item : ItemDraft} {calls : List CallDraft}
    {comparison : Option Comparand} {mayClose : Bool} (opened : mayClose = true → calls ≠ [])
    {token : PlacedToken} (listed : token.token.expectation ≠ .other) :
    token.token.expectation ∈
        expected ⟨blocks, finished, .termStart item calls comparison mayClose, stop⟩ ↔
      (next? reach ⟨blocks, finished, .termStart item calls comparison mayClose, stop⟩
        token).isSome := by
  obtain ⟨token, span⟩ := token
  cases token with
  | closeParenthesis =>
      cases calls with
      | nil => cases mayClose <;> simp_all [expected, next?, Token.expectation]
      | cons call outer => cases mayClose <;> simp [expected, next?, Token.expectation]
  | comparison | optionName | number | string | moment => exact absurd rfl listed
  | _ => cases mayClose <;> simp [expected, next?, atom?, Token.expectation]

/-- After a term the list of an error has what may come next. -/
theorem mem_expected_termEnd_iff {item : ItemDraft} {calls : List CallDraft}
    {comparison : Option Comparand} {term : Expr} {token : PlacedToken}
    (listed : token.token.expectation ≠ .other) :
    token.token.expectation ∈
        expected ⟨blocks, finished, .termEnd item calls comparison term, stop⟩ ↔
      (next? reach ⟨blocks, finished, .termEnd item calls comparison term, stop⟩
        token).isSome := by
  have after := isSome_afterTerm?_iff
    ⟨blocks, finished, .termEnd item calls comparison term, stop⟩ item calls comparison
    term listed
  simp only [next?, Option.isSome_or, Bool.or_eq_true, after]
  cases calls with
  | cons call outer => cases comparison <;> cases term <;> simp [expected, listed]
  | nil =>
      rw [Option.isSome_or, Bool.or_eq_true, isSome_beginItem?_iff _ _ listed,
        isSome_endStage?_iff rfl token]
      cases comparison <;> cases term <;> simp [expected, listed, afterStage, closing]
      all_goals grind

end Phases

/-- The list has exactly what can be read, apart from what messages do not tell apart. -/
theorem expectation_mem_expected_iff (opened : draft.Opened) (token : PlacedToken)
    (listed : token.token.expectation ≠ .other) :
    token.token.expectation ∈ draft.expected ↔ (draft.next? reach token).isSome := by
  obtain ⟨blocks, finished, phase, stop⟩ := draft
  cases phase with
  | chainStart mayEnd => exact mem_expected_chainStart_iff mayEnd token
  | stageStart chain => exact (isSome_beginStage?_iff chain token).symm
  | blockEnd chain => exact (isSome_endStage?_iff rfl token).symm
  | itemStart chain proc =>
      rw [next?, Option.isSome_or, Bool.or_eq_true, isSome_beginItem?_iff _ _ listed,
        isSome_endStage?_iff rfl token, expected, List.mem_append]
      simp [listed]
  | termStart item calls comparison mayClose =>
      refine mem_expected_termStart_iff ?_ listed
      rintro rfl
      exact opened item calls comparison rfl
  | termEnd item calls comparison term => exact mem_expected_termEnd_iff listed

/-- A literal, the name of an option or a comparison is listed exactly if one can be read. -/
theorem other_mem_expected_iff (reach : Nat → Nat) (draft : Draft) :
    .other ∈ draft.expected ↔
      ∃ token : Token, token.expectation = .other ∧
        (draft.next? reach ⟨token, .empty 0⟩).isSome := by
  obtain ⟨blocks, finished, phase, stop⟩ := draft
  constructor
  · intro listed
    cases phase with
    | itemStart chain proc => exact ⟨.moment "", rfl, rfl⟩
    | termStart item calls comparison mayClose => exact ⟨.moment "", rfl, rfl⟩
    | termEnd item calls comparison term =>
        cases comparison with
        | none => exact ⟨.comparison .assign, rfl, rfl⟩
        | some comparand =>
            cases calls with
            | nil => exact ⟨.moment "", rfl, rfl⟩
            | cons call outer => cases term <;> simp [expected] at listed
    | chainStart mayEnd => cases mayEnd <;> cases blocks <;> simp [expected, closing] at listed
    | stageStart chain => simp [expected] at listed
    | blockEnd chain => cases blocks <;> simp [expected, afterStage, closing] at listed
  · rintro ⟨token, other, read⟩
    cases phase with
    | itemStart chain proc => simp [expected]
    | termStart item calls comparison mayClose => simp [expected]
    | termEnd item calls comparison term =>
        cases comparison with
        | none => cases calls <;> simp [expected]
        | some comparand =>
            cases calls with
            | nil => simp [expected]
            | cons call outer => cases token <;> cases other <;> cases read
    | chainStart mayEnd => cases token <;> cases other <;> cases read
    | stageStart chain => cases token <;> cases other <;> cases read
    | blockEnd chain => cases token <;> cases other <;> cases read

/-- The end of the input is listed exactly if the program may end there. -/
theorem endOfInput_mem_expected_iff (draft : Draft) :
    .endOfInput ∈ draft.expected ↔ draft.blocks.isEmpty ∧ (draft.finished? reach).isSome := by
  obtain ⟨blocks, finished, phase, stop⟩ := draft
  cases phase with
  | chainStart mayEnd =>
      cases blocks <;> cases mayEnd <;> simp [expected, closing, finished?, chain?]
  | termEnd item calls comparison term =>
      cases blocks <;> cases calls <;> cases comparison <;> cases term <;>
        simp [expected, afterStage, closing, finished?, chain?]
  | stageStart chain => simp [expected, finished?, chain?]
  | termStart item calls comparison mayClose => simp [expected, finished?, chain?]
  | _ => cases blocks <;> simp [expected, afterStage, closing, finished?, chain?]

end Draft

/-! ## The error of a text -/

/-- The error at the token with an index, or at the end of the text if there is none. -/
def faultAt (text : List Char) (index : Nat) (expected : List Expected) : ParseFault :=
  match (lex text).tokens[index]? with
  | some token => .unexpected (some token.token) expected token.span
  | none => .unexpected none expected (.empty (Text.byteLength text))

/-- An error before which a program can still be completed, and what it lists. -/
structure IsFirstFault (tokens : List Token) (index : Nat) (expected : List Expected) : Prop where
  within : index ≤ tokens.length
  viable : Viable (tokens.take index)
  /-- With the token at the index, if there is one, nothing can be completed any more. -/
  final : ∀ token ∈ tokens[index]?, ¬ Viable (tokens.take index ++ [token])
  listed : ∀ token : Token, token.expectation ≠ .other →
    (token.expectation ∈ expected ↔ Viable (tokens.take index ++ [token]))
  other : .other ∈ expected ↔
    ∃ token : Token, token.expectation = .other ∧ Viable (tokens.take index ++ [token])
  endOfInput : .endOfInput ∈ expected ↔ IsProgram (tokens.take index)

/-- A text without stray characters is a program, or its error stands where reading stops. -/
theorem parse_eq_of_readOn {text : List Char} (clean : (lex text).strays = []) {final : Draft}
    {before unread : List PlacedToken} (split : (lex text).tokens = before ++ unread)
    (read : Draft.initial.readOn (afterTrivia text) (lex text).tokens = (final, unread)) :
    (∃ program, parse text = ⟨some program, []⟩) ∨
      parse text = ⟨none, [faultAt text before.length final.expected]⟩ := by
  have chains : (∃ chains, readChains (afterTrivia text) (Text.byteLength text)
        (lex text).tokens = .ok chains) ∨
      readChains (afterTrivia text) (Text.byteLength text) (lex text).tokens =
        .error (faultAt text before.length final.expected) := by
    rw [readChains, read, faultAt, split]
    cases unread with
    | cons token rest => right; simp
    | nil =>
        obtain ⟨blocks, finished, phase, stop⟩ := final
        cases blocks with
        | cons block outer => right; simp
        | nil =>
            cases ends : (Draft.mk [] finished phase stop).finished? (afterTrivia text) with
            | none => right; simp [ends]
            | some chains => left; simp [ends]
  rcases chains with ⟨chains, ok⟩ | fault
  · left
    exact ⟨_, by simp only [parse, ok, clean]; rfl⟩
  · right
    simp only [parse, fault, clean]
    rfl

/-- The first token that is not read is the first fault of the text. -/
theorem isFirstFault_of_readOn {tokens : List PlacedToken} {final : Draft}
    {unread : List PlacedToken} (read : Draft.initial.readOn reach tokens = (final, unread)) :
    ∃ before, tokens = before ++ unread ∧
      IsFirstFault (tokens.map PlacedToken.token) before.length final.expected := by
  obtain ⟨before, rfl, opened, accepts, refused⟩ :=
    Draft.readOn_splits read (by rintro _ _ _ ⟨⟩)
  have taken : ((before ++ unread).map PlacedToken.token).take before.length =
      before.map PlacedToken.token := by
    simp
  refine ⟨before, rfl, by simp, ?_, ?_, ?_, ?_, ?_⟩ <;> rw [taken]
  · exact viable_of_accepts accepts
  · intro token next
    cases unread with
    | nil => simp at next
    | cons first rest =>
        obtain rfl : first.token = token := by simpa using next
        rw [viable_concat_iff accepts, refused first rfl]
        exact Bool.false_ne_true
  · intro token listed
    rw [viable_concat_iff accepts ⟨token, .empty 0⟩]
    exact Draft.expectation_mem_expected_iff opened ⟨token, .empty 0⟩ listed
  · rw [Draft.other_mem_expected_iff reach]
    exact exists_congr fun token =>
      and_congr_right fun _ => (viable_concat_iff accepts ⟨token, .empty 0⟩).symm
  · rw [isProgram_iff_finished accepts]
    exact Draft.endOfInput_mem_expected_iff final

/--
A text without stray characters that is no program has exactly one error.  It stands at the
first token with which the text cannot be completed any more, or at its end, and lists
exactly what could have stood there.
-/
theorem parse_fault_isFirst (source : SourceFile)
    (clean : (lex source.characters).strays = [])
    (refused : ∀ program, parse source.characters ≠ ⟨some program, []⟩) :
    ∃ index expected,
      parse source.characters = ⟨none, [faultAt source.characters index expected]⟩ ∧
      source.program = .error [(faultAt source.characters index expected).diagnostic] ∧
      IsFirstFault ((lex source.characters).tokens.map PlacedToken.token) index expected := by
  cases read : Draft.initial.readOn (afterTrivia source.characters)
    (lex source.characters).tokens with
  | mk final unread =>
      obtain ⟨before, split, first⟩ := isFirstFault_of_readOn read
      rcases parse_eq_of_readOn clean split read with ⟨program, parsed⟩ | parsed
      · exact absurd parsed (refused program)
      · refine ⟨before.length, final.expected, parsed, ?_, first⟩
        rw [SourceFile.program, parsed]
        rfl

/-- A call that is cut short by a bar. -/
def cutShort : SourceFile :=
  .unnamed "emit -every f(:1s: | x)"

theorem parse_fault_of_cutShort :
    (lex cutShort.characters).strays = [] ∧
      (∀ program, parse cutShort.characters ≠ ⟨some program, []⟩) ∧
      ∃ index expected,
        parse cutShort.characters = ⟨none, [faultAt cutShort.characters index expected]⟩ ∧
        cutShort.program = .error [(faultAt cutShort.characters index expected).diagnostic] ∧
        IsFirstFault ((lex cutShort.characters).tokens.map PlacedToken.token) index expected := by
  have clean : (lex cutShort.characters).strays = [] := by decide
  have refused : ∀ program, parse cutShort.characters ≠ ⟨some program, []⟩ := by
    intro program parsed
    have none : (parse cutShort.characters).program.isSome = false := by decide
    rw [parsed] at none
    cases none
  exact ⟨clean, refused, parse_fault_isFirst cutShort clean refused⟩

end Flowgraph
