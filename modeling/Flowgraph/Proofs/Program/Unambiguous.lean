import Flowgraph.Proofs.Program.Grammar

/-!
# The grammar is unambiguous

The next token alone says which part of a program it goes on with.  An opening
parenthesis goes on with a term, the sign of a comparison with a value, a comma with an
item, a word with a proc, a bar with a chain and a semicolon with a list of chains.  So
the tokens have levels, from the inside of a program to the outside, and a part is over
where a token of a higher level follows (`Beyond`).

Two derivations whose tokens agree as far as the next such place are therefore equal, and
a list of tokens has at most one derivation (`ProgramTree.tokens_injective`).
-/

namespace Flowgraph

/--
The part that a token goes on with: a term, a value, an item, a proc, a chain or a list of
chains, counted from the inside.  A closing parenthesis ends all of them.
-/
def Token.level : Token → Nat
  | .openParenthesis => 0
  | .comparison _ => 1
  | .comma => 2
  | .optionName _ | .number _ | .string _ | .moment _ | .identifier _ => 3
  | .bar => 4
  | .semicolon => 5
  | .closeParenthesis => 6

/-- The tokens do not go on with any part up to a level. -/
def Beyond (level : Nat) (tokens : List PlacedToken) : Prop :=
  ∀ token ∈ tokens.head?, level < token.token.level

@[simp]
theorem beyond_nil (level : Nat) : Beyond level [] := by
  simp [Beyond]

@[simp]
theorem beyond_cons {level : Nat} {token : PlacedToken} {rest : List PlacedToken} :
    Beyond level (token :: rest) ↔ level < token.token.level := by
  simp [Beyond]

/-- What is beyond a level is beyond any lower one. -/
theorem Beyond.mono {level lower : Nat} {tokens : List PlacedToken} (beyond : Beyond level tokens)
    (less : lower ≤ level) : Beyond lower tokens :=
  fun token member => Nat.lt_of_le_of_lt less (beyond token member)

/-- The token with which tokens go on with a part up to a level. -/
theorem exists_of_not_beyond {level : Nat} {tokens : List PlacedToken}
    (within : ¬ Beyond level tokens) :
    ∃ token rest, tokens = token :: rest ∧ token.token.level ≤ level := by
  cases tokens with
  | nil => exact absurd (beyond_nil level) within
  | cons token rest => exact ⟨token, rest, rfl, by simpa using within⟩

/-- The token after a part of one level, where the part of the next level goes on. -/
theorem exists_of_level {level : Nat} {tokens : List PlacedToken} (beyond : Beyond level tokens)
    (within : ¬ Beyond (level + 1) tokens) :
    ∃ token rest, tokens = token :: rest ∧ token.token.level = level + 1 := by
  obtain ⟨token, rest, rfl, atMost⟩ := exists_of_not_beyond within
  exact ⟨token, rest, rfl, Nat.le_antisymm atMost (beyond_cons.mp beyond)⟩

/-- Behind whole chains there is nothing left, or the block around them is closed. -/
theorem eq_nil_or_closes {tokens : List PlacedToken} (beyond : Beyond 5 tokens) :
    tokens = [] ∨ ∃ span rest, tokens = ⟨.closeParenthesis, span⟩ :: rest := by
  cases tokens with
  | nil => exact .inl rfl
  | cons token rest =>
      obtain ⟨token, span⟩ := token
      cases token with
      | closeParenthesis => exact .inr ⟨span, rest, rfl⟩
      | _ => simp [Token.level] at beyond

/-! ## First tokens -/

/-- There is a first token, and it has a property. -/
def Begins (holds : PlacedToken → Prop) (tokens : List PlacedToken) : Prop :=
  ∃ token rest, tokens = token :: rest ∧ holds token

/-- Tokens of which the first is known are not empty. -/
theorem Begins.ne_nil {holds : PlacedToken → Prop} {tokens : List PlacedToken}
    (begins : Begins holds tokens) : tokens ≠ [] := by
  obtain ⟨token, rest, rfl, -⟩ := begins
  exact List.cons_ne_nil token rest

/-- The first token stays the first if more follow. -/
theorem Begins.append {holds : PlacedToken → Prop} {first : List PlacedToken}
    (begins : Begins holds first) (second : List PlacedToken) :
    Begins holds (first ++ second) := by
  obtain ⟨token, rest, rfl, property⟩ := begins
  exact ⟨token, rest ++ second, rfl, property⟩

/-- Tokens do not begin with a token that none of them begins with. -/
theorem Begins.append_ne_cons {holds : PlacedToken → Prop} {first second other : List PlacedToken}
    {token : PlacedToken} (begins : Begins holds first) (fails : ¬ holds token) :
    first ++ second ≠ token :: other := by
  obtain ⟨head, rest, rfl, property⟩ := begins
  intro same
  rw [List.cons_append, List.cons.injEq] at same
  exact fails (same.1 ▸ property)

/-- What begins at a level or below it is not beyond that level. -/
theorem Begins.not_beyond {level : Nat} {holds : PlacedToken → Prop} {tokens : List PlacedToken}
    (begins : Begins holds tokens) (within : ∀ token, holds token → token.token.level ≤ level) :
    ¬ Beyond level tokens := by
  obtain ⟨token, rest, rfl, property⟩ := begins
  rw [beyond_cons, Nat.not_lt]
  exact within token property

/-- What holds of the first token may be weakened. -/
theorem Begins.mono {holds holds' : PlacedToken → Prop} {tokens : List PlacedToken}
    (begins : Begins holds tokens) (weaker : ∀ token, holds token → holds' token) :
    Begins holds' tokens := by
  obtain ⟨token, rest, rfl, property⟩ := begins
  exact ⟨token, rest, rfl, weaker token property⟩

/-- A token that is a term by itself, or the name of a call. -/
def IsAtom (token : PlacedToken) : Prop :=
  (Draft.atom? token).isSome

/-- A term begins with a word, and words go on with a proc. -/
theorem IsAtom.level {token : PlacedToken} (atom : IsAtom token) : token.token.level = 3 := by
  obtain ⟨token, span⟩ := token
  cases token <;> first | rfl | cases atom

/-- A word that goes on with a proc begins an argument or names an option. -/
theorem isAtom_or_optionToken {token : PlacedToken} (level : token.token.level = 3) :
    IsAtom token ∨ ∃ name : Ident, token = name.optionToken := by
  obtain ⟨token, span⟩ := token
  cases token with
  | optionName name => exact .inr ⟨⟨name, span⟩, rfl⟩
  | _ => first | exact .inl rfl | simp [Token.level] at level

/-- A term begins with an atom. -/
theorem TermTree.begins (tree : TermTree) : Begins IsAtom tree.tokens := by
  cases tree <;> exact ⟨_, _, rfl, rfl⟩

/-- A value begins with an atom. -/
theorem ValueTree.begins (tree : ValueTree) : Begins IsAtom tree.tokens := by
  cases tree with
  | term term => exact term.begins
  | compare left operator sign right => exact left.begins.append _

theorem ValueTrees.begins (trees : ValueTrees) : Begins IsAtom trees.tokens := by
  cases trees with
  | last value => exact value.begins
  | more value comma rest => exact value.begins.append _

/-- An item begins with a word. -/
theorem ItemTree.begins (item : ItemTree) :
    Begins (fun token => token.token.level = 3) item.tokens := by
  obtain ⟨option, value, comma⟩ := item
  cases option with
  | some name => exact ⟨name.optionToken, _, rfl, rfl⟩
  | none => exact (value.begins.append _).mono fun token atom => atom.level

/-- A token that a stage can begin with. -/
def IsOpening (token : PlacedToken) : Prop :=
  token.token.level = 0 ∨ ∃ name, token.token = .identifier name

/-- A stage begins with a parenthesis or a word. -/
theorem IsOpening.level {token : PlacedToken} (opening : IsOpening token) :
    token.token.level ≤ 3 := by
  rcases opening with zero | ⟨name, identifier⟩
  · simp [zero]
  · simp [identifier, Token.level]

/-- A stage begins with what opens one. -/
theorem StageTree.begins (tree : StageTree) : Begins IsOpening tree.tokens := by
  cases tree with
  | proc proc => exact ⟨_, _, rfl, .inr ⟨_, rfl⟩⟩
  | block opening branches closing => exact ⟨_, _, rfl, .inl rfl⟩

/-- A chain begins with what opens a stage. -/
theorem ChainTree.begins (tree : ChainTree) : Begins IsOpening tree.tokens := by
  cases tree with
  | last stage => exact stage.begins
  | more stage bar rest => exact stage.begins.append _

theorem ChainTrees.begins (trees : ChainTrees) : Begins IsOpening trees.tokens := by
  cases trees with
  | last chain semicolon => exact chain.begins.append _
  | more chain semicolon rest => exact chain.begins.append _

/-!
## Derivations that agree

The proofs compare the constructors of two derivations.  Equal ones have equal parts, and
different ones differ in the token after their first part.
-/

@[simp]
theorem Ident.token_inj {first second : Ident} : first.token = second.token ↔ first = second := by
  obtain ⟨name, span⟩ := first
  obtain ⟨name', span'⟩ := second
  simp [Ident.token]

@[simp]
theorem Ident.optionToken_inj {first second : Ident} :
    first.optionToken = second.optionToken ↔ first = second := by
  obtain ⟨name, span⟩ := first
  obtain ⟨name', span'⟩ := second
  simp [Ident.optionToken]

mutual

/-- Two terms with the same tokens up to where both are over are the same term. -/
theorem TermTree.unique (first second : TermTree) {rest other : List PlacedToken}
    (same : first.tokens ++ rest = second.tokens ++ other) (beyond : Beyond 0 rest)
    (otherBeyond : Beyond 0 other) :
    first = second ∧ rest = other := by
  cases first with
  | number value span => cases second <;> simp_all [TermTree.tokens, Ident.token]
  | string value span => cases second <;> simp_all [TermTree.tokens, Ident.token]
  | moment text span => cases second <;> simp_all [TermTree.tokens, Ident.token]
  | ident name =>
      cases second with
      | ident name' => simpa [TermTree.tokens] using same
      | emptyCall name' opening closing =>
          obtain ⟨-, rfl⟩ := List.cons.inj same
          simp [Token.level] at beyond
      | call name' opening arguments closing =>
          obtain ⟨-, rfl⟩ := List.cons.inj same
          simp [Token.level] at beyond
      | _ => simp [TermTree.tokens, Ident.token] at same
  | emptyCall name opening closing =>
      cases second with
      | ident name' =>
          obtain ⟨-, rfl⟩ := List.cons.inj same
          simp [Token.level] at otherBeyond
      | emptyCall name' opening' closing' => simpa [TermTree.tokens, and_assoc] using same
      | call name' opening' arguments closing' =>
          simp only [TermTree.tokens, List.cons_append, List.nil_append, List.append_assoc,
            List.cons.injEq] at same
          exact absurd same.2.2.symm (arguments.begins.append_ne_cons Bool.false_ne_true)
      | _ => simp [TermTree.tokens, Ident.token] at same
  | call name opening arguments closing =>
      cases second with
      | ident name' =>
          obtain ⟨-, rfl⟩ := List.cons.inj same
          simp [Token.level] at otherBeyond
      | emptyCall name' opening' closing' =>
          simp only [TermTree.tokens, List.cons_append, List.nil_append, List.append_assoc,
            List.cons.injEq] at same
          exact absurd same.2.2 (arguments.begins.append_ne_cons Bool.false_ne_true)
      | call name' opening' arguments' closing' =>
          simp only [TermTree.tokens, List.cons_append, List.nil_append, List.append_assoc,
            List.cons.injEq, Ident.token_inj, PlacedToken.mk.injEq, true_and] at same
          obtain ⟨rfl, rfl, inner⟩ := same
          obtain ⟨rfl, closings⟩ := arguments.unique arguments' inner (by simp [Token.level])
            (by simp [Token.level])
          simpa using closings
      | _ => simp [TermTree.tokens, Ident.token] at same

/-- Tokens are split in one way into a value and what cannot go on with it. -/
theorem ValueTree.unique (first second : ValueTree) {rest other : List PlacedToken}
    (same : first.tokens ++ rest = second.tokens ++ other) (beyond : Beyond 1 rest)
    (otherBeyond : Beyond 1 other) :
    first = second ∧ rest = other := by
  cases first with
  | term term =>
      cases second with
      | term term' =>
          obtain ⟨rfl, rfl⟩ := term.unique term' same (beyond.mono (by decide))
            (otherBeyond.mono (by decide))
          exact ⟨rfl, rfl⟩
      | compare left operator sign right =>
          simp only [ValueTree.tokens, List.append_assoc, List.cons_append] at same
          obtain ⟨rfl, rfl⟩ := term.unique left same (beyond.mono (by decide))
            (by simp [Token.level])
          simp [Token.level] at beyond
  | compare left operator sign right =>
      simp only [ValueTree.tokens, List.append_assoc, List.cons_append] at same
      cases second with
      | term term =>
          obtain ⟨rfl, rfl⟩ := left.unique term same (by simp [Token.level])
            (otherBeyond.mono (by decide))
          simp [Token.level] at otherBeyond
      | compare left' operator' sign' right' =>
          simp only [ValueTree.tokens, List.append_assoc, List.cons_append] at same
          obtain ⟨rfl, signs⟩ := left.unique left' same (by simp [Token.level])
            (by simp [Token.level])
          simp only [List.cons.injEq, PlacedToken.mk.injEq, Token.comparison.injEq] at signs
          obtain ⟨⟨rfl, rfl⟩, rights⟩ := signs
          obtain ⟨rfl, rfl⟩ := right.unique right' rights (beyond.mono (by decide))
            (otherBeyond.mono (by decide))
          exact ⟨rfl, rfl⟩

/-- Tokens are split in one way into arguments and what cannot go on with them. -/
theorem ValueTrees.unique (first second : ValueTrees) {rest other : List PlacedToken}
    (same : first.tokens ++ rest = second.tokens ++ other) (beyond : Beyond 2 rest)
    (otherBeyond : Beyond 2 other) :
    first = second ∧ rest = other := by
  cases first with
  | last value =>
      cases second with
      | last value' =>
          obtain ⟨rfl, rfl⟩ := value.unique value' same (beyond.mono (by decide))
            (otherBeyond.mono (by decide))
          exact ⟨rfl, rfl⟩
      | more value' comma more =>
          simp only [ValueTrees.tokens, List.append_assoc, List.cons_append] at same
          obtain ⟨rfl, rfl⟩ := value.unique value' same (beyond.mono (by decide))
            (by simp [Token.level])
          simp [Token.level] at beyond
  | more value comma more =>
      simp only [ValueTrees.tokens, List.append_assoc, List.cons_append] at same
      cases second with
      | last value' =>
          obtain ⟨rfl, rfl⟩ := value.unique value' same (by simp [Token.level])
            (otherBeyond.mono (by decide))
          simp [Token.level] at otherBeyond
      | more value' comma' more' =>
          simp only [ValueTrees.tokens, List.append_assoc, List.cons_append] at same
          obtain ⟨rfl, commas⟩ := value.unique value' same (by simp [Token.level])
            (by simp [Token.level])
          simp only [List.cons.injEq, PlacedToken.mk.injEq, true_and] at commas
          obtain ⟨rfl, mores⟩ := commas
          obtain ⟨rfl, rfl⟩ := more.unique more' mores beyond otherBeyond
          exact ⟨rfl, rfl⟩

end

/-- What ends a part still does after a token of a higher level that may be left out. -/
theorem Beyond.optional {level : Nat} {rest : List PlacedToken} (token : Token)
    (beyond : Beyond token.level rest) (less : level < token.level) (place : Option Span) :
    Beyond level (token.optional place ++ rest) := by
  cases place with
  | none => exact beyond.mono (Nat.le_of_lt less)
  | some span => exact beyond_cons.mpr less

/-- Whether an optional sign is there can be seen from the tokens. -/
theorem Token.optional_unique {token : Token} {place place' : Option Span}
    {rest other : List PlacedToken}
    (same : token.optional place ++ rest = token.optional place' ++ other)
    (beyond : Beyond token.level rest) (otherBeyond : Beyond token.level other) :
    place = place' ∧ rest = other := by
  cases place with
  | none =>
      cases place' with
      | none => exact ⟨rfl, same⟩
      | some span =>
          obtain rfl : rest = ⟨token, span⟩ :: other := same
          simp at beyond
  | some span =>
      cases place' with
      | none =>
          obtain rfl : ⟨token, span⟩ :: rest = other := same
          simp at otherBeyond
      | some span' => simpa [Token.optional] using same

/-- Tokens are split in one way into an item and what cannot go on with it. -/
theorem ItemTree.unique (first second : ItemTree) {rest other : List PlacedToken}
    (same : first.tokens ++ rest = second.tokens ++ other) (beyond : Beyond 2 rest)
    (otherBeyond : Beyond 2 other) :
    first = second ∧ rest = other := by
  obtain ⟨option, value, comma⟩ := first
  obtain ⟨option', value', comma'⟩ := second
  rw [ItemTree.tokens, ItemTree.tokens, List.append_assoc, List.append_assoc, List.append_assoc,
    List.append_assoc] at same
  have options : option = option' ∧
      value.tokens ++ (Token.comma.optional comma ++ rest) =
        value'.tokens ++ (Token.comma.optional comma' ++ other) := by
    cases option with
    | none =>
        cases option' with
        | none => exact ⟨rfl, same⟩
        | some name => exact absurd same (value.begins.append_ne_cons Bool.false_ne_true)
    | some name =>
        cases option' with
        | none => exact absurd same.symm (value'.begins.append_ne_cons Bool.false_ne_true)
        | some name' => simpa using same
  obtain ⟨rfl, values⟩ := options
  obtain ⟨rfl, commas⟩ := value.unique value' values
    (Beyond.optional .comma beyond (by decide) comma)
    (Beyond.optional .comma otherBeyond (by decide) comma')
  obtain ⟨rfl, rfl⟩ := Token.optional_unique commas beyond otherBeyond
  exact ⟨rfl, rfl⟩

/-- An item is over where the items after it begin. -/
theorem ItemTree.beyond_list (items : List ItemTree) {rest : List PlacedToken}
    (beyond : Beyond 3 rest) : Beyond 2 (items.flatMap ItemTree.tokens ++ rest) := by
  cases items with
  | nil => exact beyond.mono (by decide)
  | cons item items =>
      obtain ⟨token, tokens, begins, level⟩ := item.begins
      simp [begins, level]

/-- Tokens are split in one way into items and what cannot go on with them. -/
theorem ItemTree.unique_list (first second : List ItemTree) {rest other : List PlacedToken}
    (same : first.flatMap ItemTree.tokens ++ rest = second.flatMap ItemTree.tokens ++ other)
    (beyond : Beyond 3 rest) (otherBeyond : Beyond 3 other) :
    first = second ∧ rest = other := by
  induction first generalizing second with
  | nil =>
      cases second with
      | nil => exact ⟨rfl, same⟩
      | cons item items =>
          obtain rfl := same
          rw [List.flatMap_cons, List.append_assoc] at beyond
          exact absurd beyond ((item.begins.append _).not_beyond fun token => Nat.le_of_eq)
  | cons item items ih =>
      cases second with
      | nil =>
          obtain rfl := same
          rw [List.flatMap_cons, List.append_assoc] at otherBeyond
          exact absurd otherBeyond ((item.begins.append _).not_beyond fun token => Nat.le_of_eq)
      | cons item' items' =>
          simp only [List.flatMap_cons, List.append_assoc] at same
          obtain ⟨rfl, later⟩ := item.unique item' same (beyond_list items beyond)
            (beyond_list items' otherBeyond)
          obtain ⟨rfl, rfl⟩ := ih items' later
          exact ⟨rfl, rfl⟩

/-- Tokens are split in one way into a proc and what cannot go on with it. -/
theorem ProcTree.unique (first second : ProcTree) {rest other : List PlacedToken}
    (same : first.tokens ++ rest = second.tokens ++ other) (beyond : Beyond 3 rest)
    (otherBeyond : Beyond 3 other) :
    first = second ∧ rest = other := by
  obtain ⟨name, items⟩ := first
  obtain ⟨name', items'⟩ := second
  simp only [ProcTree.tokens, List.cons_append, List.cons.injEq, Ident.token_inj] at same
  obtain ⟨rfl, same⟩ := same
  obtain ⟨rfl, rfl⟩ := ItemTree.unique_list items items' same beyond otherBeyond
  exact ⟨rfl, rfl⟩

/-- A semicolon after which the chains end is not one after which another chain begins. -/
theorem ChainTrees.not_ends (trees : ChainTrees) {semicolon : Option Span} {place : Span}
    {rest other : List PlacedToken} (beyond : Beyond 5 rest) :
    Token.semicolon.optional semicolon ++ rest ≠
      ⟨.semicolon, place⟩ :: (trees.tokens ++ other) := by
  intro same
  cases semicolon with
  | none =>
      obtain rfl : rest = _ := same
      simp [Token.level] at beyond
  | some span =>
      obtain rfl : rest = trees.tokens ++ other := (List.cons.inj same).2
      exact (trees.begins.append other).not_beyond
        (fun token opening => Nat.le_trans opening.level (by decide)) beyond

mutual

/-- Tokens are split in one way into a stage and what cannot go on with it. -/
theorem StageTree.unique (first second : StageTree) {rest other : List PlacedToken}
    (same : first.tokens ++ rest = second.tokens ++ other) (beyond : Beyond 3 rest)
    (otherBeyond : Beyond 3 other) :
    first = second ∧ rest = other := by
  cases first with
  | proc proc =>
      cases second with
      | proc proc' =>
          obtain ⟨rfl, rfl⟩ := proc.unique proc' same beyond otherBeyond
          exact ⟨rfl, rfl⟩
      | block opening branches closing =>
          simp [StageTree.tokens, ProcTree.tokens, Ident.token] at same
  | block opening branches closing =>
      cases second with
      | proc proc => simp [StageTree.tokens, ProcTree.tokens, Ident.token] at same
      | block opening' branches' closing' =>
          simp only [StageTree.tokens, List.cons_append, List.append_assoc, List.nil_append,
            List.cons.injEq, PlacedToken.mk.injEq, true_and] at same
          obtain ⟨rfl, inner⟩ := same
          obtain ⟨rfl, closings⟩ := branches.unique branches' inner (by simp [Token.level])
            (by simp [Token.level])
          simpa using closings

/-- Tokens are split in one way into a chain and what cannot go on with it. -/
theorem ChainTree.unique (first second : ChainTree) {rest other : List PlacedToken}
    (same : first.tokens ++ rest = second.tokens ++ other) (beyond : Beyond 4 rest)
    (otherBeyond : Beyond 4 other) :
    first = second ∧ rest = other := by
  cases first with
  | last stage =>
      cases second with
      | last stage' =>
          obtain ⟨rfl, rfl⟩ := stage.unique stage' same (beyond.mono (by decide))
            (otherBeyond.mono (by decide))
          exact ⟨rfl, rfl⟩
      | more stage' bar later =>
          simp only [ChainTree.tokens, List.append_assoc, List.cons_append] at same
          obtain ⟨rfl, rfl⟩ := stage.unique stage' same (beyond.mono (by decide))
            (by simp [Token.level])
          simp [Token.level] at beyond
  | more stage bar later =>
      simp only [ChainTree.tokens, List.append_assoc, List.cons_append] at same
      cases second with
      | last stage' =>
          obtain ⟨rfl, rfl⟩ := stage.unique stage' same (by simp [Token.level])
            (otherBeyond.mono (by decide))
          simp [Token.level] at otherBeyond
      | more stage' bar' later' =>
          simp only [ChainTree.tokens, List.append_assoc, List.cons_append] at same
          obtain ⟨rfl, bars⟩ := stage.unique stage' same (by simp [Token.level])
            (by simp [Token.level])
          simp only [List.cons.injEq, PlacedToken.mk.injEq, true_and] at bars
          obtain ⟨rfl, laters⟩ := bars
          obtain ⟨rfl, rfl⟩ := later.unique later' laters beyond otherBeyond
          exact ⟨rfl, rfl⟩

theorem ChainTrees.unique (first second : ChainTrees) {rest other : List PlacedToken}
    (same : first.tokens ++ rest = second.tokens ++ other) (beyond : Beyond 5 rest)
    (otherBeyond : Beyond 5 other) :
    first = second ∧ rest = other := by
  cases first with
  | last chain semicolon =>
      simp only [ChainTrees.tokens, List.append_assoc] at same
      have chainOver : Beyond 4 (Token.semicolon.optional semicolon ++ rest) :=
        Beyond.optional .semicolon beyond (by decide) semicolon
      cases second with
      | last chain' semicolon' =>
          simp only [ChainTrees.tokens, List.append_assoc] at same
          obtain ⟨rfl, semicolons⟩ := chain.unique chain' same chainOver
            (Beyond.optional .semicolon otherBeyond (by decide) semicolon')
          obtain ⟨rfl, rfl⟩ := Token.optional_unique semicolons beyond otherBeyond
          exact ⟨rfl, rfl⟩
      | more chain' semicolon' later =>
          simp only [ChainTrees.tokens, List.append_assoc, List.cons_append] at same
          obtain ⟨-, semicolons⟩ := chain.unique chain' same chainOver (by simp [Token.level])
          exact absurd semicolons (later.not_ends beyond)
  | more chain semicolon later =>
      simp only [ChainTrees.tokens, List.append_assoc, List.cons_append] at same
      cases second with
      | last chain' semicolon' =>
          simp only [ChainTrees.tokens, List.append_assoc] at same
          obtain ⟨-, semicolons⟩ := chain.unique chain' same (by simp [Token.level])
            (Beyond.optional .semicolon otherBeyond (by decide) semicolon')
          exact absurd semicolons.symm (later.not_ends otherBeyond)
      | more chain' semicolon' later' =>
          simp only [ChainTrees.tokens, List.append_assoc, List.cons_append] at same
          obtain ⟨rfl, semicolons⟩ := chain.unique chain' same (by simp [Token.level])
            (by simp [Token.level])
          simp only [List.cons.injEq, PlacedToken.mk.injEq, true_and] at semicolons
          obtain ⟨rfl, laters⟩ := semicolons
          obtain ⟨rfl, rfl⟩ := later.unique later' laters beyond otherBeyond
          exact ⟨rfl, rfl⟩

end

/-- A list of tokens has at most one derivation. -/
theorem ProgramTree.tokens_injective : Function.Injective ProgramTree.tokens := by
  intro first second same
  cases first with
  | empty =>
      cases second with
      | empty => rfl
      | chains all =>
          obtain ⟨token, rest, begins, -⟩ := all.begins
          cases same.trans begins
  | chains all =>
      cases second with
      | empty =>
          obtain ⟨token, rest, begins, -⟩ := all.begins
          cases begins.symm.trans same
      | chains all' =>
          rw [← List.append_nil (ProgramTree.chains all).tokens,
            ← List.append_nil (ProgramTree.chains all').tokens] at same
          exact congrArg _ (all.unique all' same (beyond_nil 5) (beyond_nil 5)).1

end Flowgraph
