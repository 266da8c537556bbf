import Flowgraph.Proofs.Program.Reading
import Mathlib.Tactic.Cases

/-!
# What is read has a derivation

The tokens that a draft accepts begin with a part of the kind that the phase of the draft
waits for, and this part ends where it is over by the levels of the tokens.  The proofs
follow the tokens, as a part is read again inside a part of the same kind: the arguments
of a call, and the chains of a block.  Every such part begins at a later token, so that
the number of the tokens decreases.

Each step reads the first smaller part, replaces the draft by the one that is reached
after it (`TermTree.complete?_tokens` and the lemmas like it), and looks at the next
token.
-/

namespace Flowgraph

/-- The tokens complete a program. -/
def Draft.Accepts (reach : Nat → Nat) (draft : Draft) (tokens : List PlacedToken) : Prop :=
  (draft.complete? reach tokens).isSome

namespace Draft

variable {reach : Nat → Nat} {draft following : Draft} {token : PlacedToken}
  {rest : List PlacedToken}

theorem accepts_cons (next : draft.next? reach token = some following) :
    draft.Accepts reach (token :: rest) ↔ following.Accepts reach rest := by
  rw [Accepts, complete?_cons, next]
  rfl

theorem not_accepts_cons (refused : draft.next? reach token = none) :
    ¬ draft.Accepts reach (token :: rest) := by
  rw [Accepts, complete?_cons, refused]
  exact Bool.false_ne_true

theorem not_accepts_nil (unfinished : draft.finished? reach = none) :
    ¬ draft.Accepts reach [] := by
  rw [Accepts, complete?_nil, unfinished]
  cases draft.blocks.isEmpty <;> exact Bool.false_ne_true

end Draft

open Draft (Accepts accepts_cons not_accepts_cons not_accepts_nil)

variable {reach : Nat → Nat} {blocks : List BlockDraft} {finished : List (Flow ProcCall)}
  {stop : Nat}

/-! ## Where a part is over -/

theorem beyond_of_accepts_itemStart {chain : ChainDraft} {proc : ProcDraft}
    {tokens : List PlacedToken}
    (accepted : Accepts reach ⟨blocks, finished, .itemStart chain proc, stop⟩ tokens) :
    Beyond 2 tokens := by
  by_contra within
  obtain ⟨⟨token, span⟩, rest, rfl, level⟩ := exists_of_not_beyond within
  cases token <;>
    first | exact not_accepts_cons rfl accepted | simp [Token.level] at level

theorem beyond_of_accepts_blockEnd {chain : ChainDraft} {tokens : List PlacedToken}
    (accepted : Accepts reach ⟨blocks, finished, .blockEnd chain, stop⟩ tokens) :
    Beyond 3 tokens := by
  by_contra within
  obtain ⟨⟨token, span⟩, rest, rfl, level⟩ := exists_of_not_beyond within
  cases token <;>
    first | exact not_accepts_cons rfl accepted | simp [Token.level] at level

/-- A parenthesis after a term makes a call, which only a name can be the beginning of. -/
theorem beyond_of_accepts_term {item : ItemDraft} {calls : List CallDraft}
    {comparison : Option Comparand} {term : Expr} {tokens : List PlacedToken}
    (noName : ∀ name, term ≠ .ident name)
    (accepted : Accepts reach
      ⟨blocks, finished, .termEnd item calls comparison term, stop⟩ tokens) :
    Beyond 0 tokens := by
  by_contra within
  obtain ⟨⟨token, span⟩, rest, rfl, level⟩ := exists_of_not_beyond within
  cases token with
  | openParenthesis =>
      refine not_accepts_cons ?_ accepted
      cases term with
      | ident name => exact absurd rfl (noName name)
      | _ => cases calls <;> rfl
  | _ => simp [Token.level] at level

/-- There is no comparison of comparisons. -/
theorem beyond_of_accepts_comparison {item : ItemDraft} {calls : List CallDraft}
    {comparand : Comparand} {term : Expr} {tokens : List PlacedToken} (beyond : Beyond 0 tokens)
    (accepted : Accepts reach
      ⟨blocks, finished, .termEnd item calls (some comparand) term, stop⟩ tokens) :
    Beyond 1 tokens := by
  by_contra within
  obtain ⟨⟨token, span⟩, rest, rfl, level⟩ := exists_of_not_beyond within
  cases token with
  | comparison operator =>
      refine not_accepts_cons ?_ accepted
      cases calls <;> rfl
  | openParenthesis => simp [Token.level] at beyond
  | _ => simp [Token.level] at level

/-! ## Values -/

mutual

/-- Where a term must begin, the accepted tokens begin with one and are not a call cut short. -/
theorem exists_termTree (tokens : List PlacedToken) {stop : Nat} {item : ItemDraft}
    {calls : List CallDraft} {comparison : Option Comparand}
    (accepted : Accepts reach
      ⟨blocks, finished, .termStart item calls comparison false, stop⟩ tokens) :
    ∃ (tree : TermTree) (rest : List PlacedToken),
      tokens = tree.tokens ++ rest ∧ Beyond 0 rest := by
  cases tokens with
  | nil => exact absurd accepted (not_accepts_nil rfl)
  | cons token rest =>
      obtain ⟨token, span⟩ := token
      cases token with
      | number value =>
          have read := (accepts_cons rfl).mp accepted
          exact ⟨.number value span, rest, rfl, beyond_of_accepts_term (by simp) read⟩
      | string value =>
          have read := (accepts_cons rfl).mp accepted
          exact ⟨.string value span, rest, rfl, beyond_of_accepts_term (by simp) read⟩
      | moment text =>
          have read := (accepts_cons rfl).mp accepted
          exact ⟨.moment text span, rest, rfl, beyond_of_accepts_term (by simp) read⟩
      | identifier name =>
          have named : Accepts reach
              ⟨blocks, finished, .termEnd item calls comparison (.ident ⟨name, span⟩), span.stop⟩
              rest := (accepts_cons rfl).mp accepted
          by_cases beyond : Beyond 0 rest
          · exact ⟨.ident ⟨name, span⟩, rest, rfl, beyond⟩
          · obtain ⟨⟨token, opening⟩, inner, rfl, level⟩ := exists_of_not_beyond beyond
            obtain rfl : token = .openParenthesis := by
              cases token <;> first | rfl | simp [Token.level] at level
            exact exists_callTree ⟨name, span⟩ opening inner ((accepts_cons rfl).mp named)
      | _ => exact absurd accepted (not_accepts_cons rfl)
termination_by (tokens.length, 0)

theorem exists_valueTree (tokens : List PlacedToken) {stop : Nat} {item : ItemDraft}
    {calls : List CallDraft}
    (accepted : Accepts reach ⟨blocks, finished, .termStart item calls none false, stop⟩ tokens) :
    ∃ (tree : ValueTree) (rest : List PlacedToken),
      tokens = tree.tokens ++ rest ∧ Beyond 1 rest := by
  obtain ⟨left, rest, rfl, beyond⟩ := exists_termTree tokens accepted
  by_cases valueOver : Beyond 1 rest
  · exact ⟨.term left, rest, rfl, valueOver⟩
  · obtain ⟨⟨token, sign⟩, inner, rfl, level⟩ := exists_of_level beyond valueOver
    obtain ⟨operator, rfl⟩ : ∃ operator, token = .comparison operator := by
      cases token with
      | comparison operator => exact ⟨operator, rfl⟩
      | _ => cases level
    rw [Accepts, left.complete?_tokens] at accepted
    have read : Accepts reach
        ⟨blocks, finished, .termStart item calls (some ⟨left.expr, operator⟩) false, sign.stop⟩
        inner := (accepts_cons rfl).mp accepted
    obtain ⟨right, rest, rfl, rightOver⟩ := exists_termTree inner read
    rw [Accepts, right.complete?_tokens] at read
    refine ⟨.compare left operator sign right, rest, ?_,
      beyond_of_accepts_comparison rightOver read⟩
    rw [ValueTree.tokens, List.append_assoc, List.cons_append]
termination_by (tokens.length, 1)

theorem exists_valueTrees (tokens : List PlacedToken) {stop : Nat} {item : ItemDraft}
    {call : CallDraft} {calls : List CallDraft}
    (accepted : Accepts reach
      ⟨blocks, finished, .termStart item (call :: calls) none false, stop⟩ tokens) :
    ∃ (trees : ValueTrees) (closing : Span) (rest : List PlacedToken),
      tokens = trees.tokens ++ ⟨.closeParenthesis, closing⟩ :: rest := by
  obtain ⟨value, rest, rfl, beyond⟩ := exists_valueTree tokens accepted
  rw [Accepts, value.complete?_tokens _ _ _ _ beyond] at accepted
  cases rest with
  | nil => exact absurd accepted (not_accepts_nil rfl)
  | cons token rest =>
      obtain ⟨token, span⟩ := token
      cases token with
      | closeParenthesis => exact ⟨.last value, span, rest, rfl⟩
      | comma =>
          have read : Accepts reach
              ⟨blocks, finished,
                .termStart item ({ call with arguments := value.expr :: call.arguments } :: calls)
                  none false,
                span.stop⟩
              rest := (accepts_cons rfl).mp accepted
          obtain ⟨later, closing, rest, rfl⟩ := exists_valueTrees rest read
          refine ⟨.more value span later, closing, rest, ?_⟩
          rw [ValueTrees.tokens, List.append_assoc, List.cons_append]
      | openParenthesis => simp [Token.level] at beyond
      | comparison operator => simp [Token.level] at beyond
      | _ => exact absurd accepted (not_accepts_cons rfl)
termination_by (tokens.length, 2)

/-- What follows the parenthesis of a call goes on to the parenthesis that closes it. -/
theorem exists_callTree (name : Ident) (opening : Span) (inner : List PlacedToken) {stop : Nat}
    {item : ItemDraft} {calls : List CallDraft} {comparison : Option Comparand}
    (accepted : Accepts reach
      ⟨blocks, finished, .termStart item (⟨name, [], comparison⟩ :: calls) none true, stop⟩ inner) :
    ∃ (tree : TermTree) (rest : List PlacedToken),
      name.token :: ⟨.openParenthesis, opening⟩ :: inner = tree.tokens ++ rest ∧
        Beyond 0 rest := by
  by_cases empty : Beyond 5 inner
  · rcases eq_nil_or_closes empty with rfl | ⟨closing, rest, rfl⟩
    · exact absurd accepted (not_accepts_nil rfl)
    · have read := (accepts_cons rfl).mp accepted
      exact ⟨.emptyCall name opening closing, rest, rfl, beyond_of_accepts_term (by simp) read⟩
  · rw [Accepts, Draft.complete?_of_argument empty] at accepted
    obtain ⟨arguments, closing, rest, rfl⟩ := exists_valueTrees inner accepted
    rw [arguments.complete?_tokens] at accepted
    refine ⟨.call name opening arguments closing, rest, ?_,
      beyond_of_accepts_term (by simp) accepted⟩
    rw [TermTree.tokens, List.cons_append, List.cons_append, List.append_assoc]
    rfl
termination_by (inner.length, 3)

end

/-! ## Procs -/

/-- After its value an item may have a comma, and then the next item begins or the proc ends. -/
theorem exists_comma {tokens : List PlacedToken} {stop : Nat} {item : ItemDraft} {value : Expr}
    (beyond : Beyond 1 tokens)
    (accepted : Accepts reach ⟨blocks, finished, .termEnd item [] none value, stop⟩ tokens) :
    ∃ (comma : Option Span) (rest : List PlacedToken),
      tokens = Token.comma.optional comma ++ rest ∧ Beyond 2 rest := by
  by_cases itemOver : Beyond 2 tokens
  · exact ⟨none, tokens, rfl, itemOver⟩
  · obtain ⟨⟨token, span⟩, rest, rfl, level⟩ := exists_of_level beyond itemOver
    obtain rfl : token = .comma := by
      cases token <;> first | rfl | cases level
    have read : Accepts reach
        ⟨blocks, finished, .itemStart item.chain (item.finish value), span.stop⟩ rest :=
      (accepts_cons rfl).mp accepted
    exact ⟨some span, rest, rfl, beyond_of_accepts_itemStart read⟩

theorem exists_item_of_value {tokens : List PlacedToken} {stop : Nat} {chain : ChainDraft}
    {proc : ProcDraft} {option : Option Ident}
    (accepted : Accepts reach
      ⟨blocks, finished, .termStart ⟨chain, proc, option⟩ [] none false, stop⟩ tokens) :
    ∃ (value : ValueTree) (comma : Option Span) (rest : List PlacedToken),
      tokens = value.tokens ++ (Token.comma.optional comma ++ rest) ∧ Beyond 2 rest := by
  obtain ⟨value, later, rfl, valueOver⟩ := exists_valueTree tokens accepted
  rw [Accepts, value.complete?_tokens _ _ _ _ valueOver] at accepted
  obtain ⟨comma, rest, rfl, beyond⟩ := exists_comma valueOver accepted
  exact ⟨value, comma, rest, rfl, beyond⟩

theorem exists_itemTree {tokens : List PlacedToken} {stop : Nat} {chain : ChainDraft}
    {proc : ProcDraft} (within : ¬ Beyond 3 tokens)
    (accepted : Accepts reach ⟨blocks, finished, .itemStart chain proc, stop⟩ tokens) :
    ∃ (item : ItemTree) (rest : List PlacedToken),
      tokens = item.tokens ++ rest ∧ Beyond 2 rest := by
  have itemOver := beyond_of_accepts_itemStart accepted
  obtain ⟨token, rest, rfl, level⟩ := exists_of_not_beyond within
  rw [beyond_cons] at itemOver
  rcases isAtom_or_optionToken (Nat.le_antisymm level itemOver) with atom | ⟨name, rfl⟩
  · rw [Accepts, Draft.complete?_of_atom ⟨token, rest, rfl, atom⟩] at accepted
    obtain ⟨value, comma, later, split, beyond⟩ := exists_item_of_value accepted
    refine ⟨⟨none, value, comma⟩, later, ?_, beyond⟩
    rw [split, ← List.append_assoc]
    rfl
  · have read : Accepts reach
        ⟨blocks, finished, .termStart ⟨chain, proc, some name⟩ [] none false, name.span.stop⟩
        rest := (accepts_cons rfl).mp accepted
    obtain ⟨value, comma, later, rfl, beyond⟩ := exists_item_of_value read
    refine ⟨⟨some name, value, comma⟩, later, ?_, beyond⟩
    rw [← List.append_assoc]
    rfl

/-- What follows the name of a proc are its items, up to where the proc is over. -/
theorem exists_items (tokens : List PlacedToken) {stop : Nat} {chain : ChainDraft}
    {proc : ProcDraft}
    (accepted : Accepts reach ⟨blocks, finished, .itemStart chain proc, stop⟩ tokens) :
    ∃ (items : List ItemTree) (rest : List PlacedToken),
      tokens = items.flatMap ItemTree.tokens ++ rest ∧ Beyond 3 rest := by
  by_cases beyond : Beyond 3 tokens
  · exact ⟨[], tokens, rfl, beyond⟩
  · obtain ⟨item, rest, split, itemOver⟩ := exists_itemTree beyond accepted
    have shorter : rest.length < tokens.length := by
      have nonempty := List.length_pos_of_ne_nil item.begins.ne_nil
      rw [split, List.length_append]
      omega
    rw [split, Accepts, item.complete?_tokens _ _ _ itemOver] at accepted
    obtain ⟨items, rest, rfl, procOver⟩ := exists_items rest accepted
    refine ⟨item :: items, rest, ?_, procOver⟩
    rw [split, List.flatMap_cons, List.append_assoc]
termination_by tokens.length

/-! ## Chains -/

mutual

theorem exists_stageTree (tokens : List PlacedToken) {blocks : List BlockDraft}
    {finished : List (Flow ProcCall)} {stop : Nat} {chain : ChainDraft}
    (accepted : Accepts reach ⟨blocks, finished, .stageStart chain, stop⟩ tokens) :
    ∃ (tree : StageTree) (rest : List PlacedToken),
      tokens = tree.tokens ++ rest ∧ Beyond 3 rest := by
  cases tokens with
  | nil => exact absurd accepted (not_accepts_nil rfl)
  | cons token rest =>
      obtain ⟨token, span⟩ := token
      cases token with
      | identifier name =>
          have read : Accepts reach
              ⟨blocks, finished, .itemStart chain ⟨⟨name, span⟩, [], []⟩, span.stop⟩ rest :=
            (accepts_cons rfl).mp accepted
          obtain ⟨items, later, rfl, beyond⟩ := exists_items rest read
          exact ⟨.proc ⟨⟨name, span⟩, items⟩, later, rfl, beyond⟩
      | openParenthesis =>
          have read : Accepts reach
              ⟨⟨finished, chain, span.start⟩ :: blocks, [], .chainStart false, span.stop⟩ rest :=
            (accepts_cons rfl).mp accepted
          by_cases empty : Beyond 5 rest
          · -- A block holds a chain.
            rcases eq_nil_or_closes empty with rfl | ⟨closing, later, rfl⟩
            · exact absurd read (not_accepts_nil rfl)
            · exact absurd read (not_accepts_cons rfl)
          · obtain ⟨branches, later, rfl, beyond⟩ := exists_chainTrees rest empty read
            rw [Accepts, branches.complete?_tokens _ _ _ _ beyond] at read
            rcases eq_nil_or_closes beyond with rfl | ⟨closing, later, rfl⟩
            · cases read
            · refine ⟨.block span branches closing, later, ?_,
                beyond_of_accepts_blockEnd ((accepts_cons rfl).mp read)⟩
              rw [StageTree.tokens, List.cons_append, List.append_assoc]
              rfl
      | _ => exact absurd accepted (not_accepts_cons rfl)
termination_by (tokens.length, 0)

theorem exists_chainTree (tokens : List PlacedToken) {blocks : List BlockDraft}
    {finished : List (Flow ProcCall)} {stop : Nat} {chain : ChainDraft}
    (accepted : Accepts reach ⟨blocks, finished, .stageStart chain, stop⟩ tokens) :
    ∃ (tree : ChainTree) (rest : List PlacedToken),
      tokens = tree.tokens ++ rest ∧ Beyond 4 rest := by
  obtain ⟨stage, rest, rfl, beyond⟩ := exists_stageTree tokens accepted
  by_cases chainOver : Beyond 4 rest
  · exact ⟨.last stage, rest, rfl, chainOver⟩
  · obtain ⟨⟨token, span⟩, later, rfl, level⟩ := exists_of_level beyond chainOver
    obtain rfl : token = .bar := by
      cases token <;> first | rfl | cases level
    rw [Accepts, stage.complete?_tokens _ _ _ _ beyond] at accepted
    have read : Accepts reach
        ⟨blocks, finished, .stageStart ⟨stage.stage reach :: chain.stages, chain.start⟩, span.stop⟩
        later := (accepts_cons rfl).mp accepted
    obtain ⟨others, rest, rfl, othersOver⟩ := exists_chainTree later read
    refine ⟨.more stage span others, rest, ?_, othersOver⟩
    rw [ChainTree.tokens, List.append_assoc, List.cons_append]
termination_by (tokens.length, 1)

theorem exists_chainTrees (tokens : List PlacedToken) {blocks : List BlockDraft}
    {finished : List (Flow ProcCall)} {stop : Nat} {mayEnd : Bool} (within : ¬ Beyond 5 tokens)
    (accepted : Accepts reach ⟨blocks, finished, .chainStart mayEnd, stop⟩ tokens) :
    ∃ (trees : ChainTrees) (rest : List PlacedToken),
      tokens = trees.tokens ++ rest ∧ Beyond 5 rest := by
  have begun := accepted
  rw [Accepts, Draft.complete?_of_opening within] at begun
  obtain ⟨chain, rest, rfl, beyond⟩ := exists_chainTree tokens begun
  by_cases chainsOver : Beyond 5 rest
  · exact ⟨.last chain none, rest, by simp [ChainTrees.tokens, Token.optional], chainsOver⟩
  · obtain ⟨⟨token, span⟩, later, rfl, level⟩ := exists_of_level beyond chainsOver
    obtain rfl : token = .semicolon := by
      cases token <;> first | rfl | cases level
    rw [Accepts, chain.complete?_begins, chain.complete?_tokens _ _ _ _ beyond] at accepted
    by_cases ended : Beyond 5 later
    · exact ⟨.last chain (some span), later, by simp [ChainTrees.tokens, Token.optional], ended⟩
    · obtain ⟨others, rest, rfl, othersOver⟩ :=
        exists_chainTrees later ended ((accepts_cons rfl).mp accepted)
      refine ⟨.more chain span others, rest, ?_, othersOver⟩
      rw [ChainTrees.tokens, List.append_assoc, List.cons_append]
termination_by (tokens.length, 2)

end

/-- Accepted tokens have a derivation. -/
theorem exists_programTree {tokens : List PlacedToken}
    (accepted : Accepts reach .initial tokens) :
    ∃ tree : ProgramTree, tree.tokens = tokens := by
  by_cases empty : Beyond 5 tokens
  · rcases eq_nil_or_closes empty with rfl | ⟨span, rest, rfl⟩
    · exact ⟨.empty, rfl⟩
    · exact absurd accepted (not_accepts_cons rfl)
  · obtain ⟨trees, rest, rfl, beyond⟩ := exists_chainTrees tokens empty accepted
    rw [Accepts, Draft.initial, trees.complete?_tokens _ _ _ _ beyond] at accepted
    rcases eq_nil_or_closes beyond with rfl | ⟨span, rest, rfl⟩
    · exact ⟨.chains trees, (List.append_nil _).symm⟩
    · exact absurd accepted (not_accepts_cons rfl)

/-- Reading completes the program exactly if its tokens have a derivation. -/
theorem readChains_eq_ok_iff_exists {tokens : List PlacedToken} {chains : List (Flow ProcCall)} :
    readChains reach stop tokens = .ok chains ↔
      ∃ tree : ProgramTree, tree.tokens = tokens ∧ tree.flows reach = chains := by
  rw [Draft.readChains_eq_ok_iff]
  constructor
  · intro completed
    obtain ⟨tree, rfl⟩ : ∃ tree : ProgramTree, tree.tokens = tokens :=
      exists_programTree (by rw [Accepts, completed]; rfl)
    rw [tree.complete?_tokens] at completed
    exact ⟨tree, rfl, Option.some.inj completed⟩
  · rintro ⟨tree, rfl, rfl⟩
    exact tree.complete?_tokens

end Flowgraph
