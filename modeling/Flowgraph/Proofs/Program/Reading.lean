import Flowgraph.Proofs.Program.Unambiguous

/-!
# Reading what a derivation derives

A draft forgets how its last part came about as soon as that part is over.  Where a value,
an item, a proc or a list of chains is over, the draft may therefore be replaced by one in
a simpler phase without any effect on what the next tokens complete
(`complete?_of_value_over` and the lemmas after it).

With these replacements, reading the tokens of a derivation leads from the phase in which
the part begins to the phase in which it is over, with the part that the derivation
describes added to the draft.
-/

namespace Flowgraph

namespace Draft

/-- The chains of the program that the tokens complete, if they complete one. -/
def complete? (reach : Nat → Nat) (draft : Draft) (tokens : List PlacedToken) :
    Option (List (Flow ProcCall)) :=
  match draft.readOn reach tokens with
  | (final, []) =>
      if final.blocks.isEmpty then (final.finished? reach).map List.reverse else none
  | (_, _ :: _) => none

variable {reach : Nat → Nat}

theorem complete?_nil (draft : Draft) :
    draft.complete? reach [] =
      if draft.blocks.isEmpty then (draft.finished? reach).map List.reverse else none := rfl

/-- Tokens are read one by one. -/
theorem complete?_cons (draft : Draft) (token : PlacedToken) (rest : List PlacedToken) :
    draft.complete? reach (token :: rest) =
      (draft.next? reach token).bind fun following => following.complete? reach rest := by
  rw [complete?, readOn]
  cases draft.next? reach token with
  | none => rfl
  | some following => rfl

/-- Tokens are read as chains exactly if no token of them is refused and none is missing. -/
theorem readChains_eq_ok_iff {stop : Nat} {tokens : List PlacedToken}
    {chains : List (Flow ProcCall)} :
    readChains reach stop tokens = .ok chains ↔
      initial.complete? reach tokens = some chains := by
  rw [readChains, complete?]
  obtain ⟨final, unread⟩ := initial.readOn reach tokens
  cases unread with
  | cons token rest => simp
  | nil =>
      obtain ⟨blocks, finished, phase, stop⟩ := final
      cases blocks with
      | cons block outer => simp
      | nil =>
          cases ends : (Draft.mk [] finished phase stop).finished? reach with
          | none => simp [ends]
          | some chains => simp [ends]

/-! ## Where a part is over -/

variable {blocks : List BlockDraft} {finished : List (Flow ProcCall)} {stop : Nat}

/-- Two drafts complete the same programs if they end alike and go on alike. -/
theorem complete?_congr {draft other : Draft} {tokens : List PlacedToken}
    (ends : tokens = [] → draft.blocks = other.blocks ∧
      draft.finished? reach = other.finished? reach)
    (next : ∀ token ∈ tokens.head?, draft.next? reach token = other.next? reach token) :
    draft.complete? reach tokens = other.complete? reach tokens := by
  cases tokens with
  | nil =>
      obtain ⟨blocks, finished⟩ := ends rfl
      rw [complete?_nil, complete?_nil, blocks, finished]
  | cons token rest => rw [complete?_cons, complete?_cons, next token rfl]

/-- A value is over before a token that cannot go on with it. -/
theorem complete?_of_value_over {item : ItemDraft} {calls : List CallDraft}
    {comparison : Option Comparand} {term : Expr} {rest : List PlacedToken}
    (beyond : Beyond 1 rest) :
    complete? reach ⟨blocks, finished, .termEnd item calls comparison term, stop⟩ rest =
      complete? reach
        ⟨blocks, finished, .termEnd item calls none (finishValue comparison term), stop⟩ rest := by
  apply complete?_congr
  · rintro -
    cases calls <;> exact ⟨rfl, rfl⟩
  · rintro ⟨token, span⟩ member
    have level := beyond _ member
    cases token <;> cases calls <;> first | rfl | simp [Token.level] at level

/-- An item is over before a token that cannot go on with it. -/
theorem complete?_of_item_over {item : ItemDraft} {comparison : Option Comparand} {term : Expr}
    {rest : List PlacedToken} (beyond : Beyond 2 rest) :
    complete? reach ⟨blocks, finished, .termEnd item [] comparison term, stop⟩ rest =
      complete? reach
        ⟨blocks, finished, .itemStart item.chain (item.finish (finishValue comparison term)), stop⟩
        rest := by
  apply complete?_congr
  · rintro -
    exact ⟨rfl, rfl⟩
  · rintro ⟨token, span⟩ member
    have level := beyond _ member
    cases token <;> first | rfl | simp [Token.level] at level

/-- A proc is over before a token that cannot go on with it. -/
theorem complete?_of_proc_over {chain : ChainDraft} {proc : ProcDraft} {rest : List PlacedToken}
    (beyond : Beyond 3 rest) :
    complete? reach ⟨blocks, finished, .itemStart chain proc, stop⟩ rest =
      complete? reach
        ⟨blocks, finished, .blockEnd (chain.addProc proc (reach stop)), stop⟩ rest := by
  apply complete?_congr
  · rintro -
    exact ⟨rfl, rfl⟩
  · rintro ⟨token, span⟩ member
    have level := beyond _ member
    cases token <;> first | rfl | simp [Token.level] at level

/-- A chain is over before a token that cannot go on with it. -/
theorem complete?_of_chain_over {chain : ChainDraft} {rest : List PlacedToken}
    (beyond : Beyond 5 rest) :
    complete? reach ⟨blocks, finished, .blockEnd chain, stop⟩ rest =
      complete? reach ⟨blocks, chain.finish stop :: finished, .chainStart true, stop⟩ rest := by
  apply complete?_congr
  · rintro -
    exact ⟨rfl, rfl⟩
  · rintro ⟨token, span⟩ member
    have level := beyond _ member
    cases token <;> first | rfl | simp [Token.level] at level

theorem complete?_semicolon (chain : ChainDraft) (span : Span) (rest : List PlacedToken) :
    complete? reach ⟨blocks, finished, .blockEnd chain, stop⟩ (⟨.semicolon, span⟩ :: rest) =
      complete? reach ⟨blocks, chain.finish stop :: finished, .chainStart true, span.stop⟩ rest :=
  rfl

/-! ## Where a part begins -/

/-- An atom begins an argument. -/
theorem complete?_of_atom {chain : ChainDraft} {proc : ProcDraft} {tokens : List PlacedToken}
    (begins : Begins IsAtom tokens) :
    complete? reach ⟨blocks, finished, .itemStart chain proc, stop⟩ tokens =
      complete? reach
        ⟨blocks, finished, .termStart ⟨chain, proc, none⟩ [] none false, stop⟩ tokens := by
  obtain ⟨⟨token, span⟩, rest, rfl, atom⟩ := begins
  rw [complete?_cons, complete?_cons]
  cases token <;> first | rfl | cases atom

/-- Where a call may end, a term may begin all the same. -/
theorem complete?_of_argument {item : ItemDraft} {calls : List CallDraft} {mayClose : Bool}
    {tokens : List PlacedToken} (begins : ¬ Beyond 5 tokens) :
    complete? reach ⟨blocks, finished, .termStart item calls none mayClose, stop⟩ tokens =
      complete? reach ⟨blocks, finished, .termStart item calls none false, stop⟩ tokens := by
  obtain ⟨⟨token, span⟩, rest, rfl, level⟩ := exists_of_not_beyond begins
  rw [complete?_cons, complete?_cons]
  cases token <;> first | rfl | simp [Token.level] at level

/-- What opens a stage begins a chain. -/
theorem complete?_of_opening {mayEnd : Bool} {tokens : List PlacedToken}
    (begins : ¬ Beyond 5 tokens) :
    complete? reach ⟨blocks, finished, .chainStart mayEnd, stop⟩ tokens =
      complete? reach ⟨blocks, finished, .stageStart ⟨[], (extent tokens).start⟩, stop⟩ tokens := by
  obtain ⟨⟨token, span⟩, rest, rfl, level⟩ := exists_of_not_beyond begins
  rw [complete?_cons, complete?_cons, extent_cons_start]
  cases token <;> first | rfl | simp [Token.level] at level

end Draft

/-! ## Values -/

open Draft (complete?)

variable {reach : Nat → Nat} {blocks : List BlockDraft} {finished : List (Flow ProcCall)}

mutual

/-- The tokens of a term lead from where a term begins to where it has been read. -/
theorem TermTree.complete?_tokens (tree : TermTree) (item : ItemDraft) (calls : List CallDraft)
    (comparison : Option Comparand) (mayClose : Bool) (stop : Nat) (rest : List PlacedToken) :
    complete? reach ⟨blocks, finished, .termStart item calls comparison mayClose, stop⟩
        (tree.tokens ++ rest) =
      complete? reach
        ⟨blocks, finished, .termEnd item calls comparison tree.expr, tree.expr.span.stop⟩ rest := by
  cases tree with
  | call name opening arguments closing =>
      have read := arguments.complete?_tokens name [] item calls comparison true opening.stop
        closing rest
      rw [TermTree.tokens, List.cons_append, List.cons_append, List.append_assoc]
      exact read
  | _ => rfl

/-- The tokens of a value are read as that value, whatever has been read before. -/
theorem ValueTree.complete?_tokens (tree : ValueTree) (item : ItemDraft) (calls : List CallDraft)
    (mayClose : Bool) (stop : Nat) {rest : List PlacedToken} (beyond : Beyond 1 rest) :
    complete? reach ⟨blocks, finished, .termStart item calls none mayClose, stop⟩
        (tree.tokens ++ rest) =
      complete? reach
        ⟨blocks, finished, .termEnd item calls none tree.expr, tree.expr.span.stop⟩ rest := by
  cases tree with
  | term term => exact term.complete?_tokens item calls none mayClose stop rest
  | compare left operator sign right =>
      rw [ValueTree.tokens, List.append_assoc, List.cons_append, left.complete?_tokens]
      exact (right.complete?_tokens item calls (some ⟨left.expr, operator⟩) false sign.stop
        rest).trans (Draft.complete?_of_value_over beyond)

/-- The tokens of arguments lead to the end of the call, which is then a term. -/
theorem ValueTrees.complete?_tokens (trees : ValueTrees) (name : Ident) (done : List Expr)
    (item : ItemDraft) (calls : List CallDraft) (comparison : Option Comparand) (mayClose : Bool)
    (stop : Nat) (closing : Span) (rest : List PlacedToken) :
    complete? reach
        ⟨blocks, finished, .termStart item (⟨name, done, comparison⟩ :: calls) none mayClose, stop⟩
        (trees.tokens ++ ⟨.closeParenthesis, closing⟩ :: rest) =
      complete? reach
        ⟨blocks, finished,
          .termEnd item calls comparison
            (.call name (done.reverse ++ trees.exprs) (name.span.through closing)), closing.stop⟩
        rest := by
  cases trees with
  | last value =>
      rw [ValueTrees.tokens, value.complete?_tokens item _ mayClose stop (by simp [Token.level]),
        Draft.complete?_cons]
      simp [Draft.next?, Draft.afterTerm?, Draft.closeCall, Draft.advance, finishValue,
        ValueTrees.exprs]
  | more value comma later =>
      rw [ValueTrees.tokens, List.append_assoc, List.cons_append,
        value.complete?_tokens item _ mayClose stop (by simp [Token.level])]
      refine (later.complete?_tokens name (value.expr :: done) item calls comparison false
        comma.stop closing rest).trans ?_
      simp [ValueTrees.exprs]

end

/-! ## Procs -/

/-- The tokens of an item are read as that item, whatever has been read before. -/
theorem ItemTree.complete?_tokens (item : ItemTree) (chain : ChainDraft) (proc : ProcDraft)
    (stop : Nat) {rest : List PlacedToken} (beyond : Beyond 2 rest) :
    complete? reach ⟨blocks, finished, .itemStart chain proc, stop⟩ (item.tokens ++ rest) =
      complete? reach
        ⟨blocks, finished,
          .itemStart chain (ItemDraft.finish ⟨chain, proc, item.option⟩ item.value.expr),
          (extent item.tokens).stop⟩
        rest := by
  obtain ⟨option, value, comma⟩ := item
  have begun : ∃ stop',
      complete? reach ⟨blocks, finished, .itemStart chain proc, stop⟩
          ((ItemTree.mk option value comma).tokens ++ rest) =
        complete? reach
          ⟨blocks, finished, .termStart ⟨chain, proc, option⟩ [] none false, stop'⟩
          (value.tokens ++ (Token.comma.optional comma ++ rest)) := by
    rw [ItemTree.tokens, List.append_assoc, List.append_assoc]
    cases option with
    | none => exact ⟨stop, Draft.complete?_of_atom (value.begins.append _)⟩
    | some name => exact ⟨name.span.stop, rfl⟩
  obtain ⟨stop', begun⟩ := begun
  rw [begun, value.complete?_tokens _ _ _ _ (Beyond.optional .comma beyond (by decide) comma)]
  cases comma with
  | none =>
      have last : (extent (ItemTree.mk option value none).tokens).stop = value.expr.span.stop := by
        rw [ItemTree.tokens, Token.optional, List.append_nil,
          extent_append_stop _ value.begins.ne_nil, value.span_expr]
      rw [last]
      exact Draft.complete?_of_item_over beyond
  | some span =>
      have last : (extent (ItemTree.mk option value (some span)).tokens).stop = span.stop := by
        rw [ItemTree.tokens, Token.optional, ← List.append_assoc,
          extent_append_stop _ (List.cons_ne_nil _ _), extent_singleton]
      rw [last]
      rfl

/-- The place where the items end is that of the last token before them if there are none. -/
theorem ItemTree.complete?_tokens_list (items : List ItemTree) (chain : ChainDraft)
    (proc : ProcDraft) {earlier : List PlacedToken} (nonempty : earlier ≠ [])
    {rest : List PlacedToken} (beyond : Beyond 3 rest) :
    complete? reach ⟨blocks, finished, .itemStart chain proc, (extent earlier).stop⟩
        (items.flatMap ItemTree.tokens ++ rest) =
      complete? reach
        ⟨blocks, finished,
          .itemStart chain
            ⟨proc.name, (items.filterMap ItemTree.option?).reverse ++ proc.options,
              (items.filterMap ItemTree.argument?).reverse ++ proc.arguments⟩,
          (extent (earlier ++ items.flatMap ItemTree.tokens)).stop⟩
        rest := by
  induction items generalizing proc earlier with
  | nil => simp
  | cons item items ih =>
      have longer : earlier ++ item.tokens ≠ [] :=
        List.append_ne_nil_of_left_ne_nil nonempty item.tokens
      rw [List.flatMap_cons, List.append_assoc, item.complete?_tokens chain proc _
        (ItemTree.beyond_list items beyond), ← extent_append_stop earlier item.begins.ne_nil,
        ih _ longer, List.append_assoc]
      obtain ⟨option, value, comma⟩ := item
      cases option with
      | none => simp [ItemDraft.finish, List.filterMap_cons, ItemTree.option?, ItemTree.argument?]
      | some name => simp [ItemDraft.finish, ItemTree.option?, ItemTree.argument?]

/-- The tokens of a proc are read as its call, whatever has been read before. -/
theorem ProcTree.complete?_tokens (proc : ProcTree) (chain : ChainDraft) (stop : Nat)
    {rest : List PlacedToken} (beyond : Beyond 3 rest) :
    complete? reach ⟨blocks, finished, .stageStart chain, stop⟩ (proc.tokens ++ rest) =
      complete? reach
        ⟨blocks, finished, .blockEnd ⟨.step (proc.call reach) :: chain.stages, chain.start⟩,
          (extent proc.tokens).stop⟩
        rest := by
  obtain ⟨name, items⟩ := proc
  have begun : complete? reach ⟨blocks, finished, .stageStart chain, stop⟩
        ((ProcTree.mk name items).tokens ++ rest) =
      complete? reach
        ⟨blocks, finished, .itemStart chain ⟨name, [], []⟩, (extent [name.token]).stop⟩
        (items.flatMap ItemTree.tokens ++ rest) := rfl
  rw [begun, ItemTree.complete?_tokens_list items chain _ (List.cons_ne_nil _ _) beyond,
    Draft.complete?_of_proc_over beyond]
  simp [ChainDraft.addProc, ProcTree.call, ProcTree.tokens]

/-! ## Chains -/

/-- A chain that was read from its beginning is the chain that the derivation describes. -/
theorem ChainTree.finish_stages (tree : ChainTree) :
    ChainDraft.finish ⟨(tree.stages reach).reverse ++ [], (extent tree.tokens).start⟩
        (extent tree.tokens).stop =
      ⟨tree.stages reach, extent tree.tokens⟩ := by
  simp [ChainDraft.finish]

theorem ChainTree.complete?_begins (tree : ChainTree) (mayEnd : Bool) (stop : Nat)
    (rest : List PlacedToken) :
    complete? reach ⟨blocks, finished, .chainStart mayEnd, stop⟩ (tree.tokens ++ rest) =
      complete? reach
        ⟨blocks, finished, .stageStart ⟨[], (extent tree.tokens).start⟩, stop⟩
        (tree.tokens ++ rest) := by
  have within : ¬ Beyond 5 (tree.tokens ++ rest) :=
    (tree.begins.append rest).not_beyond fun token opening => Nat.le_trans opening.level (by decide)
  rw [Draft.complete?_of_opening within, extent_append_start tree.begins.ne_nil]

mutual

/-- The tokens of a stage are read as that stage, whatever has been read before. -/
theorem StageTree.complete?_tokens (tree : StageTree) (blocks : List BlockDraft)
    (finished : List (Flow ProcCall)) (chain : ChainDraft) (stop : Nat)
    {rest : List PlacedToken} (beyond : Beyond 3 rest) :
    complete? reach ⟨blocks, finished, .stageStart chain, stop⟩ (tree.tokens ++ rest) =
      complete? reach
        ⟨blocks, finished, .blockEnd ⟨tree.stage reach :: chain.stages, chain.start⟩,
          (extent tree.tokens).stop⟩
        rest := by
  cases tree with
  | proc proc => exact proc.complete?_tokens chain stop beyond
  | block opening branches closing =>
      have begun : complete? reach ⟨blocks, finished, .stageStart chain, stop⟩
            ((StageTree.block opening branches closing).tokens ++ rest) =
          complete? reach
            ⟨⟨finished, chain, opening.start⟩ :: blocks, [], .chainStart false, opening.stop⟩
            (branches.tokens ++ ⟨.closeParenthesis, closing⟩ :: rest) := by
        rw [StageTree.tokens, List.cons_append, List.append_assoc]
        rfl
      have last : (extent (StageTree.block opening branches closing).tokens).stop =
          closing.stop := by
        rw [StageTree.tokens, ← List.cons_append, extent_append_stop _ (List.cons_ne_nil _ _),
          extent_singleton]
      rw [begun, branches.complete?_tokens _ _ false opening.stop (by simp [Token.level]), last,
        Draft.complete?_cons]
      simp [Draft.next?, Draft.closeBlock?, Draft.finished?, BlockDraft.finish, StageTree.stage,
        Span.through]

/-- The tokens of a chain are read as its stages, whatever has been read before. -/
theorem ChainTree.complete?_tokens (tree : ChainTree) (blocks : List BlockDraft)
    (finished : List (Flow ProcCall)) (chain : ChainDraft) (stop : Nat)
    {rest : List PlacedToken} (beyond : Beyond 4 rest) :
    complete? reach ⟨blocks, finished, .stageStart chain, stop⟩ (tree.tokens ++ rest) =
      complete? reach
        ⟨blocks, finished, .blockEnd ⟨(tree.stages reach).reverse ++ chain.stages, chain.start⟩,
          (extent tree.tokens).stop⟩
        rest := by
  cases tree with
  | last stage =>
      rw [ChainTree.tokens, ChainTree.stages]
      exact stage.complete?_tokens blocks finished chain stop (beyond.mono (by decide))
  | more stage bar later =>
      rw [ChainTree.tokens, List.append_assoc, List.cons_append,
        stage.complete?_tokens blocks finished chain stop (by simp [Token.level])]
      have last : (extent (stage.tokens ++ ⟨.bar, bar⟩ :: later.tokens)).stop =
          (extent later.tokens).stop := by
        rw [List.append_cons, extent_append_stop _ later.begins.ne_nil]
      rw [last]
      refine (later.complete?_tokens blocks finished
        ⟨stage.stage reach :: chain.stages, chain.start⟩ bar.stop beyond).trans ?_
      rw [ChainTree.stages, List.reverse_cons, List.append_assoc, List.singleton_append]

theorem ChainTrees.complete?_tokens (trees : ChainTrees) (blocks : List BlockDraft)
    (finished : List (Flow ProcCall)) (mayEnd : Bool) (stop : Nat)
    {rest : List PlacedToken} (beyond : Beyond 5 rest) :
    complete? reach ⟨blocks, finished, .chainStart mayEnd, stop⟩ (trees.tokens ++ rest) =
      complete? reach
        ⟨blocks, (trees.flows reach).reverse ++ finished, .chainStart true,
          (extent trees.tokens).stop⟩
        rest := by
  cases trees with
  | last chain semicolon =>
      rw [ChainTrees.tokens, List.append_assoc, chain.complete?_begins,
        chain.complete?_tokens blocks finished _ stop
          (Beyond.optional .semicolon beyond (by decide) semicolon)]
      cases semicolon with
      | none =>
          rw [Token.optional, List.nil_append, Draft.complete?_of_chain_over beyond,
            chain.finish_stages, List.append_nil]
          rfl
      | some span =>
          rw [Token.optional, List.singleton_append, Draft.complete?_semicolon,
            chain.finish_stages, extent_append_stop _ (List.cons_ne_nil _ _), extent_singleton]
          rfl
  | more chain semicolon later =>
      rw [ChainTrees.tokens, List.append_assoc, List.cons_append, chain.complete?_begins,
        chain.complete?_tokens blocks finished _ stop (by simp [Token.level]),
        Draft.complete?_semicolon, chain.finish_stages,
        later.complete?_tokens blocks _ true semicolon.stop beyond, List.append_cons chain.tokens,
        extent_append_stop _ later.begins.ne_nil, ChainTrees.flows, List.reverse_cons,
        List.append_assoc, List.singleton_append]

end

/-- The tokens of a derivation complete the program that it describes. -/
theorem ProgramTree.complete?_tokens (tree : ProgramTree) :
    complete? reach .initial tree.tokens = some (tree.flows reach) := by
  cases tree with
  | empty => rfl
  | chains all =>
      rw [ProgramTree.tokens, ← List.append_nil all.tokens, Draft.initial,
        all.complete?_tokens [] [] true 0 (beyond_nil 5), Draft.complete?_nil]
      simp [Draft.finished?, ProgramTree.flows]

end Flowgraph
