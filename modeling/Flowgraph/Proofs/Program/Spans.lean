import Flowgraph.Proofs.Program.Acceptance
import Flowgraph.Proofs.Token.Division

/-!
# The places of the parts of a program

Every part of a program runs from the beginning of one token to the end of another that is
not before it, or to the end of the blanks and comments behind it.  Its place is therefore
in the text, and both of its ends are between characters (`spans_within_of_parse`).
-/

namespace Flowgraph

/-! ## Blanks and comments -/

/-- The blanks and comments that a text begins with are a part of it. -/
theorem exists_trivia (inComment : Bool) (text : List Char) :
    ∃ trivia rest, text = trivia ++ rest ∧
      triviaLength inComment text = Text.byteLength trivia := by
  induction text generalizing inComment with
  | nil => exact ⟨[], [], rfl, rfl⟩
  | cons c rest ih =>
      have longer : ∀ inside, ∃ trivia after, c :: rest = trivia ++ after ∧
          c.utf8Size + triviaLength inside rest = Text.byteLength trivia := by
        intro inside
        obtain ⟨trivia, after, split, length⟩ := ih inside
        exact ⟨c :: trivia, after, by rw [split, List.cons_append],
          by rw [length, Text.byteLength_cons]⟩
      rw [triviaLength]
      split_ifs
      · exact longer true
      · exact longer false
      · exact longer true
      · exact ⟨[], c :: rest, rfl, rfl⟩

/-- After the blanks and comments that follow an offset there is another place of the text. -/
theorem afterTrivia_within {text : List Char} {offset : Nat} (boundary : IsBoundary text offset) :
    (⟨offset, afterTrivia text offset⟩ : Span).Within text := by
  obtain ⟨before, after, rfl, rfl⟩ := boundary
  obtain ⟨trivia, rest, rfl, length⟩ := exists_trivia false after
  rw [afterTrivia_append, length]
  exact Span.within_append before trivia rest

/-- The offset after the blanks and comments, if the text can be cut where they begin. -/
def guardedAfterTrivia (text : List Char) (offset : Nat) : Option Nat :=
  (Text.dropBytes? offset text).map fun rest => offset + triviaLength false rest

/-- From a boundary on, blanks and comments can be skipped without a failure. -/
theorem guardedAfterTrivia_eq {text : List Char} {offset : Nat}
    (boundary : IsBoundary text offset) :
    guardedAfterTrivia text offset = some (afterTrivia text offset) := by
  obtain ⟨before, after, rfl, rfl⟩ := boundary
  rw [afterTrivia_append, guardedAfterTrivia, Text.dropBytes?_append, Option.map_some]

/-- From the beginning of one place in a text to the end of another is a place in it. -/
theorem Span.Within.to {text : List Char} {first last : Span} (firstWithin : first.Within text)
    (lastWithin : last.Within text) (ordered : first.start ≤ last.stop) :
    (⟨first.start, last.stop⟩ : Span).Within text :=
  ⟨ordered, lastWithin.bounded, firstWithin.starts, lastWithin.stops⟩

/-! ## Parts of a program -/

mutual

/-- The places of a value and of all its parts. -/
def Expr.spans : Expr → List Span
  | .number _ span => [span]
  | .string _ span => [span]
  | .moment _ span => [span]
  | .ident name => [name.span]
  | .call name arguments span => span :: name.span :: Expr.listSpans arguments
  | .compare left _ right span => span :: (left.spans ++ right.spans)

def Expr.listSpans : List Expr → List Span
  | [] => []
  | value :: rest => value.spans ++ Expr.listSpans rest

end

/-- The places of an option, of its name, and of all parts of its value. -/
def ProcOption.spans (option : ProcOption) : List Span :=
  option.span :: option.name.span :: option.value.spans

/-- The places of a call and of all its parts. -/
def ProcCall.spans (call : ProcCall) : List Span :=
  call.span :: call.name.span ::
    (call.options.flatMap ProcOption.spans ++ call.arguments.flatMap Expr.spans)

namespace Stage

mutual

/-- The places of a stage and of all its parts. -/
def spans : Stage ProcCall → List Span
  | step call => call.spans
  | parallel branches span => span :: branchSpans branches

def chainSpans : List (Stage ProcCall) → List Span
  | [] => []
  | stage :: rest => stage.spans ++ chainSpans rest

def branchSpans : List (Flow ProcCall) → List Span
  | [] => []
  | ⟨stages, span⟩ :: rest => span :: (chainSpans stages ++ branchSpans rest)

end

end Stage

/-- The places of a program and of all its parts. -/
def Program.spans (program : Program) : List Span :=
  program.span :: Stage.branchSpans program.chains

/-! ## Runs of tokens -/

/-- The place runs from the first to the last of some of the tokens, in their order. -/
def Spanned (tokens : List PlacedToken) (span : Span) : Prop :=
  ∃ part, part.Sublist tokens ∧ part ≠ [] ∧ span = extent part

/-- What some tokens span, more tokens span too. -/
theorem Spanned.mono {tokens more : List PlacedToken} {span : Span}
    (spanned : Spanned tokens span) (sublist : tokens.Sublist more) : Spanned more span := by
  obtain ⟨part, isPart, nonempty, place⟩ := spanned
  exact ⟨part, isPart.trans sublist, nonempty, place⟩

/-- Tokens span what they reach over. -/
theorem spanned_extent {tokens : List PlacedToken} (nonempty : tokens ≠ []) :
    Spanned tokens (extent tokens) :=
  ⟨tokens, .refl tokens, nonempty, rfl⟩

/-- Tokens span the place of each of them. -/
theorem spanned_of_mem {tokens : List PlacedToken} {token : PlacedToken}
    (member : token ∈ tokens) : Spanned tokens token.span :=
  ⟨[token], List.singleton_sublist.mpr member, List.cons_ne_nil _ _, (extent_singleton token).symm⟩

/-- Some of the tokens of a text reach over a place in it. -/
theorem extent_within {text : List Char} {part : List PlacedToken}
    (sublist : part.Sublist (lex text).tokens) (nonempty : part ≠ []) :
    (extent part).Within text := by
  obtain ⟨first, rest, rfl⟩ := List.exists_cons_of_ne_nil nonempty
  have isToken : ∀ token ∈ first :: rest, token ∈ (lex text).tokens :=
    fun token member => sublist.subset member
  have isLast := List.getLast_mem nonempty
  have within := (tokens_within (isToken first (List.mem_cons_self ..)))
  have ends := (tokens_within (isToken _ isLast))
  rw [extent_eq_through nonempty]
  refine within.2.to ends.2 ?_
  rcases List.mem_cons.mp isLast with same | later
  · rw [same]
    exact within.2.ordered
  · have ordered := (List.pairwise_cons.mp ((pairwise_tokens text).sublist sublist)).1 _ later
    exact within.1.le.trans (ordered.trans ends.2.ordered)

/-- What tokens of a text span is a place in it. -/
theorem Spanned.within {text : List Char} {tokens : List PlacedToken} {span : Span}
    (spanned : Spanned tokens span) (sublist : tokens.Sublist (lex text).tokens) :
    span.Within text := by
  obtain ⟨part, isPart, nonempty, rfl⟩ := spanned
  exact extent_within (isPart.trans sublist) nonempty

/-! ## Values -/

mutual

/-- All places in a term are spanned by its tokens. -/
theorem TermTree.spanned (tree : TermTree) :
    ∀ span ∈ tree.expr.spans, Spanned tree.tokens span := by
  cases tree with
  | number value span | string value span | moment text span =>
      intro place member
      rw [List.mem_singleton.mp member]
      exact spanned_of_mem (List.mem_cons_self ..)
  | ident name =>
      intro place member
      rw [List.mem_singleton.mp member]
      exact spanned_of_mem (List.mem_cons_self ..)
  | emptyCall name opening closing =>
      simp only [TermTree.expr, Expr.spans, Expr.listSpans, List.forall_mem_cons]
      exact ⟨spanned_extent (TermTree.emptyCall name opening closing).tokens_ne_nil,
        spanned_of_mem (List.mem_cons_self ..), by simp⟩
  | call name opening arguments closing =>
      have whole := spanned_extent (TermTree.call name opening arguments closing).tokens_ne_nil
      rw [← TermTree.span_expr] at whole
      simp only [TermTree.expr, Expr.spans, List.forall_mem_cons]
      refine ⟨whole, spanned_of_mem (List.mem_cons_self ..), fun span member => ?_⟩
      exact (arguments.spanned span member).mono
        (((List.sublist_append_left ..).cons _).cons _)

/-- All places in a value are spanned by its tokens. -/
theorem ValueTree.spanned (tree : ValueTree) :
    ∀ span ∈ tree.expr.spans, Spanned tree.tokens span := by
  cases tree with
  | term term => exact term.spanned
  | compare left operator sign right =>
      have nonempty : (ValueTree.compare left operator sign right).tokens ≠ [] := by
        simp [ValueTree.tokens]
      have whole := spanned_extent nonempty
      rw [← ValueTree.span_expr] at whole
      simp only [ValueTree.expr, Expr.spans, List.forall_mem_cons, List.forall_mem_append]
      refine ⟨whole, fun span member => ?_, fun span member => ?_⟩
      · exact (left.spanned span member).mono (List.sublist_append_left ..)
      · exact (right.spanned span member).mono
          ((List.sublist_cons_self ..).trans (List.sublist_append_right ..))

theorem ValueTrees.spanned (trees : ValueTrees) :
    ∀ span ∈ Expr.listSpans trees.exprs, Spanned trees.tokens span := by
  cases trees with
  | last value =>
      simp only [ValueTrees.exprs, Expr.listSpans, List.append_nil]
      exact value.spanned
  | more value comma rest =>
      simp only [ValueTrees.exprs, Expr.listSpans, List.forall_mem_append]
      refine ⟨fun span member => ?_, fun span member => ?_⟩
      · exact (value.spanned span member).mono (List.sublist_append_left ..)
      · exact (rest.spanned span member).mono
          ((List.sublist_cons_self ..).trans (List.sublist_append_right ..))

end

/-! ## Procs -/

namespace ItemTree

/-- The tokens of a value are tokens of its item. -/
theorem value_sublist (item : ItemTree) : item.value.tokens.Sublist item.tokens :=
  (List.sublist_append_left ..).trans (List.sublist_append_right ..)

/-- All places in an option are spanned by the tokens of its item. -/
theorem spanned_option {item : ItemTree} {option : ProcOption}
    (given : item.option? = some option) :
    ∀ span ∈ option.spans, Spanned item.tokens span := by
  obtain ⟨name, named, rfl⟩ := Option.map_eq_some_iff.mp given
  have part : (name.optionToken :: item.value.tokens).Sublist item.tokens := by
    rw [tokens, named]
    exact (List.sublist_append_left ..).cons_cons _
  have whole : name.span.through item.value.expr.span =
      extent (name.optionToken :: item.value.tokens) := by
    rw [← List.singleton_append, extent_append (List.cons_ne_nil _ _) item.value.begins.ne_nil,
      extent_singleton, ValueTree.span_expr]
    rfl
  simp only [ProcOption.spans, List.forall_mem_cons]
  refine ⟨?_, ?_, fun span member => ?_⟩
  · rw [whole]
    exact (spanned_extent (List.cons_ne_nil _ _)).mono part
  · have isName : name.optionToken ∈ name.optionToken :: item.value.tokens :=
      List.mem_cons_self ..
    exact (spanned_of_mem isName).mono part
  · exact (item.value.spanned span member).mono item.value_sublist

/-- All places in an argument are spanned by the tokens of its item. -/
theorem spanned_argument {item : ItemTree} {value : Expr} (given : item.argument? = some value) :
    ∀ span ∈ value.spans, Spanned item.tokens span := by
  simp only [argument?, Option.ite_none_right_eq_some, Option.some.injEq] at given
  obtain ⟨-, rfl⟩ := given
  exact fun span member => (item.value.spanned span member).mono item.value_sublist

end ItemTree

section Text

variable {text : List Char}

/-- All places in a call are in the text, also those behind its last token. -/
theorem ProcTree.within {proc : ProcTree} (sublist : proc.tokens.Sublist (lex text).tokens) :
    ∀ span ∈ (proc.call (afterTrivia text)).spans, span.Within text := by
  have items : ∀ item ∈ proc.items, item.tokens.Sublist (lex text).tokens := by
    intro item member
    exact ((List.sublist_flatten_of_mem (List.mem_map_of_mem member)).cons _).trans sublist
  have nonempty : proc.tokens ≠ [] := List.cons_ne_nil _ _
  simp only [ProcCall.spans, List.forall_mem_cons, List.forall_mem_append]
  refine ⟨?_, ?_, ?_, ?_⟩
  · have whole := extent_within sublist nonempty
    have trivia := afterTrivia_within whole.stops
    have start := extent_cons_start proc.name.token (proc.items.flatMap ItemTree.tokens)
    have reached := whole.to trivia (whole.ordered.trans trivia.ordered)
    rw [ProcTree.tokens, start] at reached
    exact reached
  · have isName : proc.name.token ∈ proc.tokens := List.mem_cons_self ..
    exact (spanned_of_mem isName).within sublist
  · intro span member
    obtain ⟨option, isOption, inOption⟩ := List.mem_flatMap.mp member
    obtain ⟨item, isItem, given⟩ := List.mem_filterMap.mp isOption
    exact (ItemTree.spanned_option given span inOption).within (items item isItem)
  · intro span member
    obtain ⟨value, isValue, inValue⟩ := List.mem_flatMap.mp member
    obtain ⟨item, isItem, given⟩ := List.mem_filterMap.mp isValue
    exact (ItemTree.spanned_argument given span inValue).within (items item isItem)

/-! ## Chains -/

mutual

/-- All places in a stage are in the text. -/
theorem StageTree.within {tree : StageTree} (sublist : tree.tokens.Sublist (lex text).tokens) :
    ∀ span ∈ (tree.stage (afterTrivia text)).spans, span.Within text := by
  cases tree with
  | proc proc => exact ProcTree.within sublist
  | block opening branches closing =>
      have whole := extent_within sublist (List.cons_ne_nil _ _)
      have ends : (StageTree.block opening branches closing).tokens =
          (⟨.openParenthesis, opening⟩ :: branches.tokens) ++ [⟨.closeParenthesis, closing⟩] := rfl
      rw [ends, extent_append (List.cons_ne_nil _ _) (List.cons_ne_nil _ _)] at whole
      have inner := ((List.sublist_append_left ..).cons _).trans sublist
      simp only [StageTree.stage, Stage.spans, List.forall_mem_cons]
      refine ⟨?_, ChainTrees.within inner⟩
      simpa [Span.through, extent_cons_start, extent_singleton] using whole

/-- All places in a chain are in the text. -/
theorem ChainTree.within {tree : ChainTree} (sublist : tree.tokens.Sublist (lex text).tokens) :
    ∀ span ∈ Stage.chainSpans (tree.stages (afterTrivia text)), span.Within text := by
  cases tree with
  | last stage =>
      simp only [ChainTree.stages, Stage.chainSpans, List.append_nil]
      exact StageTree.within sublist
  | more stage bar rest =>
      simp only [ChainTree.stages, Stage.chainSpans, List.forall_mem_append]
      exact ⟨StageTree.within ((List.sublist_append_left ..).trans sublist),
        ChainTree.within
          (((List.sublist_cons_self ..).trans (List.sublist_append_right ..)).trans sublist)⟩

theorem ChainTrees.within {trees : ChainTrees} (sublist : trees.tokens.Sublist (lex text).tokens) :
    ∀ span ∈ Stage.branchSpans (trees.flows (afterTrivia text)), span.Within text := by
  cases trees with
  | last chain semicolon =>
      have inner := (List.sublist_append_left ..).trans sublist
      simp only [ChainTrees.flows, Stage.branchSpans, List.append_nil, List.forall_mem_cons]
      exact ⟨extent_within inner chain.begins.ne_nil, ChainTree.within inner⟩
  | more chain semicolon rest =>
      have inner := (List.sublist_append_left ..).trans sublist
      simp only [ChainTrees.flows, Stage.branchSpans, List.forall_mem_cons, List.forall_mem_append]
      exact ⟨extent_within inner chain.begins.ne_nil, ChainTree.within inner,
        ChainTrees.within
          (((List.sublist_cons_self ..).trans (List.sublist_append_right ..)).trans sublist)⟩

end

/-- The tokens of a text, with the end of the text, reach over a place in it. -/
theorem tokensSpan_within (text : List Char) :
    (tokensSpan (Text.byteLength text) (lex text).tokens).Within text := by
  rcases eq_or_ne (lex text).tokens [] with empty | nonempty
  · have ends : IsBoundary text (Text.byteLength text) := ⟨text, [], by simp, rfl⟩
    rw [empty]
    exact ⟨Nat.le_refl _, Nat.le_refl _, ends, ends⟩
  · have whole := extent_within (.refl _) nonempty
    have same : tokensSpan (Text.byteLength text) (lex text).tokens = extent (lex text).tokens := by
      rw [extent, tokensSpan, tokensSpan, List.head?_eq_some_head nonempty,
        List.getLast?_eq_some_getLast nonempty]
    exact same ▸ whole

/-- The place of every part of a program is in the text that it was read from. -/
theorem spans_within_of_parse {program : Program} (parsed : (parse text).program = some program) :
    ∀ span ∈ program.spans, span.Within text := by
  rw [parse] at parsed
  cases read : readChains (afterTrivia text) (Text.byteLength text) (lex text).tokens with
  | error fault => simp [read] at parsed
  | ok chains =>
      obtain ⟨tree, derived, rfl⟩ := readChains_eq_ok_iff_exists.mp read
      simp only [read, Option.some.injEq] at parsed
      subst parsed
      have inner : tree.tokens.Sublist (lex text).tokens := derived ▸ .refl _
      simp only [Program.spans, List.forall_mem_cons]
      refine ⟨tokensSpan_within text, ?_⟩
      cases tree with
      | empty => simp [ProgramTree.flows, Stage.branchSpans]
      | chains all => exact ChainTrees.within inner

end Text

end Flowgraph
