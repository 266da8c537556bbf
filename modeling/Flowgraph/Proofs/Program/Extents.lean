import Flowgraph.Proofs.Program.Placement
import Flowgraph.Proofs.Token.Following

/-!
# The exact places of the parts of a program

A derivation says of every part of a program which tokens it consists of (`Part`).  The
place of a value, an option, a chain or a block runs from the first of these tokens to the
last.  The place of a call runs from its name to where the next token begins, or to the end
of the text if there is none (`Construct.Exact`).

The tokens of a program are the tokens of its procs, one proc after the other, with nothing
but bars, semicolons and parentheses between them (`Laid`).  As the place of a call takes in
all blanks and comments behind the call, the text between the places of two calls begins with
such a sign.
-/

namespace Flowgraph

/-! ## The parts of a program -/

/-- A part of a program that has a place. -/
inductive Construct where
  | value (value : Expr)
  | option (option : ProcOption)
  | call (call : ProcCall)
  | block (branches : List (Flow ProcCall)) (span : Span)
  | chain (chain : Flow ProcCall)

namespace Construct

def span : Construct → Span
  | value part => part.span
  | option part => part.span
  | call part => part.span
  | block _ place => place
  | chain part => part.span

end Construct

mutual

/-- A value and the values in it. -/
def Expr.constructs : Expr → List Construct
  | .call name arguments span =>
      .value (.call name arguments span) :: Expr.listConstructs arguments
  | .compare left operator right span =>
      .value (.compare left operator right span) :: (left.constructs ++ right.constructs)
  | atom => [.value atom]

def Expr.listConstructs : List Expr → List Construct
  | [] => []
  | value :: rest => value.constructs ++ Expr.listConstructs rest

end

/-- An option and the values in it. -/
def ProcOption.constructs (option : ProcOption) : List Construct :=
  .option option :: option.value.constructs

/-- A call and the options and values in it. -/
def ProcCall.constructs (call : ProcCall) : List Construct :=
  .call call ::
    (call.options.flatMap ProcOption.constructs ++ call.arguments.flatMap Expr.constructs)

namespace Stage

mutual

/-- A stage and all parts of it. -/
def constructs : Stage ProcCall → List Construct
  | step call => call.constructs
  | parallel branches span => .block branches span :: branchConstructs branches

def chainConstructs : List (Stage ProcCall) → List Construct
  | [] => []
  | stage :: rest => stage.constructs ++ chainConstructs rest

def branchConstructs : List (Flow ProcCall) → List Construct
  | [] => []
  | ⟨stages, span⟩ :: rest =>
      .chain ⟨stages, span⟩ :: (chainConstructs stages ++ branchConstructs rest)

end

end Stage

/-- All parts of a program. -/
def Program.constructs (program : Program) : List Construct :=
  Stage.branchConstructs program.chains

/-! ## The parts of a derivation -/

/-- A part of a program and the tokens that it consists of. -/
structure Part where
  construct : Construct
  tokens : List PlacedToken

mutual

/-- A term and the values in it. -/
def TermTree.parts : TermTree → List Part
  | .call name opening arguments closing =>
      ⟨.value (TermTree.call name opening arguments closing).expr,
        (TermTree.call name opening arguments closing).tokens⟩ :: arguments.parts
  | tree => [⟨.value tree.expr, tree.tokens⟩]

def ValueTree.parts : ValueTree → List Part
  | .term term => term.parts
  | .compare left operator sign right =>
      ⟨.value (ValueTree.compare left operator sign right).expr,
        (ValueTree.compare left operator sign right).tokens⟩ :: (left.parts ++ right.parts)

def ValueTrees.parts : ValueTrees → List Part
  | .last value => value.parts
  | .more value _ rest => value.parts ++ rest.parts

end

namespace ItemTree

/-- The option that an item gives, which its comma does not belong to. -/
def optionParts (item : ItemTree) : List Part :=
  match item.option with
  | some name =>
      ⟨.option ⟨name, item.value.expr, name.span.through item.value.expr.span⟩,
        name.optionToken :: item.value.tokens⟩ :: item.value.parts
  | none => []

/-- The argument that an item gives. -/
def argumentParts (item : ItemTree) : List Part :=
  if item.option.isNone then item.value.parts else []

end ItemTree

variable (reach : Nat → Nat)

/-- A proc, and its options and its arguments in the order in which the call lists them. -/
def ProcTree.parts (proc : ProcTree) : List Part :=
  ⟨.call (proc.call reach), proc.tokens⟩ ::
    (proc.items.flatMap ItemTree.optionParts ++ proc.items.flatMap ItemTree.argumentParts)

mutual

def StageTree.parts : StageTree → List Part
  | .proc proc => proc.parts reach
  | .block opening branches closing =>
      ⟨.block (branches.flows reach) (opening.through closing),
        (StageTree.block opening branches closing).tokens⟩ :: branches.parts

def ChainTree.parts : ChainTree → List Part
  | .last stage => stage.parts
  | .more stage _ rest => stage.parts ++ rest.parts

def ChainTrees.parts : ChainTrees → List Part
  | .last chain _ =>
      ⟨.chain ⟨chain.stages reach, extent chain.tokens⟩, chain.tokens⟩ :: chain.parts
  | .more chain _ rest =>
      ⟨.chain ⟨chain.stages reach, extent chain.tokens⟩, chain.tokens⟩ ::
        (chain.parts ++ rest.parts)

end

/-- All parts of a derivation, each with its tokens. -/
def ProgramTree.parts : ProgramTree → List Part
  | empty => []
  | chains all => all.parts reach

mutual

/-- The constructs of a term are those of its derivation. -/
theorem TermTree.constructs_expr (tree : TermTree) :
    tree.expr.constructs = tree.parts.map Part.construct := by
  cases tree with
  | call name opening arguments closing =>
      rw [TermTree.parts, List.map_cons, ← arguments.constructs_exprs]
      rfl
  | _ => rfl

/-- The constructs of a value are those of its derivation. -/
theorem ValueTree.constructs_expr (tree : ValueTree) :
    tree.expr.constructs = tree.parts.map Part.construct := by
  cases tree with
  | term term => exact term.constructs_expr
  | compare left operator sign right =>
      rw [ValueTree.parts, List.map_cons, List.map_append, ← left.constructs_expr,
        ← right.constructs_expr]
      rfl

theorem ValueTrees.constructs_exprs (trees : ValueTrees) :
    Expr.listConstructs trees.exprs = trees.parts.map Part.construct := by
  cases trees with
  | last value =>
      rw [ValueTrees.exprs, ValueTrees.parts, Expr.listConstructs, Expr.listConstructs,
        List.append_nil, value.constructs_expr]
  | more value comma rest =>
      rw [ValueTrees.exprs, ValueTrees.parts, Expr.listConstructs, List.map_append,
        value.constructs_expr, rest.constructs_exprs]

end

/-- The constructs of options are those of the items that give them. -/
theorem ItemTree.constructs_options (items : List ItemTree) :
    (items.filterMap ItemTree.option?).flatMap ProcOption.constructs =
      (items.flatMap ItemTree.optionParts).map Part.construct := by
  induction items with
  | nil => rfl
  | cons item items ih =>
      obtain ⟨option, value, comma⟩ := item
      cases option with
      | none => exact ih
      | some name =>
          rw [List.flatMap_cons, List.map_append, ← ih, optionParts, List.map_cons,
            ← value.constructs_expr]
          rfl

/-- The constructs of arguments are those of the items that give them. -/
theorem ItemTree.constructs_arguments (items : List ItemTree) :
    (items.filterMap ItemTree.argument?).flatMap Expr.constructs =
      (items.flatMap ItemTree.argumentParts).map Part.construct := by
  induction items with
  | nil => rfl
  | cons item items ih =>
      obtain ⟨option, value, comma⟩ := item
      cases option with
      | some name => exact ih
      | none =>
          rw [List.flatMap_cons, List.map_append, ← ih]
          exact congrArg (· ++ _) value.constructs_expr

/-- The constructs of a call are those of its derivation. -/
theorem ProcTree.constructs_call (proc : ProcTree) :
    (proc.call reach).constructs = (proc.parts reach).map Part.construct := by
  rw [ProcTree.parts, List.map_cons, List.map_append, ← ItemTree.constructs_options,
    ← ItemTree.constructs_arguments]
  rfl

mutual

/-- The constructs of a stage are those of its derivation. -/
theorem StageTree.constructs_stage (tree : StageTree) :
    (tree.stage reach).constructs = (tree.parts reach).map Part.construct := by
  cases tree with
  | proc proc => exact proc.constructs_call reach
  | block opening branches closing =>
      rw [StageTree.stage, StageTree.parts, Stage.constructs, List.map_cons,
        branches.constructs_flows]

/-- The constructs of a chain are those of its derivation. -/
theorem ChainTree.constructs_stages (tree : ChainTree) :
    Stage.chainConstructs (tree.stages reach) = (tree.parts reach).map Part.construct := by
  cases tree with
  | last stage =>
      rw [ChainTree.stages, ChainTree.parts, Stage.chainConstructs, Stage.chainConstructs,
        List.append_nil, stage.constructs_stage]
  | more stage bar rest =>
      rw [ChainTree.stages, ChainTree.parts, Stage.chainConstructs, List.map_append,
        stage.constructs_stage, rest.constructs_stages]

theorem ChainTrees.constructs_flows (trees : ChainTrees) :
    Stage.branchConstructs (trees.flows reach) = (trees.parts reach).map Part.construct := by
  cases trees with
  | last chain semicolon =>
      rw [ChainTrees.flows, ChainTrees.parts, Stage.branchConstructs, Stage.branchConstructs,
        List.append_nil, List.map_cons, chain.constructs_stages]
  | more chain semicolon rest =>
      rw [ChainTrees.flows, ChainTrees.parts, Stage.branchConstructs, List.map_cons,
        List.map_append, chain.constructs_stages, rest.constructs_flows]

end

/-- The parts of a derivation are the parts of the program that it describes. -/
theorem ProgramTree.constructs_program (tree : ProgramTree) (stop : Nat) :
    (tree.program reach stop).constructs = (tree.parts reach).map Part.construct := by
  cases tree with
  | empty => rfl
  | chains all => exact all.constructs_flows reach

/-! ## Exact places -/

/-- The place runs from the first of some tokens to the last. -/
def Span.RunsOver (tokens : List PlacedToken) (span : Span) : Prop :=
  ∃ first last, tokens.head? = some first ∧ tokens.getLast? = some last ∧
    span = ⟨first.span.start, last.span.stop⟩

/-- Tokens have their own place if there are any. -/
theorem tokensSpan_runsOver (stop : Nat) {tokens : List PlacedToken} (nonempty : tokens ≠ []) :
    (tokensSpan stop tokens).RunsOver tokens := by
  have first := List.head?_eq_some_head nonempty
  have last := List.getLast?_eq_some_getLast nonempty
  refine ⟨_, _, first, last, ?_⟩
  rw [tokensSpan, first, last]
  rfl

/-- Tokens reach exactly over themselves. -/
theorem extent_runsOver {tokens : List PlacedToken} (nonempty : tokens ≠ []) :
    (extent tokens).RunsOver tokens :=
  tokensSpan_runsOver 0 nonempty

/--
The place of a part of a program as its tokens say it, where others come after them and the
text stops at an offset.  A call ends where the next token begins, and this token ends the
proc that the call was written as.
-/
def Construct.Exact (stop : Nat) (tokens after : List PlacedToken) : Construct → Prop
  | .call part =>
      tokens.head? = some part.name.token ∧
        part.span = ⟨part.name.span.start, nextStart stop after⟩ ∧
        ∀ next ∈ after.head?, next.token ∈ [.bar, .semicolon, .closeParenthesis]
  | .value part => part.span.RunsOver tokens
  | .option part => part.span.RunsOver tokens
  | .block _ place => place.RunsOver tokens
  | .chain part => part.span.RunsOver tokens

/-- The tokens of a part stand together among all tokens, and they say its place. -/
def Part.Exact (stop : Nat) (all : List PlacedToken) (part : Part) : Prop :=
  ∃ before after, all = before ++ (part.tokens ++ after) ∧
    part.construct.Exact stop part.tokens after

section Exact

variable {stop : Nat} {all : List PlacedToken}

mutual

/-- Every part of a term is exactly where its own tokens are. -/
theorem TermTree.exact (tree : TermTree) {before after : List PlacedToken}
    (split : all = before ++ (tree.tokens ++ after)) :
    ∀ part ∈ tree.parts, part.Exact stop all := by
  have whole : Part.Exact stop all ⟨.value tree.expr, tree.tokens⟩ := by
    refine ⟨before, after, split, ?_⟩
    rw [Construct.Exact, tree.span_expr]
    exact extent_runsOver tree.tokens_ne_nil
  cases tree with
  | call name opening arguments closing =>
      have inner : all = (before ++ [name.token, ⟨.openParenthesis, opening⟩]) ++
          (arguments.tokens ++ ⟨.closeParenthesis, closing⟩ :: after) := by
        simp [split, TermTree.tokens]
      rw [TermTree.parts, List.forall_mem_cons]
      exact ⟨whole, arguments.exact inner⟩
  | _ => exact List.forall_mem_singleton.mpr whole

/-- Every part of a value is exactly where its own tokens are. -/
theorem ValueTree.exact (tree : ValueTree) {before after : List PlacedToken}
    (split : all = before ++ (tree.tokens ++ after)) :
    ∀ part ∈ tree.parts, part.Exact stop all := by
  cases tree with
  | term term => exact term.exact split
  | compare left operator sign right =>
      have first : all = before ++
          (left.tokens ++ ⟨.comparison operator, sign⟩ :: (right.tokens ++ after)) := by
        simp [split, ValueTree.tokens]
      have second : all = (before ++ (left.tokens ++ [⟨.comparison operator, sign⟩])) ++
          (right.tokens ++ after) := by
        simp [split, ValueTree.tokens]
      rw [ValueTree.parts, List.forall_mem_cons, List.forall_mem_append]
      refine ⟨⟨before, after, split, ?_⟩, left.exact first, right.exact second⟩
      rw [Construct.Exact, ValueTree.span_expr]
      exact extent_runsOver (by simp [ValueTree.tokens])

theorem ValueTrees.exact (trees : ValueTrees) {before after : List PlacedToken}
    (split : all = before ++ (trees.tokens ++ after)) :
    ∀ part ∈ trees.parts, part.Exact stop all := by
  cases trees with
  | last value => exact value.exact split
  | more value comma rest =>
      have first : all = before ++ (value.tokens ++ ⟨.comma, comma⟩ :: (rest.tokens ++ after)) := by
        simp [split, ValueTrees.tokens]
      have later : all = (before ++ (value.tokens ++ [⟨.comma, comma⟩])) ++
          (rest.tokens ++ after) := by
        simp [split, ValueTrees.tokens]
      rw [ValueTrees.parts, List.forall_mem_append]
      exact ⟨value.exact first, rest.exact later⟩

end

namespace ItemTree

variable (item : ItemTree) {before after : List PlacedToken}
  (split : all = before ++ (item.tokens ++ after))

include split

/-- Every part of an option is exactly where its own tokens are. -/
theorem exact_option : ∀ part ∈ item.optionParts, part.Exact stop all := by
  obtain ⟨option, value, comma⟩ := item
  cases option with
  | none => simp [optionParts]
  | some name =>
      have inner : all = (before ++ [name.optionToken]) ++
          (value.tokens ++ (Token.comma.optional comma ++ after)) := by
        simp [split, tokens]
      rw [optionParts, List.forall_mem_cons]
      refine ⟨⟨before, Token.comma.optional comma ++ after, by simp [split, tokens], ?_⟩,
        value.exact inner⟩
      have whole := extent_append (List.cons_ne_nil name.optionToken []) value.begins.ne_nil
      rw [extent_singleton, ← ValueTree.span_expr] at whole
      exact whole ▸ extent_runsOver (List.cons_ne_nil _ _)

/-- Every part of an argument is exactly where its own tokens are. -/
theorem exact_argument : ∀ part ∈ item.argumentParts, part.Exact stop all := by
  obtain ⟨option, value, comma⟩ := item
  cases option with
  | some name => simp [argumentParts]
  | none =>
      have inner : all = before ++ (value.tokens ++ (Token.comma.optional comma ++ after)) := by
        simp [split, tokens]
      exact value.exact inner

end ItemTree

/-! ## Exact places of chains -/

/-- After the blanks and comments behind a token the next token begins, or the text ends. -/
def ReachesNext (reach : Nat → Nat) (stop : Nat) (all : List PlacedToken) : Prop :=
  ∀ earlier token later, all = earlier ++ token :: later →
    reach token.span.stop = nextStart stop later

variable {reach : Nat → Nat}

/-- The place of a call ends where the token behind its last token begins. -/
theorem ProcTree.stop_call (proc : ProcTree) (reaches : ReachesNext reach stop all)
    {before after : List PlacedToken} (split : all = before ++ (proc.tokens ++ after)) :
    (proc.call reach).span.stop = nextStart stop after := by
  have nonempty : proc.tokens ≠ [] := List.cons_ne_nil _ _
  have ends : all = (before ++ proc.tokens.dropLast) ++ proc.tokens.getLast nonempty :: after := by
    rw [split, List.append_assoc, List.append_cons proc.tokens.dropLast,
      List.dropLast_append_getLast]
  rw [ProcTree.call, extent_eq_through nonempty]
  exact reaches _ _ _ ends

/-- A call reaches up to the token behind it, and its parts are where their tokens are. -/
theorem ProcTree.exact (proc : ProcTree) (reaches : ReachesNext reach stop all)
    {before after : List PlacedToken} (split : all = before ++ (proc.tokens ++ after))
    (beyond : Beyond 3 after) :
    ∀ part ∈ proc.parts reach, part.Exact stop all := by
  have item_split : ∀ item ∈ proc.items, ∃ earlier later,
      all = earlier ++ (item.tokens ++ later) := by
    intro item member
    obtain ⟨first, last, items⟩ := List.append_of_mem member
    refine ⟨before ++ proc.name.token :: first.flatMap ItemTree.tokens,
      last.flatMap ItemTree.tokens ++ after, ?_⟩
    simp [split, ProcTree.tokens, items]
  simp only [ProcTree.parts, List.forall_mem_cons, List.forall_mem_append]
  refine ⟨⟨before, after, split, rfl, ?_, ?_⟩, fun part member => ?_, fun part member => ?_⟩
  · exact congrArg (Span.mk _) (proc.stop_call reaches split)
  · intro next member
    have level := beyond next member
    cases token : next.token <;> simp_all [Token.level]
  · obtain ⟨item, isItem, isPart⟩ := List.mem_flatMap.mp member
    obtain ⟨earlier, later, inner⟩ := item_split item isItem
    exact item.exact_option inner part isPart
  · obtain ⟨item, isItem, isPart⟩ := List.mem_flatMap.mp member
    obtain ⟨earlier, later, inner⟩ := item_split item isItem
    exact item.exact_argument inner part isPart

mutual

/-- Every part of a stage is exactly where it belongs. -/
theorem StageTree.exact (tree : StageTree) (reaches : ReachesNext reach stop all)
    {before after : List PlacedToken} (split : all = before ++ (tree.tokens ++ after))
    (beyond : Beyond 3 after) :
    ∀ part ∈ tree.parts reach, part.Exact stop all := by
  cases tree with
  | proc proc => exact proc.exact reaches split beyond
  | block opening branches closing =>
      have inner : all = (before ++ [⟨.openParenthesis, opening⟩]) ++
          (branches.tokens ++ ⟨.closeParenthesis, closing⟩ :: after) := by
        simp [split, StageTree.tokens]
      rw [StageTree.parts, List.forall_mem_cons]
      refine ⟨⟨before, after, split, ?_⟩, branches.exact reaches inner (by simp [Token.level])⟩
      exact ⟨⟨.openParenthesis, opening⟩, ⟨.closeParenthesis, closing⟩, rfl,
        List.getLast?_concat (l := _ :: branches.tokens), rfl⟩

/-- Every part of a chain is exactly where it belongs. -/
theorem ChainTree.exact (tree : ChainTree) (reaches : ReachesNext reach stop all)
    {before after : List PlacedToken} (split : all = before ++ (tree.tokens ++ after))
    (beyond : Beyond 3 after) :
    ∀ part ∈ tree.parts reach, part.Exact stop all := by
  cases tree with
  | last stage => exact stage.exact reaches split beyond
  | more stage bar rest =>
      have first : all = before ++ (stage.tokens ++ ⟨.bar, bar⟩ :: (rest.tokens ++ after)) := by
        simp [split, ChainTree.tokens]
      have later : all = (before ++ (stage.tokens ++ [⟨.bar, bar⟩])) ++ (rest.tokens ++ after) := by
        simp [split, ChainTree.tokens]
      rw [ChainTree.parts, List.forall_mem_append]
      exact ⟨stage.exact reaches first (by simp [Token.level]), rest.exact reaches later beyond⟩

theorem ChainTrees.exact (trees : ChainTrees) (reaches : ReachesNext reach stop all)
    {before after : List PlacedToken} (split : all = before ++ (trees.tokens ++ after))
    (beyond : Beyond 5 after) :
    ∀ part ∈ trees.parts reach, part.Exact stop all := by
  cases trees with
  | last chain semicolon =>
      have first : all = before ++
          (chain.tokens ++ (Token.semicolon.optional semicolon ++ after)) := by
        simp [split, ChainTrees.tokens]
      rw [ChainTrees.parts, List.forall_mem_cons]
      exact ⟨⟨before, _, first, extent_runsOver chain.begins.ne_nil⟩,
        chain.exact reaches first (Beyond.optional .semicolon beyond (by decide) semicolon)⟩
  | more chain semicolon rest =>
      have first : all = before ++
          (chain.tokens ++ ⟨.semicolon, semicolon⟩ :: (rest.tokens ++ after)) := by
        simp [split, ChainTrees.tokens]
      have later : all = (before ++ (chain.tokens ++ [⟨.semicolon, semicolon⟩])) ++
          (rest.tokens ++ after) := by
        simp [split, ChainTrees.tokens]
      rw [ChainTrees.parts, List.forall_mem_cons, List.forall_mem_append]
      exact ⟨⟨before, _, first, extent_runsOver chain.begins.ne_nil⟩,
        chain.exact reaches first (by simp [Token.level]), rest.exact reaches later beyond⟩

end

/-- Every part of a whole program is exactly where its tokens are. -/
theorem ProgramTree.exact (tree : ProgramTree) (reaches : ReachesNext reach stop all)
    (derived : tree.tokens = all) :
    ∀ part ∈ tree.parts reach, part.Exact stop all := by
  cases tree with
  | empty => simp [ProgramTree.parts]
  | chains trees =>
      have split : all = [] ++ (trees.tokens ++ []) := by simp [← derived, ProgramTree.tokens]
      exact trees.exact reaches split (beyond_nil 5)

end Exact

/-! ## The signs between procs -/

/-- The signs that can stand between procs. -/
def Token.signs : List Token :=
  [.bar, .semicolon, .openParenthesis, .closeParenthesis]

/-- The tokens are those of the procs, one proc after the other, with signs around them. -/
inductive Laid : List PlacedToken → List ProcTree → Prop
  | nil : Laid [] []
  | sign {sign : PlacedToken} {tokens : List PlacedToken} {procs : List ProcTree} :
      sign.token ∈ Token.signs → Laid tokens procs → Laid (sign :: tokens) procs
  | proc (proc : ProcTree) {tokens : List PlacedToken} {procs : List ProcTree} :
      Laid tokens procs → Laid (proc.tokens ++ tokens) (proc :: procs)

namespace Laid

variable {tokens others : List PlacedToken} {procs later : List ProcTree}

/-- A sign alone has no procs around it. -/
theorem single {sign : PlacedToken} (isSign : sign.token ∈ Token.signs) : Laid [sign] [] :=
  nil.sign isSign

/-- Signs and procs go on with signs and procs. -/
theorem append (laid : Laid tokens procs) (laidLater : Laid others later) :
    Laid (tokens ++ others) (procs ++ later) := by
  induction laid with
  | nil => exact laidLater
  | sign isSign _ ih => exact ih.sign isSign
  | proc proc _ ih =>
      rw [List.append_assoc]
      exact ih.proc proc

/-- Before the first proc there are only signs. -/
theorem exists_first {proc : ProcTree} (laid : Laid tokens (proc :: later)) :
    ∃ signs after, tokens = signs ++ (proc.tokens ++ after) ∧
      ∀ sign ∈ signs, sign.token ∈ Token.signs := by
  generalize listed : proc :: later = procs at laid
  induction laid with
  | nil => cases listed
  | sign isSign _ ih =>
      obtain ⟨signs, after, rfl, areSigns⟩ := ih listed
      exact ⟨_ :: signs, after, rfl, List.forall_mem_cons.mpr ⟨isSign, areSigns⟩⟩
  | proc first _ _ =>
      obtain ⟨rfl, rfl⟩ := List.cons.inj listed
      exact ⟨[], _, rfl, by simp⟩

/-- Between two procs that follow each other there are only signs. -/
theorem exists_between {earlier : List ProcTree} {proc next : ProcTree}
    (laid : Laid tokens (earlier ++ proc :: next :: later)) :
    ∃ before signs after, tokens = before ++ (proc.tokens ++ (signs ++ (next.tokens ++ after))) ∧
      ∀ sign ∈ signs, sign.token ∈ Token.signs := by
  generalize listed : earlier ++ proc :: next :: later = procs at laid
  induction laid generalizing earlier with
  | nil => simp at listed
  | sign isSign _ ih =>
      obtain ⟨before, signs, after, rfl, areSigns⟩ := ih listed
      exact ⟨_ :: before, signs, after, rfl, areSigns⟩
  | proc first laidRest ih =>
      cases earlier with
      | nil =>
          obtain ⟨rfl, rfl⟩ := List.cons.inj listed
          obtain ⟨signs, after, rfl, areSigns⟩ := laidRest.exists_first
          exact ⟨[], signs, after, rfl, areSigns⟩
      | cons isFirst others =>
          obtain ⟨before, signs, after, rfl, areSigns⟩ := ih (List.cons.inj listed).2
          exact ⟨first.tokens ++ before, signs, after, (List.append_assoc ..).symm, areSigns⟩

/-- A semicolon may or may not follow. -/
theorem optional (laid : Laid tokens procs) (place : Option Span) :
    Laid (tokens ++ Token.semicolon.optional place) procs := by
  cases place with
  | none => rwa [Token.optional, List.append_nil]
  | some span =>
      have sign : Laid [⟨.semicolon, span⟩] [] := single (by simp [Token.signs])
      have ended := laid.append sign
      rwa [List.append_nil] at ended

end Laid

mutual

/-- The tokens of a stage are those of its procs, with signs between them. -/
theorem StageTree.laid (tree : StageTree) : Laid tree.tokens tree.procs := by
  cases tree with
  | proc proc =>
      have laid := Laid.nil.proc proc
      rwa [List.append_nil] at laid
  | block opening branches closing =>
      have sign : Laid [⟨.closeParenthesis, closing⟩] [] := .single (by simp [Token.signs])
      have closed := branches.laid.append sign
      rw [List.append_nil] at closed
      exact closed.sign (by simp [Token.signs])

/-- The tokens of a chain are those of its procs, with signs between them. -/
theorem ChainTree.laid (tree : ChainTree) : Laid tree.tokens tree.procs := by
  cases tree with
  | last stage => exact stage.laid
  | more stage bar rest => exact stage.laid.append (rest.laid.sign (by simp [Token.signs]))

/-- The tokens of chains are those of their procs and signs. -/
theorem ChainTrees.laid (trees : ChainTrees) : Laid trees.tokens trees.procs := by
  cases trees with
  | last chain semicolon => exact chain.laid.optional semicolon
  | more chain semicolon rest => exact chain.laid.append (rest.laid.sign (by simp [Token.signs]))

end

/-- The tokens of a program are those of its procs, with signs between them. -/
theorem ProgramTree.laid (tree : ProgramTree) : Laid tree.tokens tree.procs := by
  cases tree with
  | empty => exact .nil
  | chains all => exact all.laid

/-! ## Programs -/

/-- In a text without strays, what follows a token and is skipped ends at the next token. -/
theorem reachesNext_of_lex {text : List Char} (clean : (lex text).strays = []) :
    ReachesNext (afterTrivia text) (Text.byteLength text) (lex text).tokens :=
  fun _ _ _ split => afterTrivia_stop clean split

/-- The text between the places of two calls that follow each other. -/
def SignsBetween (text : List Char) (call next : ProcCall) : Prop :=
  ∃ inner : List Piece, inner <:+: pieces text ∧
    Text.slice? text call.span.stop next.span.start = some (inner.flatMap Piece.text) ∧
    ∀ piece ∈ inner, piece.lexeme = .trivia ∨ ∃ sign ∈ Token.signs, piece.lexeme = .token sign

/-- Between two calls that follow each other there are only signs, blanks and comments. -/
theorem signsBetween_of_procs {text : List Char} (clean : (lex text).strays = [])
    {tree : ProgramTree} (derived : tree.tokens = (lex text).tokens)
    {earlier later : List ProcTree} {proc next : ProcTree}
    (listed : tree.procs = earlier ++ proc :: next :: later) :
    SignsBetween text (proc.call (afterTrivia text)) (next.call (afterTrivia text)) := by
  have laid := tree.laid
  rw [listed] at laid
  obtain ⟨before, signs, after, split, areSigns⟩ := laid.exists_between
  rw [derived] at split
  have stop := proc.stop_call (reachesNext_of_lex clean) split
  have named : (lex text).tokens = (before ++ proc.tokens) ++
      (signs ++ next.name.token :: (next.items.flatMap ItemTree.tokens ++ after)) := by
    simp only [split, ProcTree.tokens, List.append_assoc, List.cons_append]
  obtain ⟨inner, part, slice, lexemes⟩ :=
    exists_pieces_between clean (Text.byteLength text) named
  refine ⟨inner, part, ?_, fun piece member => ?_⟩
  · have start : (next.call (afterTrivia text)).span.start = next.name.token.span.start := rfl
    rw [stop, start, ProcTree.tokens, List.cons_append]
    exact slice
  · refine (lexemes piece member).imp_right ?_
    rintro ⟨sign, isSign, lexeme⟩
    exact ⟨sign.token, areSigns sign isSign, lexeme⟩

/--
The tokens of a text that is read without any fault have one derivation, the parts of the
program are the parts of the derivation, and each is exactly where its tokens are; a program
that has a chain runs from the first token to the last.  The places of the calls are in the
order of the text and do not overlap, and between one and the next there is nothing but
bars, semicolons, parentheses, blanks and comments.
-/
theorem spans_exact_of_parse {text : List Char} {program : Program}
    (parsed : parse text = ⟨some program, []⟩) :
    ∃ tree : ProgramTree, tree.tokens = (lex text).tokens ∧
      (∀ other : ProgramTree, other.tokens = (lex text).tokens → other = tree) ∧
      program = tree.program (afterTrivia text) (Text.byteLength text) ∧
      program.constructs = (tree.parts (afterTrivia text)).map Part.construct ∧
      (∀ part ∈ tree.parts (afterTrivia text),
        part.Exact (Text.byteLength text) (lex text).tokens) ∧
      (program.chains ≠ [] → program.span.RunsOver (lex text).tokens) ∧
      ((Stage.branchSteps program.chains).Pairwise fun call later =>
        call.span.stop ≤ later.span.start) ∧
      ∀ earlier call next later,
        Stage.branchSteps program.chains = earlier ++ call :: next :: later →
          SignsBetween text call next := by
  have clean := strays_eq_nil_of_parse parsed
  have apart := pairwise_calls_of_parse parsed
  obtain ⟨tree, derived⟩ := exists_tokens_of_parse_eq parsed
  rw [parse_eq_of_tokens clean derived] at parsed
  cases parsed
  refine ⟨tree, derived, fun other same => ProgramTree.tokens_injective (same.trans derived.symm),
    rfl, tree.constructs_program _ _, tree.exact (reachesNext_of_lex clean) derived, ?_, apart, ?_⟩
  · intro nonempty
    cases tree with
    | empty => exact absurd rfl nonempty
    | chains trees =>
        rw [← derived]
        exact tokensSpan_runsOver _ trees.begins.ne_nil
  · intro earlier call next later listed
    rw [ProgramTree.program, tree.branchSteps_flows, List.map_eq_append_iff] at listed
    obtain ⟨first, rest, procs, -, calls⟩ := listed
    obtain ⟨proc, behind, rfl, rfl, others⟩ := List.map_eq_cons_iff.mp calls
    obtain ⟨following, last, rfl, rfl, -⟩ := List.map_eq_cons_iff.mp others
    exact signsBetween_of_procs clean derived procs

/-- Two calls with a comment and a bar between them, and a semicolon behind a blank. -/
def commentedText : List Char :=
  "read x // rows\n | sort ;".toList

/-- The derivation of that text. -/
def commentedTree : ProgramTree :=
  .chains (.last
    (.more (.proc ⟨⟨"read", ⟨0, 4⟩⟩, [⟨none, .term (.ident ⟨"x", ⟨5, 6⟩⟩), none⟩]⟩) ⟨16, 17⟩
      (.last (.proc ⟨⟨"sort", ⟨18, 22⟩⟩, []⟩)))
    (some ⟨23, 24⟩))

/-- The first call ends where the bar begins, and the second where the semicolon does. -/
theorem spans_exact_of_commentedText :
    ∃ program, parse commentedText = ⟨some program, []⟩ ∧
      program.span.RunsOver (lex commentedText).tokens ∧
      ∃ call next, Stage.branchSteps program.chains = [call, next] ∧ call.span = ⟨0, 16⟩ ∧
        next.span = ⟨18, 23⟩ ∧ SignsBetween commentedText call next := by
  have clean : (lex commentedText).strays = [] := by decide
  have derived : commentedTree.tokens = (lex commentedText).tokens := by decide
  have parsed := parse_eq_of_tokens clean derived
  obtain ⟨-, -, -, -, -, -, whole, -, between⟩ := spans_exact_of_parse parsed
  exact ⟨_, parsed, whole (List.cons_ne_nil _ _), _, _, rfl, by decide, by decide,
    between [] _ _ [] rfl⟩

end Flowgraph
