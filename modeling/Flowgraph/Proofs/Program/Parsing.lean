import Flowgraph.Proofs.Program.Acceptance
import Flowgraph.Proofs.Token.Slices
import Mathlib.Data.List.Perm.Basic

/-!
# Programs and their names

A text without stray characters is a program exactly if its tokens have a derivation, and
the program is then the one that the derivation describes.

In this program no name is lost and none is there twice.  The names of values stand in the
order of the text; the names of a proc call are the same up to the order of its options
and its arguments, which are listed apart.
-/

namespace Flowgraph

/-- The name that a token stands for as an identifier. -/
def identifier? : PlacedToken → Option Ident
  | ⟨.identifier name, span⟩ => some ⟨name, span⟩
  | _ => none

/-- The name that a token stands for as the name of an option. -/
def optionName? : PlacedToken → Option Ident
  | ⟨.optionName name, span⟩ => some ⟨name, span⟩
  | _ => none

/-! ## The names of a program -/

mutual

/-- The names in a value, of calls and by themselves, in the order of the text. -/
def Expr.identifiers : Expr → List Ident
  | .ident name => [name]
  | .call name arguments _ => name :: Expr.listIdentifiers arguments
  | .compare left _ right _ => left.identifiers ++ right.identifiers
  | _ => []

def Expr.listIdentifiers : List Expr → List Ident
  | [] => []
  | first :: rest => first.identifiers ++ Expr.listIdentifiers rest

end

/-- The names of a call: its own, and those in its values. -/
def ProcCall.identifiers (call : ProcCall) : List Ident :=
  call.name :: (call.options.flatMap (fun option => option.value.identifiers) ++
    call.arguments.flatMap Expr.identifiers)

def ProcCall.optionNames (call : ProcCall) : List Ident :=
  call.options.map ProcOption.name

/-- The names of all calls of a program, call by call. -/
def Program.identifiers (program : Program) : List Ident :=
  (Stage.branchSteps program.chains).flatMap ProcCall.identifiers

def Program.optionNames (program : Program) : List Ident :=
  (Stage.branchSteps program.chains).flatMap ProcCall.optionNames

/-! ## The names of a derivation -/

mutual

/-- The identifiers of a term are those among its tokens, in their order. -/
theorem TermTree.identifiers_expr (tree : TermTree) :
    tree.expr.identifiers = tree.tokens.filterMap identifier? := by
  cases tree with
  | call name opening arguments closing =>
      simp [TermTree.expr, TermTree.tokens, Expr.identifiers, arguments.identifiers_exprs,
        List.filterMap_cons, Ident.token, identifier?]
  | _ => rfl

/-- The identifiers of a value are those among its tokens, in their order. -/
theorem ValueTree.identifiers_expr (tree : ValueTree) :
    tree.expr.identifiers = tree.tokens.filterMap identifier? := by
  cases tree with
  | term term => exact term.identifiers_expr
  | compare left operator sign right =>
      simp [ValueTree.expr, ValueTree.tokens, Expr.identifiers, left.identifiers_expr,
        right.identifiers_expr, List.filterMap_cons, identifier?]

/-- The identifiers of arguments are those among their tokens, in their order. -/
theorem ValueTrees.identifiers_exprs (trees : ValueTrees) :
    Expr.listIdentifiers trees.exprs = trees.tokens.filterMap identifier? := by
  cases trees with
  | last value =>
      simp [ValueTrees.exprs, ValueTrees.tokens, Expr.listIdentifiers, value.identifiers_expr]
  | more value comma rest =>
      simp [ValueTrees.exprs, ValueTrees.tokens, Expr.listIdentifiers, value.identifiers_expr,
        rest.identifiers_exprs, List.filterMap_cons, identifier?]

end

mutual

/-- A term has no options in it. -/
theorem TermTree.optionNames_tokens (tree : TermTree) :
    tree.tokens.filterMap optionName? = [] := by
  cases tree with
  | call name opening arguments closing =>
      have inner := arguments.optionNames_tokens
      rw [TermTree.tokens, List.filterMap_cons, List.filterMap_cons, List.filterMap_append, inner]
      rfl
  | _ => rfl

/-- A value has no options in it. -/
theorem ValueTree.optionNames_tokens (tree : ValueTree) :
    tree.tokens.filterMap optionName? = [] := by
  cases tree with
  | term term => exact term.optionNames_tokens
  | compare left operator sign right =>
      rw [ValueTree.tokens, List.filterMap_append, left.optionNames_tokens, List.filterMap_cons,
        right.optionNames_tokens]
      rfl

theorem ValueTrees.optionNames_tokens (trees : ValueTrees) :
    trees.tokens.filterMap optionName? = [] := by
  cases trees with
  | last value => exact value.optionNames_tokens
  | more value comma rest =>
      rw [ValueTrees.tokens, List.filterMap_append, value.optionNames_tokens, List.filterMap_cons,
        rest.optionNames_tokens]
      rfl

end

/-- The identifiers among the tokens of an item are those of its value. -/
theorem ItemTree.identifiers_tokens (item : ItemTree) :
    item.tokens.filterMap identifier? = item.value.expr.identifiers := by
  obtain ⟨option, value, comma⟩ := item
  rw [ItemTree.tokens, List.filterMap_append, List.filterMap_append, value.identifiers_expr]
  cases option <;> cases comma <;>
    simp [Token.optional, Ident.optionToken, identifier?, List.filterMap_cons]

/-- The options among the tokens of an item are the one that it gives. -/
theorem ItemTree.optionNames_tokens (item : ItemTree) :
    item.tokens.filterMap optionName? = item.option.toList := by
  obtain ⟨option, value, comma⟩ := item
  rw [ItemTree.tokens, List.filterMap_append, List.filterMap_append, value.optionNames_tokens]
  cases option <;> cases comma <;> rfl

/-- Listing options and arguments apart moves names, but neither drops nor repeats one. -/
theorem ProcTree.identifiers_call (reach : Nat → Nat) (proc : ProcTree) :
    (proc.call reach).identifiers.Perm (proc.tokens.filterMap identifier?) := by
  obtain ⟨name, items⟩ := proc
  have values :
      ((items.filterMap ItemTree.option?).flatMap (fun option => option.value.identifiers) ++
          (items.filterMap ItemTree.argument?).flatMap Expr.identifiers).Perm
        ((items.flatMap ItemTree.tokens).filterMap identifier?) := by
    induction items with
    | nil => exact .nil
    | cons item items ih =>
        rw [List.flatMap_cons, List.filterMap_append, item.identifiers_tokens]
        obtain ⟨option, value, comma⟩ := item
        cases option with
        | some name =>
            simpa [ItemTree.option?, ItemTree.argument?] using ih.append_left _
        | none =>
            have moved := List.perm_append_comm_assoc
              ((items.filterMap ItemTree.option?).flatMap fun option => option.value.identifiers)
              value.expr.identifiers
              ((items.filterMap ItemTree.argument?).flatMap Expr.identifiers)
            simpa [List.filterMap_cons, ItemTree.option?, ItemTree.argument?] using
              moved.trans (ih.append_left _)
  exact values.cons name

/-- The options of a call are those among its tokens. -/
theorem ProcTree.optionNames_call (reach : Nat → Nat) (proc : ProcTree) :
    (proc.call reach).optionNames = proc.tokens.filterMap optionName? := by
  obtain ⟨name, items⟩ := proc
  have names : (items.filterMap ItemTree.option?).map ProcOption.name =
      (items.flatMap ItemTree.tokens).filterMap optionName? := by
    induction items with
    | nil => rfl
    | cons item items ih =>
        rw [List.flatMap_cons, List.filterMap_append, item.optionNames_tokens, ← ih]
        obtain ⟨option, value, comma⟩ := item
        cases option <;> rfl
  exact names

mutual

/-- The procs of a derivation, in the order of the text. -/
def StageTree.procs : StageTree → List ProcTree
  | .proc proc => [proc]
  | .block _ branches _ => branches.procs

def ChainTree.procs : ChainTree → List ProcTree
  | .last stage => stage.procs
  | .more stage _ rest => stage.procs ++ rest.procs

def ChainTrees.procs : ChainTrees → List ProcTree
  | .last chain _ => chain.procs
  | .more chain _ rest => chain.procs ++ rest.procs

end

mutual

/-- The calls in a stage are made of the procs of its derivation. -/
theorem StageTree.steps_stage (reach : Nat → Nat) (tree : StageTree) :
    (tree.stage reach).steps = tree.procs.map (ProcTree.call reach) := by
  cases tree with
  | proc proc => rfl
  | block opening branches closing => exact branches.branchSteps_flows reach

/-- The calls in a chain are made of the procs of its derivation. -/
theorem ChainTree.chainSteps_stages (reach : Nat → Nat) (tree : ChainTree) :
    Stage.chainSteps (tree.stages reach) = tree.procs.map (ProcTree.call reach) := by
  cases tree with
  | last stage => simp [ChainTree.stages, ChainTree.procs, Stage.chainSteps, stage.steps_stage]
  | more stage bar rest =>
      simp [ChainTree.stages, ChainTree.procs, Stage.chainSteps, stage.steps_stage,
        rest.chainSteps_stages]

theorem ChainTrees.branchSteps_flows (reach : Nat → Nat) (trees : ChainTrees) :
    Stage.branchSteps (trees.flows reach) = trees.procs.map (ProcTree.call reach) := by
  cases trees with
  | last chain semicolon =>
      simp [ChainTrees.flows, ChainTrees.procs, Stage.branchSteps, chain.chainSteps_stages]
  | more chain semicolon rest =>
      simp [ChainTrees.flows, ChainTrees.procs, Stage.branchSteps, chain.chainSteps_stages,
        rest.branchSteps_flows]

end

section Words

-- Whatever is read of single tokens, and of none of the signs between the words.
variable {read? : PlacedToken → Option Ident}
  (ignores : ∀ sign span, Token.level sign ≠ 3 → read? ⟨sign, span⟩ = none)

include ignores

mutual

/-- Between the procs of a stage there are only signs, so that all words belong to procs. -/
theorem StageTree.filterMap_tokens (tree : StageTree) :
    tree.tokens.filterMap read? = tree.procs.flatMap fun proc => proc.tokens.filterMap read? := by
  cases tree with
  | proc proc => simp [StageTree.tokens, StageTree.procs]
  | block opening branches closing =>
      simp [StageTree.tokens, StageTree.procs, branches.filterMap_tokens,
        ignores .openParenthesis opening (by decide), ignores .closeParenthesis closing (by decide)]

/-- Between the stages of a chain there are only signs. -/
theorem ChainTree.filterMap_tokens (tree : ChainTree) :
    tree.tokens.filterMap read? = tree.procs.flatMap fun proc => proc.tokens.filterMap read? := by
  cases tree with
  | last stage => exact stage.filterMap_tokens
  | more stage bar rest =>
      simp [ChainTree.tokens, ChainTree.procs, stage.filterMap_tokens,
        rest.filterMap_tokens, ignores .bar bar (by decide)]

/-- Between chains there are only signs. -/
theorem ChainTrees.filterMap_tokens (trees : ChainTrees) :
    trees.tokens.filterMap read? = trees.procs.flatMap fun proc => proc.tokens.filterMap read? := by
  cases trees with
  | last chain semicolon =>
      have ended : (Token.semicolon.optional semicolon).filterMap read? = [] := by
        cases semicolon with
        | none => rfl
        | some span => simp [Token.optional, ignores .semicolon span (by decide)]
      simp [ChainTrees.tokens, ChainTrees.procs, chain.filterMap_tokens, ended]
  | more chain semicolon rest =>
      simp [ChainTrees.tokens, ChainTrees.procs, chain.filterMap_tokens,
        rest.filterMap_tokens, ignores .semicolon semicolon (by decide)]

end

end Words

namespace ProgramTree

variable (reach : Nat → Nat) (stop : Nat)

/-- A program has the identifiers that are among its tokens, each as often as there. -/
theorem identifiers_program (tree : ProgramTree) :
    (tree.program reach stop).identifiers.Perm (tree.tokens.filterMap identifier?) := by
  cases tree with
  | empty => exact .nil
  | chains all =>
      have ignores : ∀ sign span, Token.level sign ≠ 3 → identifier? ⟨sign, span⟩ = none := by
        intro sign span level
        cases sign <;> first | rfl | exact absurd rfl level
      rw [Program.identifiers, program, flows, tokens, all.branchSteps_flows, List.flatMap_map,
        all.filterMap_tokens ignores]
      exact List.Perm.flatMap_left _ fun proc _ => proc.identifiers_call reach

/-- The options of a program are those among its tokens, in their order. -/
theorem optionNames_program (tree : ProgramTree) :
    (tree.program reach stop).optionNames = tree.tokens.filterMap optionName? := by
  cases tree with
  | empty => rfl
  | chains all =>
      have ignores : ∀ sign span, Token.level sign ≠ 3 → optionName? ⟨sign, span⟩ = none := by
        intro sign span level
        cases sign <;> first | rfl | exact absurd rfl level
      rw [Program.optionNames, program, flows, tokens, all.branchSteps_flows, List.flatMap_map,
        all.filterMap_tokens ignores]
      simp [ProcTree.optionNames_call]

end ProgramTree

/-- An identifier is the text that stands at its place. -/
theorem slice?_of_identifier? {text : List Char} {name : Ident}
    (member : name ∈ (lex text).tokens.filterMap identifier?) :
    Text.slice? text name.span.start name.span.stop = some name.name.toList := by
  obtain ⟨⟨token, span⟩, listed, found⟩ := List.mem_filterMap.mp member
  cases token with
  | identifier name =>
      obtain rfl := Option.some.inj found
      exact slice?_of_identifier listed
  | _ => cases found

/-- An option is the text that stands at its place, behind a dash. -/
theorem slice?_of_optionName? {text : List Char} {name : Ident}
    (member : name ∈ (lex text).tokens.filterMap optionName?) :
    Text.slice? text name.span.start name.span.stop = some ('-' :: name.name.toList) := by
  obtain ⟨⟨token, span⟩, listed, found⟩ := List.mem_filterMap.mp member
  cases token with
  | optionName name =>
      obtain rfl := Option.some.inj found
      exact slice?_of_optionName listed
  | _ => cases found

/-! ## Parsing -/

/-- Without strays, a text whose tokens have a derivation is read as what that derivation says. -/
theorem parse_eq_of_tokens {text : List Char} (clean : (lex text).strays = []) {tree : ProgramTree}
    (derived : tree.tokens = (lex text).tokens) :
    parse text = ⟨some (tree.program (afterTrivia text) (Text.byteLength text)), []⟩ := by
  have read : readChains (afterTrivia text) (Text.byteLength text) (lex text).tokens =
      .ok (tree.flows (afterTrivia text)) :=
    readChains_eq_ok_iff_exists.mpr ⟨tree, derived, rfl⟩
  simp [parse, read, clean, ProgramTree.program, derived]

/-- A program is read only from tokens that have a derivation. -/
theorem exists_tokens_of_parse_eq {text : List Char} {program : Program}
    {faults : List ParseFault} (parsed : parse text = ⟨some program, faults⟩) :
    ∃ tree : ProgramTree, tree.tokens = (lex text).tokens := by
  cases read : readChains (afterTrivia text) (Text.byteLength text) (lex text).tokens with
  | error fault => simp [parse, read] at parsed
  | ok chains =>
      obtain ⟨tree, derived, -⟩ := readChains_eq_ok_iff_exists.mp read
      exact ⟨tree, derived⟩

/--
A text without stray characters is parsed without any fault exactly if its tokens have a
derivation.  There is only one, and the program is the one that it describes.
-/
theorem parse_iff_derivation (text : List Char) (clean : (lex text).strays = []) :
    ((∃ program, parse text = ⟨some program, []⟩) ↔
        ∃ tree : ProgramTree, tree.tokens = (lex text).tokens) ∧
      ∀ tree : ProgramTree, tree.tokens = (lex text).tokens →
        (∀ other : ProgramTree, other.tokens = (lex text).tokens → other = tree) ∧
        ∃ program, parse text = ⟨some program, []⟩ ∧
          program = tree.program (afterTrivia text) (Text.byteLength text) ∧
          program.identifiers.Perm ((lex text).tokens.filterMap identifier?) ∧
          program.optionNames = (lex text).tokens.filterMap optionName? ∧
          (∀ name ∈ program.identifiers,
            Text.slice? text name.span.start name.span.stop = some name.name.toList) ∧
          ∀ name ∈ program.optionNames,
            Text.slice? text name.span.start name.span.stop = some ('-' :: name.name.toList) := by
  refine ⟨⟨?_, ?_⟩, ?_⟩
  · rintro ⟨program, parsed⟩
    exact exists_tokens_of_parse_eq parsed
  · rintro ⟨tree, derived⟩
    exact ⟨_, parse_eq_of_tokens clean derived⟩
  · intro tree derived
    have identifiers := tree.identifiers_program (afterTrivia text) (Text.byteLength text)
    have options := tree.optionNames_program (afterTrivia text) (Text.byteLength text)
    rw [derived] at identifiers options
    refine ⟨fun other same => ProgramTree.tokens_injective (same.trans derived.symm), _,
      parse_eq_of_tokens clean derived, rfl, identifiers, options, ?_, ?_⟩
    · intro name member
      exact slice?_of_identifier? (identifiers.mem_iff.mp member)
    · intro name member
      exact slice?_of_optionName? (options ▸ member)

/-- An option, a block whose last chain has a semicolon after it, and a call in it. -/
def blockText : List Char :=
  "read -to x | (a; b f(c););".toList

/-- The derivation of that text. -/
def blockTree : ProgramTree :=
  .chains (.last
    (.more (.proc ⟨⟨"read", ⟨0, 4⟩⟩, [⟨some ⟨"to", ⟨5, 8⟩⟩, .term (.ident ⟨"x", ⟨9, 10⟩⟩), none⟩]⟩)
      ⟨11, 12⟩
      (.last (.block ⟨13, 14⟩
        (.more (.last (.proc ⟨⟨"a", ⟨14, 15⟩⟩, []⟩)) ⟨15, 16⟩
          (.last
            (.last (.proc ⟨⟨"b", ⟨17, 18⟩⟩,
              [⟨none, .term (.call ⟨"f", ⟨19, 20⟩⟩ ⟨20, 21⟩
                (.last (.term (.ident ⟨"c", ⟨21, 22⟩⟩))) ⟨22, 23⟩), none⟩]⟩))
            (some ⟨23, 24⟩)))
        ⟨24, 25⟩)))
    (some ⟨25, 26⟩))

theorem parse_blockText :
    (lex blockText).strays = [] ∧ blockTree.tokens = (lex blockText).tokens ∧
      parse blockText =
        ⟨some (blockTree.program (afterTrivia blockText) (Text.byteLength blockText)), []⟩ := by
  have clean : (lex blockText).strays = [] := by decide
  have derived : blockTree.tokens = (lex blockText).tokens := by decide
  obtain ⟨-, program, parsed, rfl, -⟩ := (parse_iff_derivation blockText clean).2 blockTree derived
  exact ⟨clean, derived, parsed⟩

end Flowgraph
