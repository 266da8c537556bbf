import Flowgraph.Proofs.Number.Rounding
import Flowgraph.Proofs.Program.Placement
import Flowgraph.Proofs.Program.Spans
import Flowgraph.Proofs.Token.LongestMatch

/-!
# The numbers of a program

A number in a program is one of the floating-point format.  This is not part of its type, since
a number is kept as a sign and a magnitude, but every number that is read from a text is of
the format, whether the rest of the text has faults or not (`numbersFit_of_parse`).
-/

namespace Flowgraph

open Number Pattern

/-! ## Tokens -/

/-- A number that is scanned is read from the characters that belong to it. -/
theorem read_of_scan {first : Char} {rest : List Char} {value : Binary64}
    (scanned : (scan first rest).1 = .token (.number value)) :
    Binary64.read (first :: rest.take (scan first rest).2) = some value := by
  have matched := (scan_isolated first rest _ scanned).1
  have begins : BeginsNumber first rest :=
    beginsNumber_of_mem_number matched (List.cons_prefix_cons.mpr ⟨rfl, List.take_prefix _ _⟩)
  rw [scan_of_beginsNumber begins, scanNumber] at scanned ⊢
  cases read : Binary64.read (first :: rest.take (numberExtent rest)) with
  | none => simp [read] at scanned
  | some found =>
      simp only [read, Lexeme.token.injEq, Token.number.injEq] at scanned
      exact scanned ▸ read

/-- A number in a text is read from the slice of the text at its place. -/
theorem exists_slice_of_number {text : List Char} {value : Binary64} {span : Span}
    (member : ⟨.number value, span⟩ ∈ (lex text).tokens) :
    ∃ written, Text.slice? text span.start span.stop = some written ∧
      Binary64.read written = some value := by
  obtain ⟨first, rest, scanned, slice⟩ := exists_scan_of_mem_tokens member
  exact ⟨_, slice, read_of_scan scanned⟩

/-! ## Programs -/

/-- If the value is a number, it is one of the format. -/
def Expr.NumberFits (value : Expr) : Prop :=
  ∀ literal span, value = .number literal span → literal.Representable

/-- The numbers that are values of options or arguments of the call are of the format. -/
structure ProcCall.NumbersFit (call : ProcCall) : Prop where
  options : ∀ option ∈ call.options, option.value.NumberFits
  arguments : ∀ argument ∈ call.arguments, argument.NumberFits

/-- The numbers that calls of the program are given, at any depth, are of the format. -/
def Program.NumbersFit (program : Program) : Prop :=
  ∀ call ∈ Stage.branchSteps program.chains, call.NumbersFit

/-- A number that is the value of an item is the token of the item. -/
theorem ItemTree.mem_tokens_of_expr_eq {item : ItemTree} {literal : Binary64} {span : Span}
    (isNumber : item.value.expr = .number literal span) :
    ⟨.number literal, span⟩ ∈ item.tokens := by
  refine item.value_sublist.subset ?_
  cases value : item.value with
  | term term =>
      rw [value] at isNumber
      cases term <;> simp_all [ValueTree.expr, TermTree.expr, ValueTree.tokens, TermTree.tokens]
  | compare left operator sign right =>
      rw [value] at isNumber
      cases isNumber

/-- The values of the options of a call, and its arguments. -/
def ProcCall.values (call : ProcCall) : List Expr :=
  call.options.map ProcOption.value ++ call.arguments

theorem ProcTree.exists_item_of_mem_values {proc : ProcTree} {reach : Nat → Nat} {value : Expr}
    (member : value ∈ (proc.call reach).values) : ∃ item ∈ proc.items, item.value.expr = value := by
  rcases List.mem_append.mp member with isOption | isArgument
  · obtain ⟨option, given, rfl⟩ := List.mem_map.mp isOption
    obtain ⟨item, isItem, named⟩ := List.mem_filterMap.mp given
    obtain ⟨name, -, rfl⟩ := Option.map_eq_some_iff.mp named
    exact ⟨item, isItem, rfl⟩
  · obtain ⟨item, isItem, unnamed⟩ := List.mem_filterMap.mp isArgument
    simp only [ItemTree.argument?, Option.ite_none_right_eq_some, Option.some.injEq] at unnamed
    exact ⟨item, isItem, unnamed.2⟩

/-- The numbers that calls of a program are given are tokens of its text. -/
theorem number_mem_tokens_of_parse {text : List Char} {program : Program}
    (parsed : (parse text).program = some program) {call : ProcCall}
    (isCall : call ∈ Stage.branchSteps program.chains) {literal : Binary64} {span : Span}
    (isValue : .number literal span ∈ call.values) :
    ⟨.number literal, span⟩ ∈ (lex text).tokens := by
  rw [parse] at parsed
  cases read : readChains (afterTrivia text) (Text.byteLength text) (lex text).tokens with
  | error fault => simp [read] at parsed
  | ok chains =>
      obtain ⟨tree, derived, rfl⟩ := readChains_eq_ok_iff_exists.mp read
      simp only [read, Option.some.injEq] at parsed
      subst parsed
      rw [tree.branchSteps_flows] at isCall
      obtain ⟨proc, isProc, rfl⟩ := List.mem_map.mp isCall
      obtain ⟨item, isItem, isNumber⟩ := ProcTree.exists_item_of_mem_values isValue
      have inProc : ⟨.number literal, span⟩ ∈ proc.tokens :=
        List.mem_cons_of_mem _ (List.mem_flatMap.mpr ⟨item, isItem,
          item.mem_tokens_of_expr_eq isNumber⟩)
      rw [← derived]
      exact (ProgramTree.sublist_of_mem_procs isProc).subset inProc

/-- The numbers of a program that was read are of the format, even if the text has faults. -/
theorem numbersFit_of_parse {text : List Char} {program : Program}
    (parsed : (parse text).program = some program) : program.NumbersFit := by
  intro call isCall
  have fits : ∀ value ∈ call.values, value.NumberFits := by
    rintro value isValue literal span rfl
    obtain ⟨written, -, read⟩ :=
      exists_slice_of_number (number_mem_tokens_of_parse parsed isCall isValue)
    exact Binary64.representable_of_read read
  exact {
    options := fun option given => fits _ (List.mem_append_left _ (List.mem_map_of_mem given))
    arguments := fun argument given => fits _ (List.mem_append_right _ given) }

end Flowgraph
