import Flowgraph.Proofs.Program.Parsing
import Flowgraph.Proofs.Token.Lexing

/-!
# Where the calls of a program stand

The calls of a program are written one after the other.  Each begins with the token of its
name, and its place, which takes in the blanks and comments after it, ends before the next
call begins.  So no two calls have the same place.
-/

namespace Flowgraph

variable {reach : Nat → Nat}

/-! ## The tokens of procs -/

mutual

theorem StageTree.procs_sublist (tree : StageTree) :
    (tree.procs.flatMap ProcTree.tokens).Sublist tree.tokens := by
  cases tree with
  | proc proc => simp [StageTree.procs, StageTree.tokens]
  | block opening branches closing =>
      exact (branches.procs_sublist.trans (List.sublist_append_left ..)).cons _

theorem ChainTree.procs_sublist (tree : ChainTree) :
    (tree.procs.flatMap ProcTree.tokens).Sublist tree.tokens := by
  cases tree with
  | last stage => exact stage.procs_sublist
  | more stage bar rest =>
      rw [ChainTree.procs, List.flatMap_append]
      exact stage.procs_sublist.append (rest.procs_sublist.cons _)

/-- The tokens of the procs stand among all tokens, in the same order. -/
theorem ChainTrees.procs_sublist (trees : ChainTrees) :
    (trees.procs.flatMap ProcTree.tokens).Sublist trees.tokens := by
  cases trees with
  | last chain semicolon => exact chain.procs_sublist.trans (List.sublist_append_left ..)
  | more chain semicolon rest =>
      rw [ChainTrees.procs, List.flatMap_append]
      exact chain.procs_sublist.append (rest.procs_sublist.cons _)

end

namespace ProgramTree

/-- The procs of a derivation, in the order of the text. -/
def procs : ProgramTree → List ProcTree
  | empty => []
  | chains all => all.procs

theorem procs_sublist (tree : ProgramTree) :
    (tree.procs.flatMap ProcTree.tokens).Sublist tree.tokens := by
  cases tree with
  | empty => exact .slnil
  | chains all => exact all.procs_sublist

theorem sublist_of_mem_procs {tree : ProgramTree} {proc : ProcTree} (member : proc ∈ tree.procs) :
    proc.tokens.Sublist tree.tokens :=
  (List.sublist_flatten_of_mem (List.mem_map_of_mem member)).trans tree.procs_sublist

theorem branchSteps_flows (tree : ProgramTree) :
    Stage.branchSteps (tree.flows reach) = tree.procs.map (ProcTree.call reach) := by
  cases tree with
  | empty => rfl
  | chains all => exact all.branchSteps_flows reach

end ProgramTree

/-! ## The places of calls -/

theorem ProcTree.exists_span_call (reach : Nat → Nat) (proc : ProcTree) :
    proc.name.token ∈ proc.tokens ∧ (proc.call reach).span.start = proc.name.token.span.start ∧
      ∃ last ∈ proc.tokens, (proc.call reach).span.stop = reach last.span.stop := by
  have nonempty : proc.tokens ≠ [] := List.cons_ne_nil _ _
  refine ⟨List.mem_cons_self .., rfl, proc.tokens.getLast nonempty, List.getLast_mem nonempty, ?_⟩
  rw [ProcTree.call, extent_eq_through nonempty]
  rfl

namespace ProgramTree

/-- Where the blanks and comments after each token end before the next, so do those of calls. -/
theorem pairwise_calls {tree : ProgramTree}
    (ordered : tree.tokens.Pairwise fun token later =>
      reach token.span.stop ≤ later.span.start) :
    (Stage.branchSteps (tree.flows reach)).Pairwise fun call later =>
      call.span.stop ≤ later.span.start := by
  rw [branchSteps_flows, List.pairwise_map]
  have apart := (List.pairwise_flatMap.mp (ordered.sublist tree.procs_sublist)).2
  refine apart.imp fun {proc later} between => ?_
  obtain ⟨-, -, last, isLast, stop⟩ := proc.exists_span_call reach
  obtain ⟨name, start, -⟩ := later.exists_span_call reach
  rw [stop, start]
  exact between last isLast _ name

/-- A call begins with a token, and the calls are in the order of their tokens. -/
theorem starts_sublist (tree : ProgramTree) :
    ((Stage.branchSteps (tree.flows reach)).map fun call => call.span.start).Sublist
      (tree.tokens.map fun token => token.span.start) := by
  rw [branchSteps_flows, List.map_map]
  have names : (tree.procs.map fun proc => proc.name.token).Sublist
      (tree.procs.flatMap ProcTree.tokens) := by
    induction tree.procs with
    | nil => exact .slnil
    | cons proc rest ih => exact (ih.trans (List.sublist_append_right ..)).cons_cons _
  have starts := (names.trans tree.procs_sublist).map fun token => token.span.start
  rwa [List.map_map] at starts

end ProgramTree

section Parsed

variable {text : List Char} {program : Program} (parsed : parse text = ⟨some program, []⟩)

include parsed

theorem strays_eq_nil_of_parse : (lex text).strays = [] := by
  rw [parse] at parsed
  cases read : readChains (afterTrivia text) (Text.byteLength text) (lex text).tokens with
  | error fault => simp [read] at parsed
  | ok chains => simpa [read] using (congrArg Parse.faults parsed)

theorem exists_tree_of_parse :
    ∃ tree : ProgramTree, tree.tokens = (lex text).tokens ∧
      program.chains = tree.flows (afterTrivia text) := by
  obtain ⟨tree, derived⟩ := exists_tokens_of_parse_eq parsed
  rw [parse_eq_of_tokens (strays_eq_nil_of_parse parsed) derived] at parsed
  cases parsed
  exact ⟨tree, derived, rfl⟩

/-- The place of a call ends before the next call begins. -/
theorem pairwise_calls_of_parse :
    (Stage.branchSteps program.chains).Pairwise fun call later =>
      call.span.stop ≤ later.span.start := by
  obtain ⟨tree, derived, chains⟩ := exists_tree_of_parse parsed
  rw [chains]
  exact tree.pairwise_calls (derived ▸ pairwise_afterTrivia (strays_eq_nil_of_parse parsed))

/-- Calls begin with tokens, in the same order. -/
theorem starts_sublist_of_parse :
    ((Stage.branchSteps program.chains).map fun call => call.span.start).Sublist
      ((lex text).tokens.map fun token => token.span.start) := by
  obtain ⟨tree, derived, chains⟩ := exists_tree_of_parse parsed
  rw [chains, ← derived]
  exact tree.starts_sublist

theorem start_lt_of_mem_calls {call : ProcCall}
    (member : call ∈ Stage.branchSteps program.chains) :
    call.span.start < Text.byteLength text := by
  obtain ⟨token, isToken, start⟩ := List.mem_map.mp
    ((starts_sublist_of_parse parsed).subset (List.mem_map_of_mem member))
  have bounds := bounds_of_mem_lexFrom isToken
  omega

/-- No two calls begin at the same place. -/
theorem pairwise_starts_of_parse :
    (Stage.branchSteps program.chains).Pairwise fun call later =>
      call.span.start < later.span.start := by
  have ordered : ((lex text).tokens.map fun token => token.span.start).Pairwise (· < ·) :=
    List.pairwise_map.mpr (pairwise_starts (strays_eq_nil_of_parse parsed))
  exact List.pairwise_map.mp (ordered.sublist (starts_sublist_of_parse parsed))

end Parsed

end Flowgraph
