import Flowgraph.Proofs.Program.Placement
import Flowgraph.Proofs.Token.Joining

/-!
# Programs that are put together

Two programs with a semicolon between them are one program, whose chains are those of the
first and then those of the second.  Their places move: those of the second program by
what is put before it.  In the first program only the place of the last proc changes, as
the blanks that follow it now end before the semicolon.
-/

namespace Flowgraph

/-! ## Blanks and comments at the seam -/

/-- The blanks and comments at the end of the first text go on to the semicolon. -/
theorem triviaLength_joined (inComment : Bool) (rest more : List Char) :
    triviaLength inComment (rest ++ '\n' :: ';' :: more) =
      if triviaLength inComment rest = Text.byteLength rest then Text.byteLength rest + 1
      else triviaLength inComment rest := by
  induction rest generalizing inComment with
  | nil => cases inComment <;> rfl
  | cons c later ih =>
      have positive := c.utf8Size_pos
      simp only [List.cons_append, triviaLength, ih, Text.byteLength_cons,
        head?_append_newline (';' :: more) (c := '/') (by decide)]
      split_ifs <;> omega

/-- Where the offsets of the first text go: the last of its blanks reach to the semicolon. -/
def Relocation.earlier (length : Nat) : Relocation :=
  ⟨id, id, fun reach => if reach = length then length + 1 else reach⟩

theorem isBoundary_stop {text : List Char} {token : PlacedToken}
    (member : token ∈ (lex text).tokens) : IsBoundary text token.span.stop := by
  obtain ⟨piece, stands, -⟩ := exists_piece_of_mem_tokens member
  obtain ⟨before, after, split, start, stop⟩ := exists_of_mem_placed stands
  refine ⟨before.flatMap Piece.text ++ piece.text, after.flatMap Piece.text, ?_, ?_⟩
  · rw [← pieces_join text, split, List.flatMap_append, List.flatMap_cons, List.append_assoc]
  · rw [stop, start, Nat.zero_add, Text.byteLength_append]

theorem fits_earlier {first : List Char} (second : List Char) {offset : Nat}
    (boundary : IsBoundary first offset) :
    (Relocation.earlier (Text.byteLength first)).Fits (afterTrivia first)
      (afterTrivia (joined first second)) offset := by
  obtain ⟨before, after, rfl, rfl⟩ := boundary
  have whole : joined (before ++ after) second =
      before ++ (after ++ '\n' :: ';' :: '\n' :: second) := by
    rw [joined, List.append_assoc]
  simp only [Relocation.Fits, Relocation.earlier, id, whole, afterTrivia_append,
    triviaLength_joined, Text.byteLength_append]
  split_ifs <;> omega

theorem fits_later (first : List Char) {second : List Char} {offset : Nat}
    (boundary : IsBoundary second offset) :
    (Relocation.later (Text.byteLength first + 3)).Fits (afterTrivia second)
      (afterTrivia (joined first second)) offset := by
  obtain ⟨before, after, rfl, rfl⟩ := boundary
  have whole : joined first (before ++ after) =
      ((first ++ ['\n', ';', '\n']) ++ before) ++ after := by
    rw [joined_eq_append, List.append_assoc, List.append_assoc, List.append_assoc]
  have length : Text.byteLength ((first ++ ['\n', ';', '\n']) ++ before) =
      Text.byteLength before + (Text.byteLength first + 3) := by
    rw [Text.byteLength_append, byteLength_seam, Nat.add_comm]
  simp only [Relocation.Fits, Relocation.later]
  rw [whole, ← length, afterTrivia_append, afterTrivia_append, length]
  omega

/-! ## Derivations that are put together -/

/-- Chains, a semicolon after them, and the chains of a program after that. -/
def ChainTrees.followedBy (semicolon : Span) : ChainTrees → ProgramTree → ChainTrees
  | .last chain _, .empty => .last chain (some semicolon)
  | .last chain _, .chains later => .more chain semicolon later
  | .more chain between rest, later => .more chain between (rest.followedBy semicolon later)

theorem ChainTrees.tokens_followedBy {semicolon : Span} {trees : ChainTrees}
    (unended : ∀ token ∈ trees.tokens.getLast?, token.token ≠ .semicolon) (later : ProgramTree) :
    (trees.followedBy semicolon later).tokens =
      trees.tokens ++ ⟨.semicolon, semicolon⟩ :: later.tokens := by
  cases trees with
  | last chain ended =>
      cases ended with
      | some span => simp [ChainTrees.tokens, Token.optional] at unended
      | none =>
          cases later <;>
            simp [ChainTrees.followedBy, ChainTrees.tokens, ProgramTree.tokens, Token.optional]
  | more chain between rest =>
      have restUnended : ∀ token ∈ rest.tokens.getLast?, token.token ≠ .semicolon := by
        intro token last
        refine unended token ?_
        rw [Option.mem_def] at last
        simp [ChainTrees.tokens, List.getLast?_cons, last]
      rw [ChainTrees.followedBy, ChainTrees.tokens, ChainTrees.tokens,
        rest.tokens_followedBy restUnended, List.append_assoc, List.cons_append]

theorem ChainTrees.flows_followedBy {reach : Nat → Nat} (semicolon : Span) (trees : ChainTrees)
    (later : ProgramTree) :
    (trees.followedBy semicolon later).flows reach = trees.flows reach ++ later.flows reach := by
  cases trees with
  | last chain ended => cases later <;> rfl
  | more chain between rest =>
      rw [ChainTrees.followedBy, ChainTrees.flows, ChainTrees.flows,
        rest.flows_followedBy semicolon later, List.cons_append]

/-- Before its first token nothing of a draft matters but its chains. -/
theorem Draft.complete?_chainStart {reach : Nat → Nat} (finished : List (Flow ProcCall))
    (stop other : Nat) (tokens : List PlacedToken) :
    complete? reach ⟨[], finished, .chainStart true, stop⟩ tokens =
      complete? reach ⟨[], finished, .chainStart true, other⟩ tokens := by
  refine complete?_congr (fun _ => ⟨rfl, rfl⟩) fun token _ => ?_
  obtain ⟨token, span⟩ := token
  cases token <;> rfl

/-- Moved tokens have a derivation that describes the moved program. -/
theorem exists_tree_relocate {move : Relocation} {reach reach' : Nat → Nat} (tree : ProgramTree)
    (begins : move.Fits reach reach' 0)
    (fits : ∀ token ∈ tree.tokens, move.Fits reach reach' token.span.stop) :
    ∃ moved : ProgramTree, moved.tokens = tree.tokens.map (PlacedToken.relocate move) ∧
      moved.flows reach' = relocateChains move (tree.flows reach) := by
  have completed := Draft.complete?_relocate move reach reach' .initial tree.tokens
    (by simpa [Draft.initial] using ⟨begins, fits⟩)
  rw [tree.complete?_tokens, Option.map_some] at completed
  have fromStart : Draft.initial.complete? reach' (tree.tokens.map (PlacedToken.relocate move)) =
      some (relocateChains move (tree.flows reach)) := by
    rw [← completed]
    exact Draft.complete?_chainStart [] _ _ _
  have read : readChains reach' 0 (tree.tokens.map (PlacedToken.relocate move)) =
      .ok (relocateChains move (tree.flows reach)) :=
    Draft.readChains_eq_ok_iff.mpr fromStart
  exact readChains_eq_ok_iff_exists.mp read

/-! ## Parsing -/

/-- Two programs with a semicolon between them are read as one. -/
theorem parse_joined {first second : List Char} {program later : Program}
    (parsed : parse first = ⟨some program, []⟩) (parsedLater : parse second = ⟨some later, []⟩)
    (nonempty : program.chains ≠ [])
    (unended : ∀ token ∈ (lex first).tokens.getLast?, token.token ≠ .semicolon) :
    ∃ both, parse (joined first second) = ⟨some both, []⟩ ∧
      both.chains = relocateChains (.earlier (Text.byteLength first)) program.chains ++
        relocateChains (.later (Text.byteLength first + 3)) later.chains := by
  obtain ⟨tree, derived, chains⟩ := exists_tree_of_parse parsed
  obtain ⟨treeLater, derivedLater, chainsLater⟩ := exists_tree_of_parse parsedLater
  obtain ⟨tokens, strays⟩ := lex_joined (strays_eq_nil_of_parse parsed) second
  obtain ⟨moved, tokensMoved, flowsMoved⟩ := exists_tree_relocate tree
    (fits_earlier second (isBoundary_zero first))
    fun token member => fits_earlier second (isBoundary_stop (derived ▸ member))
  obtain ⟨movedLater, tokensLater, flowsLater⟩ := exists_tree_relocate treeLater
    (fits_later first (isBoundary_zero second))
    fun token member => fits_later first (isBoundary_stop (derivedLater ▸ member))
  have kept : tree.tokens.map (PlacedToken.relocate (.earlier (Text.byteLength first))) =
      tree.tokens :=
    List.map_id _
  rw [kept, derived] at tokensMoved
  cases moved with
  | empty =>
      rw [← chains, relocateChains, Stage.mapBranches_eq_map] at flowsMoved
      exact absurd (List.map_eq_nil_iff.mp flowsMoved.symm) nonempty
  | chains trees =>
      have derivedBoth : (ProgramTree.chains (trees.followedBy
            ⟨Text.byteLength first + 1, Text.byteLength first + 2⟩ movedLater)).tokens =
          (lex (joined first second)).tokens := by
        rw [tokens, ← tokensMoved, ← derivedLater, ← tokensLater]
        rw [← show trees.tokens = (lex first).tokens from tokensMoved] at unended
        exact trees.tokens_followedBy unended movedLater
      refine ⟨_, parse_eq_of_tokens (strays.mpr (strays_eq_nil_of_parse parsedLater)) derivedBoth,
        ?_⟩
      rw [chains, chainsLater, ← flowsMoved, ← flowsLater]
      exact trees.flows_followedBy _ movedLater

end Flowgraph
