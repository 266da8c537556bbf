import Flowgraph.Proofs.Graph.Relocation

/-!
# The stages of a program in its graph

Data enters a stage at its entries and leaves it at its exits.  An operator is both for
itself.  Data enters a block through the first stages of its branches and leaves it through
their last stages.  These places can be read off the program alone, since the operators
take their places in the order in which they are written.

If no chain is empty, the edges of the graph are those from an exit of a stage to an entry
of the next stage of the same chain (`mem_edges_ofProgram_iff`), and they stand in ascending
order of their targets, and of their sources where the targets are the same
(`edges_ofProgram_ascending`).  A chain without stages lets its inputs pass, so that it has
exits of its own no longer; such a chain is never made of a text without errors.
-/

namespace Flowgraph

/-! ## Edges in order -/

/-- An edge leads to an earlier node than another, or to the same node from an earlier one. -/
def Edge.Before (edge other : Edge) : Prop :=
  edge.target < other.target ∨ edge.target = other.target ∧ edge.source < other.source

/-- An edge does not come before itself. -/
theorem Edge.Before.ne {edge other : Edge} (before : edge.Before other) : edge ≠ other := by
  rintro rfl
  rcases before with less | ⟨-, less⟩
  · exact Nat.lt_irrefl _ less
  · exact Nat.lt_irrefl _ less

/-- Edges to earlier nodes come before edges to later ones. -/
theorem Edge.pairwise_before_append {left right : List Edge} {middle : Nat}
    (first : left.Pairwise Edge.Before) (second : right.Pairwise Edge.Before)
    (earlier : ∀ edge ∈ left, edge.target < middle)
    (later : ∀ edge ∈ right, middle ≤ edge.target) :
    (left ++ right).Pairwise Edge.Before := by
  refine List.pairwise_append.mpr ⟨first, second, ?_⟩
  intro edge inLeft other inRight
  exact .inl ((earlier edge inLeft).trans_le (later other inRight))

/-! ## Errors of operators -/

/-- What is wrong with a source that has an input, and with another operator that has none. -/
def Operator.inputError? (operator : Operator) (hasInput : Bool) : Option Diagnostic :=
  if operator.kind.isSource = hasInput then
    some (if hasInput then
      .error .misplacedSource operator.span
        ("`" ++ operator.name ++ "` is a source and must start a flowgraph")
    else
      .error .missingSource operator.span
        ("flowgraph must start with a source, found `" ++ operator.name ++ "`"))
  else none

/-- What is wrong with the inputs of an operator depends on whether there are any. -/
theorem Operator.diagnostics_checkInputs (operator : Operator) (entries : List Nat) :
    (operator.checkInputs entries).diagnostics =
      (operator.inputError? !entries.isEmpty).toList := by
  rw [checkInputs, inputError?]
  cases operator.kind.isSource <;> cases entries <;> rfl

/--
The errors of operators by the edges that lead to them, in the order of the operators; the
first operator has the given place.
-/
def inputErrors (edges : List Edge) (place : Nat) (operators : List Operator) :
    List Diagnostic :=
  (operators.zipIdx place).filterMap fun (operator, place) =>
    operator.inputError? !(sourcesOf edges place).isEmpty

/-- The errors of a single operator are those of the edges that lead to it. -/
theorem inputErrors_singleton (edges : List Edge) (place : Nat) (operator : Operator) :
    inputErrors edges place [operator] =
      (operator.inputError? !(sourcesOf edges place).isEmpty).toList := by
  simp only [inputErrors, List.zipIdx_singleton, List.filterMap_cons, List.filterMap_nil]
  cases operator.inputError? !(sourcesOf edges place).isEmpty <;> rfl

/-- Edges that lead to operators of one part do not matter for the other part. -/
theorem inputErrors_append {left right : List Edge} {place : Nat} {first second : List Operator}
    (earlier : ∀ edge ∈ left, edge.target < place + first.length)
    (later : ∀ edge ∈ right, place + first.length ≤ edge.target) :
    inputErrors (left ++ right) place (first ++ second) =
      inputErrors left place first ++ inputErrors right (place + first.length) second := by
  rw [inputErrors, List.zipIdx_append, List.filterMap_append]
  refine congr (congrArg _ (List.filterMap_congr ?_)) (List.filterMap_congr ?_)
  · rintro ⟨operator, target⟩ member
    have bound := List.snd_lt_of_mem_zipIdx member
    have elsewhere : sourcesOf right target = [] := by
      refine sourcesOf_eq_nil fun edge isRight => ?_
      have above := later edge isRight
      omega
    simp only [sourcesOf_append, elsewhere, List.append_nil]
  · rintro ⟨operator, target⟩ member
    have bound := List.le_snd_of_mem_zipIdx member
    have elsewhere : sourcesOf left target = [] := by
      refine sourcesOf_eq_nil fun edge isLeft => ?_
      have below := earlier edge isLeft
      omega
    simp only [sourcesOf_append, elsewhere, List.nil_append]

namespace Stage

variable {α : Type}

/-! ## Where data enters and leaves -/

mutual

/-- The places at which data enters a stage; its first operator has the given place. -/
def entries (place : Nat) : Stage α → List Nat
  | step _ => [place]
  | parallel branches _ => branchEntries place branches

/-- Data enters a chain through its first stage. -/
def chainEntries (place : Nat) : List (Stage α) → List Nat
  | [] => []
  | first :: _ => first.entries place

/-- Data enters all branches of a block. -/
def branchEntries (place : Nat) : List (Flow α) → List Nat
  | [] => []
  | ⟨stages, _⟩ :: rest =>
      chainEntries place stages ++ branchEntries (place + (chainSteps stages).length) rest

end

mutual

/-- The places at which data leaves a stage; its first operator has the given place. -/
def exits (place : Nat) : Stage α → List Nat
  | step _ => [place]
  | parallel branches _ => branchExits place branches

/-- Data leaves a chain through its last stage. -/
def chainExits (place : Nat) : List (Stage α) → List Nat
  | [] => []
  | [last] => last.exits place
  | stage :: next :: rest => chainExits (place + stage.steps.length) (next :: rest)

/-- Data leaves all branches of a block. -/
def branchExits (place : Nat) : List (Flow α) → List Nat
  | [] => []
  | ⟨stages, _⟩ :: rest =>
      chainExits place stages ++ branchExits (place + (chainSteps stages).length) rest

end

mutual

/-- No chain within a stage is empty. -/
def Filled : Stage α → Prop
  | step _ => True
  | parallel branches _ => FilledBranches branches

/-- No chain within any of the stages is empty. -/
def FilledChain : List (Stage α) → Prop
  | [] => True
  | stage :: rest => stage.Filled ∧ FilledChain rest

/-- No chain is empty, at any depth. -/
def FilledBranches : List (Flow α) → Prop
  | [] => True
  | ⟨stages, _⟩ :: rest => stages ≠ [] ∧ FilledChain stages ∧ FilledBranches rest

end

/--
A chain of a program, at any depth.  The first operator of the program has the place
`start`, and the first operator of the chain has the place `place`.
-/
inductive ChainAt : List (Flow α) → Nat → List (Stage α) → Nat → Prop where
  | first {stages : List (Stage α)} {span : Span} {rest : List (Flow α)} {start : Nat} :
      ChainAt (⟨stages, span⟩ :: rest) start stages start
  | inBlock {before after stages : List (Stage α)} {branches rest : List (Flow α)}
      {span blockSpan : Span} {start place : Nat}
      (inner : ChainAt branches (start + (chainSteps before).length) stages place) :
      ChainAt (⟨before ++ parallel branches blockSpan :: after, span⟩ :: rest) start stages place
  | later {skipped stages : List (Stage α)} {span : Span} {rest : List (Flow α)}
      {start place : Nat}
      (inner : ChainAt rest (start + (chainSteps skipped).length) stages place) :
      ChainAt (⟨skipped, span⟩ :: rest) start stages place

/-- Data leaves a stage of a chain at one place and enters the next stage at the other. -/
def Passes (place : Nat) (stages : List (Stage α)) (source target : Nat) : Prop :=
  ∃ before first second after, stages = before ++ first :: second :: after ∧
    source ∈ first.exits (place + (chainSteps before).length) ∧
    target ∈ second.entries (place + (chainSteps before).length + first.steps.length)

/-- Data passes from one place to the other in some chain of a program. -/
def Connects (start : Nat) (chains : List (Flow α)) (source target : Nat) : Prop :=
  ∃ stages place, ChainAt chains start stages place ∧ Passes place stages source target

/-- Data passes from one place to the other within a block that is a stage of a chain. -/
def ConnectsInBlock (place : Nat) (stages : List (Stage α)) (source target : Nat) : Prop :=
  ∃ before branches span after, stages = before ++ parallel branches span :: after ∧
    Connects (place + (chainSteps before).length) branches source target

/-! ## One chain, one stage at a time -/

/-- Data passes on to the next stage of a chain, or further down. -/
theorem passes_cons (place : Nat) (stage : Stage α) (rest : List (Stage α))
    (source target : Nat) :
    Passes place (stage :: rest) source target ↔
      (source ∈ stage.exits place ∧
        target ∈ chainEntries (place + stage.steps.length) rest) ∨
      Passes (place + stage.steps.length) rest source target := by
  constructor
  · rintro ⟨before, first, second, after, split, leaves, enters⟩
    cases before with
    | nil =>
        obtain ⟨rfl, rfl⟩ := List.cons.inj split
        exact .inl ⟨leaves, enters⟩
    | cons skipped before =>
        obtain ⟨rfl, rfl⟩ := List.cons.inj split
        rw [chainSteps, List.length_append, ← Nat.add_assoc] at leaves enters
        exact .inr ⟨before, first, second, after, rfl, leaves, enters⟩
  · rintro (⟨leaves, enters⟩ | ⟨before, first, second, after, rfl, leaves, enters⟩)
    · cases rest with
      | nil => simp [chainEntries] at enters
      | cons next rest => exact ⟨[], stage, next, rest, rfl, leaves, enters⟩
    · refine ⟨stage :: before, first, second, after, rfl, ?_, ?_⟩
      · rwa [chainSteps, List.length_append, ← Nat.add_assoc]
      · rwa [chainSteps, List.length_append, ← Nat.add_assoc]

/-- Data passes on inside a block of the first stage, or of a later one. -/
theorem connectsInBlock_cons (place : Nat) (stage : Stage α) (rest : List (Stage α))
    (source target : Nat) :
    ConnectsInBlock place (stage :: rest) source target ↔
      ConnectsInBlock place [stage] source target ∨
      ConnectsInBlock (place + stage.steps.length) rest source target := by
  constructor
  · rintro ⟨before, branches, span, after, split, connects⟩
    cases before with
    | nil =>
        obtain ⟨rfl, rfl⟩ := List.cons.inj split
        exact .inl ⟨[], branches, span, [], rfl, connects⟩
    | cons skipped before =>
        obtain ⟨rfl, rfl⟩ := List.cons.inj split
        rw [chainSteps, List.length_append, ← Nat.add_assoc] at connects
        exact .inr ⟨before, branches, span, after, rfl, connects⟩
  · rintro (⟨before, branches, span, after, split, connects⟩ |
      ⟨before, branches, span, after, rfl, connects⟩)
    · obtain ⟨rfl, rfl, rfl⟩ : before = [] ∧ stage = parallel branches span ∧ after = [] := by
        cases before <;> simp_all
      exact ⟨[], branches, span, rest, rfl, connects⟩
    · refine ⟨stage :: before, branches, span, after, rfl, ?_⟩
      rwa [chainSteps, List.length_append, ← Nat.add_assoc]

/-- There is nothing inside a single step. -/
theorem not_connectsInBlock_step (place : Nat) (value : α) (source target : Nat) :
    ¬ ConnectsInBlock place [step value] source target := by
  rintro ⟨before, branches, span, after, split, -⟩
  cases before <;> simp at split

/-- Inside a block data passes on as in its branches. -/
theorem connectsInBlock_parallel (place : Nat) (branches : List (Flow α)) (span : Span)
    (source target : Nat) :
    ConnectsInBlock place [parallel branches span] source target ↔
      Connects place branches source target := by
  constructor
  · rintro ⟨before, others, otherSpan, after, split, connects⟩
    cases before with
    | nil =>
        obtain ⟨⟨rfl, -⟩, -⟩ : (branches = others ∧ span = otherSpan) ∧ after = [] := by
          simpa [eq_comm] using split
        exact connects
    | cons skipped before => simp at split
  · exact fun connects => ⟨[], branches, span, [], rfl, connects⟩

/-- Data passes on in the first branch, from stage to stage or inside one, or in a later branch. -/
theorem connects_cons (start : Nat) (stages : List (Stage α)) (span : Span)
    (rest : List (Flow α)) (source target : Nat) :
    Connects start (⟨stages, span⟩ :: rest) source target ↔
      (Passes start stages source target ∨ ConnectsInBlock start stages source target) ∨
      Connects (start + (chainSteps stages).length) rest source target := by
  constructor
  · rintro ⟨found, place, isChain, passes⟩
    cases isChain with
    | first => exact .inl (.inl passes)
    | inBlock inner => exact .inl (.inr ⟨_, _, _, _, rfl, _, _, inner, passes⟩)
    | later inner => exact .inr ⟨_, _, inner, passes⟩
  · rintro ((passes | ⟨before, branches, blockSpan, after, rfl, found, place, inner, passes⟩) |
      ⟨found, place, inner, passes⟩)
    · exact ⟨_, _, .first, passes⟩
    · exact ⟨_, _, .inBlock inner, passes⟩
    · exact ⟨_, _, .later inner, passes⟩

/-! ## The places of exits -/

/-- Places in ascending order, from a first one up to before a last one. -/
structure AscendBetween (first last : Nat) (places : List Nat) : Prop where
  ascending : places.Pairwise (· < ·)
  bounds : ∀ place ∈ places, first ≤ place ∧ place < last

/-- Places between two bounds are between any that are further apart. -/
theorem AscendBetween.mono {first last lower upper : Nat} {places : List Nat}
    (ascend : AscendBetween first last places) (below : lower ≤ first) (above : last ≤ upper) :
    AscendBetween lower upper places where
  ascending := ascend.ascending
  bounds := fun place member =>
    ⟨below.trans (ascend.bounds place member).1, (ascend.bounds place member).2.trans_le above⟩

/-- Ascending places of neighbouring stretches ascend together. -/
theorem AscendBetween.append {first middle last : Nat} {places others : List Nat}
    (left : AscendBetween first middle places) (right : AscendBetween middle last others)
    (ordered : first ≤ middle ∧ middle ≤ last) :
    AscendBetween first last (places ++ others) where
  ascending := by
    refine List.pairwise_append.mpr ⟨left.ascending, right.ascending, ?_⟩
    intro place inLeft other inRight
    exact (left.bounds place inLeft).2.trans_le (right.bounds other inRight).1
  bounds := by
    rw [List.forall_mem_append]
    exact ⟨(left.mono le_rfl ordered.2).bounds, (right.mono ordered.1 le_rfl).bounds⟩

theorem ascendBetween_singleton (place : Nat) : AscendBetween place (place + 1) [place] where
  ascending := List.pairwise_singleton _ _
  bounds := by simp

theorem ascendBetween_nil (place : Nat) : AscendBetween place place [] where
  ascending := .nil
  bounds := by simp

mutual

/-- The exits of a stage are places of the stage, in order. -/
theorem exits_ascend (place : Nat) (stage : Stage α) :
    AscendBetween place (place + stage.steps.length) (stage.exits place) := by
  cases stage with
  | step value => exact ascendBetween_singleton place
  | parallel branches span => exact branchExits_ascend place branches

/-- The exits of a chain are places of the chain, in order. -/
theorem chainExits_ascend (place : Nat) (stages : List (Stage α)) :
    AscendBetween place (place + (chainSteps stages).length) (chainExits place stages) := by
  cases stages with
  | nil => exact ascendBetween_nil place
  | cons stage rest =>
      rw [chainSteps, List.length_append, ← Nat.add_assoc]
      cases rest with
      | nil => exact exits_ascend place stage
      | cons next rest =>
          exact (chainExits_ascend _ (next :: rest)).mono (Nat.le_add_right _ _) le_rfl

/-- The exits of branches lie in the branches, and those of a later branch come later. -/
theorem branchExits_ascend (place : Nat) (branches : List (Flow α)) :
    AscendBetween place (place + (branchSteps branches).length) (branchExits place branches) := by
  cases branches with
  | nil => exact ascendBetween_nil place
  | cons flow rest =>
      obtain ⟨stages, span⟩ := flow
      rw [branchSteps, List.length_append, ← Nat.add_assoc]
      exact (chainExits_ascend place stages).append (branchExits_ascend _ rest) (by omega)

end

/-! ## Exits of a wiring -/

section Wire

variable (source : SourceFile)

mutual

/-- Data leaves a wired stage at its exits. -/
theorem exits_wire (place : Nat) (arriving : List Nat) {stage : Stage Operator}
    (filled : stage.Filled) :
    (stage.wire source place arriving).value.exits = stage.exits place := by
  cases stage with
  | step operator => rfl
  | parallel branches span => exact exits_wireBranches place arriving filled

/-- Data leaves a wired chain at the exits of its last stage. -/
theorem exits_wireChain (place : Nat) (arriving : List Nat) {stages : List (Stage Operator)}
    (nonempty : stages ≠ []) (filled : FilledChain stages) :
    (wireChain source place arriving stages).value.exits = chainExits place stages := by
  cases stages with
  | nil => exact absurd rfl nonempty
  | cons stage rest =>
      have first := exits_wire place arriving filled.1
      simp only [wireChain, Checked.value_bind, Checked.value_pure, nodes_wire, List.length_map,
        Wiring.followedBy]
      cases rest with
      | nil => exact first
      | cons next rest => exact exits_wireChain _ _ (List.cons_ne_nil next rest) filled.2

/-- If no chain is empty, the exits of a wiring can be read off the program. -/
theorem exits_wireBranches (place : Nat) (arriving : List Nat) {branches : List (Flow Operator)}
    (filled : FilledBranches branches) :
    (wireBranches source place arriving branches).value.exits = branchExits place branches := by
  cases branches with
  | nil => rfl
  | cons flow rest =>
      obtain ⟨stages, span⟩ := flow
      obtain ⟨nonempty, filledChain, filledRest⟩ := filled
      have chain := exits_wireChain place arriving nonempty filledChain
      have others := exits_wireBranches (place + (chainSteps stages).length) arriving filledRest
      simp only [wireBranches, Checked.value_bind, Checked.value_pure, nodes_wireChain,
        List.length_map, Wiring.beside, chain, others, branchExits]

end

/-! ## The edges of a wiring -/

mutual

/-- The edges of a stage are those to its entries and those inside it. -/
theorem mem_edges_wire_iff (place : Nat) (arriving : List Nat) {stage : Stage Operator}
    (filled : stage.Filled) (edge : Edge) :
    edge ∈ (stage.wire source place arriving).value.edges ↔
      (edge.source ∈ arriving ∧ edge.target ∈ stage.entries place) ∨
      ConnectsInBlock place [stage] edge.source edge.target := by
  cases stage with
  | step operator =>
      obtain ⟨leaving, entered⟩ := edge
      simp only [wire, Operator.wire, Checked.value_bind, Checked.value_pure, entries,
        List.mem_map, Edge.mk.injEq, List.mem_singleton, not_connectsInBlock_step, or_false]
      constructor
      · rintro ⟨entry, member, rfl, rfl⟩
        exact ⟨member, rfl⟩
      · rintro ⟨member, rfl⟩
        exact ⟨leaving, member, rfl, rfl⟩
  | parallel branches span =>
      rw [connectsInBlock_parallel]
      exact mem_edges_wireBranches_iff place arriving filled edge

/-- The edges of a chain are those to its entries, between its stages and inside them. -/
theorem mem_edges_wireChain_iff (place : Nat) (arriving : List Nat)
    {stages : List (Stage Operator)} (filled : FilledChain stages) (edge : Edge) :
    edge ∈ (wireChain source place arriving stages).value.edges ↔
      (edge.source ∈ arriving ∧ edge.target ∈ chainEntries place stages) ∨
      Passes place stages edge.source edge.target ∨
      ConnectsInBlock place stages edge.source edge.target := by
  cases stages with
  | nil => simp [wireChain, Wiring.through, chainEntries, Passes, ConnectsInBlock]
  | cons stage rest =>
      have first := mem_edges_wire_iff place arriving filled.1 edge
      have others := mem_edges_wireChain_iff (place + stage.steps.length) (stage.exits place)
        filled.2 edge
      simp only [wireChain, Checked.value_bind, Checked.value_pure, nodes_wire, List.length_map,
        exits_wire source place arriving filled.1, Wiring.followedBy, List.mem_append, first,
        others, chainEntries, passes_cons, connectsInBlock_cons place stage rest, or_assoc]
      simp only [or_left_comm]

/--
An edge of a wiring comes from outside and leads to an entry, or data passes along it
within the wired part.
-/
theorem mem_edges_wireBranches_iff (place : Nat) (arriving : List Nat)
    {branches : List (Flow Operator)} (filled : FilledBranches branches) (edge : Edge) :
    edge ∈ (wireBranches source place arriving branches).value.edges ↔
      (edge.source ∈ arriving ∧ edge.target ∈ branchEntries place branches) ∨
      Connects place branches edge.source edge.target := by
  cases branches with
  | nil =>
      have none : ¬ Connects place ([] : List (Flow Operator)) edge.source edge.target := by
        rintro ⟨stages, there, isChain, -⟩
        cases isChain
      simp [wireBranches, Wiring.through, branchEntries, none]
  | cons flow rest =>
      obtain ⟨stages, span⟩ := flow
      have chain := mem_edges_wireChain_iff place arriving filled.2.1 edge
      have others := mem_edges_wireBranches_iff (place + (chainSteps stages).length) arriving
        filled.2.2 edge
      simp only [wireBranches, Checked.value_bind, Checked.value_pure, nodes_wireChain,
        List.length_map, Wiring.beside, List.mem_append, chain, others, branchEntries,
        connects_cons, and_or_left, or_assoc]
      simp only [or_left_comm]

end

/-! ## The order of the edges -/

mutual

/-- The edges of a stage are in order if what arrives is. -/
theorem edges_wire_ascending {place : Nat} {arriving : List Nat} {stage : Stage Operator}
    (ascending : arriving.Pairwise (· < ·)) (early : ∀ entry ∈ arriving, entry < place)
    (filled : stage.Filled) :
    (stage.wire source place arriving).value.edges.Pairwise Edge.Before := by
  cases stage with
  | step operator =>
      simp only [wire, Operator.wire, Checked.value_bind, Checked.value_pure]
      exact List.pairwise_map.mpr (ascending.imp fun less => .inr ⟨rfl, less⟩)
  | parallel branches span => exact edges_wireBranches_ascending ascending early filled

/-- The edges of a chain are in order if what arrives is. -/
theorem edges_wireChain_ascending {place : Nat} {arriving : List Nat}
    {stages : List (Stage Operator)} (ascending : arriving.Pairwise (· < ·))
    (early : ∀ entry ∈ arriving, entry < place) (filled : FilledChain stages) :
    (wireChain source place arriving stages).value.edges.Pairwise Edge.Before := by
  cases stages with
  | nil => exact .nil
  | cons stage rest =>
      have exits := exits_ascend place stage
      have leaving : ∀ exit ∈ stage.exits place, exit < place + stage.steps.length :=
        fun exit member => (exits.bounds exit member).2
      have first := edges_wire_ascending ascending early filled.1
      have others := edges_wireChain_ascending exits.ascending leaving filled.2
      simp only [wireChain, Checked.value_bind, Checked.value_pure, nodes_wire, List.length_map,
        exits_wire source place arriving filled.1, Wiring.followedBy]
      exact Edge.pairwise_before_append first others
        (fun edge member => ((between_wire source early stage).targets edge member).2)
        (fun edge member => ((between_wireChain source leaving rest).targets edge member).1)

/-- If no chain is empty, the edges of a wiring are in ascending order. -/
theorem edges_wireBranches_ascending {place : Nat} {arriving : List Nat}
    {branches : List (Flow Operator)} (ascending : arriving.Pairwise (· < ·))
    (early : ∀ entry ∈ arriving, entry < place) (filled : FilledBranches branches) :
    (wireBranches source place arriving branches).value.edges.Pairwise Edge.Before := by
  cases branches with
  | nil => exact .nil
  | cons flow rest =>
      obtain ⟨stages, span⟩ := flow
      have later : ∀ entry ∈ arriving, entry < place + (chainSteps stages).length :=
        fun entry member => (early entry member).trans_le (Nat.le_add_right _ _)
      have chain := edges_wireChain_ascending ascending early filled.2.1
      have others := edges_wireBranches_ascending ascending later filled.2.2
      simp only [wireBranches, Checked.value_bind, Checked.value_pure, nodes_wireChain,
        List.length_map, Wiring.beside]
      exact Edge.pairwise_before_append chain others
        (fun edge member => ((between_wireChain source early stages).targets edge member).2)
        (fun edge member => ((between_wireBranches source later rest).targets edge member).1)

end

/-! ## The errors of a wiring -/

mutual

/-- The errors of a stage are those of its operators, by the edges that lead to them. -/
theorem diagnostics_wire {place : Nat} {arriving : List Nat}
    (early : ∀ entry ∈ arriving, entry < place) (stage : Stage Operator) :
    (stage.wire source place arriving).diagnostics =
      inputErrors (stage.wire source place arriving).value.edges place stage.steps := by
  cases stage with
  | step operator =>
      simp only [wire, Operator.wire, Checked.diagnostics_bind, Checked.diagnostics_pure,
        List.append_nil, Checked.value_bind, Checked.value_pure, steps, inputErrors_singleton,
        sourcesOf_map, operator.diagnostics_checkInputs]
  | parallel branches span => exact diagnostics_wireBranches early branches

/-- The errors of a chain are those of its operators, by the edges that lead to them. -/
theorem diagnostics_wireChain {place : Nat} {arriving : List Nat}
    (early : ∀ entry ∈ arriving, entry < place) (stages : List (Stage Operator)) :
    (wireChain source place arriving stages).diagnostics =
      inputErrors (wireChain source place arriving stages).value.edges place
        (chainSteps stages) := by
  cases stages with
  | nil => rfl
  | cons stage rest =>
      have between := between_wire source early stage
      have first := diagnostics_wire early stage
      have others := diagnostics_wireChain between.exits rest
      simp only [wireChain, Checked.diagnostics_bind, Checked.diagnostics_pure, List.append_nil,
        Checked.value_bind, Checked.value_pure, nodes_wire, List.length_map, chainSteps, first,
        others, Wiring.followedBy]
      exact (inputErrors_append (fun edge member => (between.targets edge member).2)
        fun edge member =>
          ((between_wireChain source between.exits rest).targets edge member).1).symm

/-- The errors of a wiring are those of its operators, by the edges that lead to them. -/
theorem diagnostics_wireBranches {place : Nat} {arriving : List Nat}
    (early : ∀ entry ∈ arriving, entry < place) (branches : List (Flow Operator)) :
    (wireBranches source place arriving branches).diagnostics =
      inputErrors (wireBranches source place arriving branches).value.edges place
        (branchSteps branches) := by
  cases branches with
  | nil => rfl
  | cons flow rest =>
      obtain ⟨stages, span⟩ := flow
      have later : ∀ entry ∈ arriving, entry < place + (chainSteps stages).length :=
        fun entry member => (early entry member).trans_le (Nat.le_add_right _ _)
      have between := between_wireChain source early stages
      have chain := diagnostics_wireChain early stages
      have others := diagnostics_wireBranches later rest
      simp only [wireBranches, Checked.diagnostics_bind, Checked.diagnostics_pure,
        List.append_nil, Checked.value_bind, Checked.value_pure, nodes_wireChain, List.length_map,
        branchSteps, chain, others, Wiring.beside]
      exact (inputErrors_append (fun edge member => (between.targets edge member).2)
        fun edge member => ((between_wireBranches source later rest).targets edge member).1).symm

end

end Wire

end Stage

/-! ## The graph of a program -/

namespace FlowGraph

variable (source : SourceFile) {chains : List (Flow Operator)}

/-- Data flows from the exits of each stage to the entries of the next. -/
theorem mem_edges_ofProgram_iff (filled : Stage.FilledBranches chains) (edge : Edge) :
    edge ∈ (ofProgram source chains).value.edges ↔
      Stage.Connects 0 chains edge.source edge.target := by
  rw [edges_ofProgram, Stage.mem_edges_wireBranches_iff source 0 [] filled]
  simp

/-- The edges of a graph are in order, and none is there twice. -/
theorem edges_ofProgram_ascending (filled : Stage.FilledBranches chains) :
    (ofProgram source chains).value.edges.Pairwise Edge.Before := by
  rw [edges_ofProgram]
  exact Stage.edges_wireBranches_ascending source .nil (by simp) filled

/-- What is wrong with a program is what is wrong with the inputs of its operators. -/
theorem diagnostics_ofProgram_eq (chains : List (Flow Operator)) :
    (ofProgram source chains).diagnostics =
      inputErrors (ofProgram source chains).value.edges 0 (Stage.branchSteps chains) := by
  rw [diagnostics_ofProgram, edges_ofProgram]
  exact Stage.diagnostics_wireBranches source (by simp) chains

end FlowGraph

end Flowgraph
