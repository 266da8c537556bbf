import Flowgraph.Proofs.Program.Acceptance

/-!
# Reading at other places

Reading copies the places of tokens into a program and decides nothing by them.  To say
so, the places of a text are moved: a `Relocation` sends the first byte of every token,
the offset after its last byte, and the offset after the blanks and comments that follow
it to places of another layout.

Every step of reading commutes with such a move (`Draft.next?_relocate`).  So tokens that
are moved complete the moved program (`complete?_relocate`), and reading stops at the same
token with the same expectations (`readOn_relocate`, `expected_relocate`).
-/

namespace Flowgraph

/-- Where the offsets of a text go. -/
structure Relocation where
  /-- The first byte of a token. -/
  first : Nat → Nat
  /-- The offset after the last byte of a token. -/
  last : Nat → Nat
  /-- The offset after the blanks and comments that follow a proc. -/
  reach : Nat → Nat

namespace Relocation

/-- The move that forgets all places. -/
def forget : Relocation :=
  ⟨fun _ => 0, fun _ => 0, fun _ => 0⟩

/-- What follows an offset in one layout corresponds to what follows it in the other. -/
def Fits (move : Relocation) (reach reach' : Nat → Nat) (offset : Nat) : Prop :=
  reach' (move.last offset) = move.reach (reach offset)

end Relocation

/-! ## Moving the parts of a program -/

variable (move : Relocation)

def Span.relocate (span : Span) : Span :=
  ⟨move.first span.start, move.last span.stop⟩

/-- The place of a proc ends with the blanks and comments that follow it. -/
def Span.relocateProc (span : Span) : Span :=
  ⟨move.first span.start, move.reach span.stop⟩

theorem Span.relocate_through (first last : Span) :
    (first.through last).relocate move = (first.relocate move).through (last.relocate move) := rfl

def PlacedToken.relocate (token : PlacedToken) : PlacedToken :=
  { token with span := token.span.relocate move }

def Ident.relocate (name : Ident) : Ident :=
  { name with span := name.span.relocate move }

mutual

def Expr.relocate : Expr → Expr
  | .number value span => .number value (span.relocate move)
  | .string value span => .string value (span.relocate move)
  | .moment text span => .moment text (span.relocate move)
  | .ident name => .ident (name.relocate move)
  | .call name arguments span =>
      .call (name.relocate move) (Expr.relocateList arguments) (span.relocate move)
  | .compare left operator right span =>
      .compare left.relocate operator right.relocate (span.relocate move)

def Expr.relocateList : List Expr → List Expr
  | [] => []
  | first :: rest => first.relocate :: Expr.relocateList rest

end

/-- Arguments are moved one by one. -/
theorem Expr.relocateList_eq_map (arguments : List Expr) :
    Expr.relocateList move arguments = arguments.map (Expr.relocate move) := by
  induction arguments with
  | nil => rfl
  | cons first rest ih => rw [Expr.relocateList, ih, List.map_cons]

@[simp]
theorem Expr.span_relocate (value : Expr) :
    (value.relocate move).span = value.span.relocate move := by
  cases value <;> rfl

def ProcOption.relocate (option : ProcOption) : ProcOption :=
  ⟨option.name.relocate move, option.value.relocate move, option.span.relocate move⟩

def ProcCall.relocate (call : ProcCall) : ProcCall where
  name := call.name.relocate move
  options := call.options.map (ProcOption.relocate move)
  arguments := call.arguments.map (Expr.relocate move)
  span := call.span.relocateProc move

namespace Stage

variable {α β : Type} (onStep : α → β) (onSpan : Span → Span)

mutual

/-- The stage with other steps and other places, of the same shape. -/
def map : Stage α → Stage β
  | .step value => .step (onStep value)
  | .parallel branches span => .parallel (mapBranches branches) (onSpan span)

def mapChain : List (Stage α) → List (Stage β)
  | [] => []
  | stage :: rest => stage.map :: mapChain rest

def mapBranches : List (Flow α) → List (Flow β)
  | [] => []
  | ⟨stages, span⟩ :: rest => ⟨mapChain stages, onSpan span⟩ :: mapBranches rest

end

/-- The stages of a chain are changed one by one. -/
theorem mapChain_eq_map (stages : List (Stage α)) :
    mapChain onStep onSpan stages = stages.map (map onStep onSpan) := by
  induction stages with
  | nil => rfl
  | cons stage rest ih => rw [mapChain, ih, List.map_cons]

/-- The branches of a block are changed one by one. -/
theorem mapBranches_eq_map (branches : List (Flow α)) :
    mapBranches onStep onSpan branches =
      branches.map fun flow => ⟨flow.stages.map (map onStep onSpan), onSpan flow.span⟩ := by
  induction branches with
  | nil => rfl
  | cons flow rest ih => rw [mapBranches, ih, List.map_cons, mapChain_eq_map]

mutual

/-- The steps of a changed stage are its steps, changed. -/
theorem steps_map (stage : Stage α) :
    (stage.map onStep onSpan).steps = stage.steps.map onStep := by
  cases stage with
  | step value => rfl
  | parallel branches span => exact branchSteps_mapBranches branches

/-- The steps of a changed chain are its steps, changed. -/
theorem chainSteps_mapChain (stages : List (Stage α)) :
    chainSteps (mapChain onStep onSpan stages) = (chainSteps stages).map onStep := by
  cases stages with
  | nil => rfl
  | cons stage rest =>
      simp only [mapChain, chainSteps, steps_map stage, chainSteps_mapChain rest, List.map_append]

theorem branchSteps_mapBranches (branches : List (Flow α)) :
    branchSteps (mapBranches onStep onSpan branches) = (branchSteps branches).map onStep := by
  cases branches with
  | nil => rfl
  | cons flow rest =>
      obtain ⟨stages, span⟩ := flow
      simp only [mapBranches, branchSteps, chainSteps_mapChain stages,
        branchSteps_mapBranches rest, List.map_append]

end

end Stage

/-- A stage of calls at other places. -/
abbrev Stage.relocate : Stage ProcCall → Stage ProcCall :=
  Stage.map (ProcCall.relocate move) (Span.relocate move)

/-- Chains of calls at other places. -/
abbrev relocateChains : List (Flow ProcCall) → List (Flow ProcCall) :=
  Stage.mapBranches (ProcCall.relocate move) (Span.relocate move)

/-! ## Moving what has been read so far -/

def ChainDraft.relocate (chain : ChainDraft) : ChainDraft :=
  ⟨chain.stages.map (Stage.relocate move), move.first chain.start⟩

def ProcDraft.relocate (proc : ProcDraft) : ProcDraft where
  name := proc.name.relocate move
  options := proc.options.map (ProcOption.relocate move)
  arguments := proc.arguments.map (Expr.relocate move)

def ItemDraft.relocate (item : ItemDraft) : ItemDraft :=
  ⟨item.chain.relocate move, item.proc.relocate move, item.option.map (Ident.relocate move)⟩

def Comparand.relocate (comparand : Comparand) : Comparand :=
  { comparand with left := comparand.left.relocate move }

def CallDraft.relocate (call : CallDraft) : CallDraft where
  name := call.name.relocate move
  arguments := call.arguments.map (Expr.relocate move)
  comparison := call.comparison.map (Comparand.relocate move)

def BlockDraft.relocate (block : BlockDraft) : BlockDraft where
  finished := relocateChains move block.finished
  chain := block.chain.relocate move
  start := move.first block.start

def Phase.relocate : Phase → Phase
  | .chainStart mayEnd => .chainStart mayEnd
  | .stageStart chain => .stageStart (chain.relocate move)
  | .blockEnd chain => .blockEnd (chain.relocate move)
  | .itemStart chain proc => .itemStart (chain.relocate move) (proc.relocate move)
  | .termStart item calls comparison mayClose =>
      .termStart (item.relocate move) (calls.map (CallDraft.relocate move))
        (comparison.map (Comparand.relocate move)) mayClose
  | .termEnd item calls comparison term =>
      .termEnd (item.relocate move) (calls.map (CallDraft.relocate move))
        (comparison.map (Comparand.relocate move)) (term.relocate move)

def Draft.relocate (draft : Draft) : Draft where
  blocks := draft.blocks.map (BlockDraft.relocate move)
  finished := relocateChains move draft.finished
  phase := draft.phase.relocate move
  stop := move.last draft.stop

variable {move}

/-- A value that is moved is made of parts that are moved. -/
theorem finishValue_relocate (comparison : Option Comparand) (term : Expr) :
    finishValue (comparison.map (Comparand.relocate move)) (term.relocate move) =
      (finishValue comparison term).relocate move := by
  cases comparison with
  | none => rfl
  | some comparand =>
      simp [finishValue, Comparand.relocate, Expr.relocate, Span.relocate_through]

/-- A moved item is finished with a moved value. -/
theorem ItemDraft.finish_relocate (item : ItemDraft) (value : Expr) :
    (item.relocate move).finish (value.relocate move) = (item.finish value).relocate move := by
  obtain ⟨chain, proc, option⟩ := item
  cases option with
  | none => rfl
  | some name =>
      simp [ItemDraft.finish, ItemDraft.relocate, ProcDraft.relocate, ProcOption.relocate,
        Span.relocate_through, Ident.relocate]

/-- A moved proc is added to a moved chain, up to where the moved text goes on. -/
theorem ChainDraft.addProc_relocate (chain : ChainDraft) (proc : ProcDraft) (reach : Nat) :
    (chain.relocate move).addProc (proc.relocate move) (move.reach reach) =
      (chain.addProc proc reach).relocate move := by
  simp [ChainDraft.addProc, ChainDraft.relocate, ProcDraft.relocate, Stage.relocate, Stage.map,
    ProcCall.relocate, Span.relocateProc, Ident.relocate, Span.relocate]

/-- A moved chain is finished where the moved text ends. -/
theorem ChainDraft.finish_relocate (chain : ChainDraft) (stop : Nat)
    (finished : List (Flow ProcCall)) :
    (chain.relocate move).finish (move.last stop) :: relocateChains move finished =
      relocateChains move (chain.finish stop :: finished) := by
  simp [ChainDraft.finish, ChainDraft.relocate, relocateChains, Stage.mapBranches,
    Stage.mapChain_eq_map, Span.relocate]

/-- A moved block is finished with moved branches. -/
theorem BlockDraft.finish_relocate (block : BlockDraft) (branches : List (Flow ProcCall))
    (stop : Nat) :
    (block.relocate move).finish (relocateChains move branches) (move.last stop) =
      (block.finish branches stop).relocate move := by
  simp [BlockDraft.finish, BlockDraft.relocate, ChainDraft.relocate, relocateChains,
    Stage.relocate, Stage.map, Stage.mapBranches_eq_map, Span.relocate]

/-! ## Reading moved tokens -/

namespace Draft

variable {reach reach' : Nat → Nat} {draft : Draft}

/-- The chain that is being read moves along with what has been read. -/
theorem chain?_relocate (fits : move.Fits reach reach' draft.stop) :
    (draft.relocate move).chain? reach' = (draft.chain? reach).map (ChainDraft.relocate move) := by
  obtain ⟨blocks, finished, phase, stop⟩ := draft
  cases phase with
  | termEnd item calls comparison term =>
      cases calls with
      | nil =>
          simp only [chain?, relocate, Phase.relocate, List.map_nil, Option.map_some]
          rw [finishValue_relocate, ItemDraft.finish_relocate, fits]
          exact congrArg some (ChainDraft.addProc_relocate _ _ _)
      | cons call outer => rfl
  | itemStart chain proc =>
      simp only [chain?, relocate, Phase.relocate, Option.map_some]
      rw [fits, ChainDraft.addProc_relocate]
  | _ => rfl

/-- The chains that have been read move along. -/
theorem finished?_relocate (fits : move.Fits reach reach' draft.stop) :
    (draft.relocate move).finished? reach' =
      (draft.finished? reach).map (relocateChains move) := by
  have ended : ((draft.relocate move).chain? reach').map
        (fun chain => chain.finish (draft.relocate move).stop :: (draft.relocate move).finished) =
      ((draft.chain? reach).map fun chain => chain.finish draft.stop :: draft.finished).map
        (relocateChains move) := by
    rw [chain?_relocate fits, Option.map_map, Option.map_map]
    congr 1
    funext chain
    exact chain.finish_relocate draft.stop draft.finished
  obtain ⟨blocks, finished, phase, stop⟩ := draft
  cases phase with
  | chainStart mayEnd => cases mayEnd <;> rfl
  | _ => exact ended

/-- A moved token begins a stage exactly if the token does, and the same stage. -/
theorem beginStage?_relocate (move : Relocation) (draft : Draft) (chain : ChainDraft)
    (token : PlacedToken) :
    (draft.relocate move).beginStage? (chain.relocate move) (token.relocate move) =
      (draft.beginStage? chain token).map (relocate move) := by
  obtain ⟨token, span⟩ := token
  cases token <;> rfl

/-- A moved token begins an item exactly if the token does, and the same item. -/
theorem beginItem?_relocate (move : Relocation) (draft : Draft) (chain : ChainDraft)
    (proc : ProcDraft) (token : PlacedToken) :
    (draft.relocate move).beginItem? (chain.relocate move) (proc.relocate move)
        (token.relocate move) =
      (draft.beginItem? chain proc token).map (relocate move) := by
  obtain ⟨token, span⟩ := token
  cases token <;> rfl

/-- A block is closed by a moved sign as by the sign. -/
theorem closeBlock?_relocate (fits : move.Fits reach reach' draft.stop) (span : Span) :
    (draft.relocate move).closeBlock? reach' (span.relocate move) =
      (draft.closeBlock? reach span).map (relocate move) := by
  rw [closeBlock?, closeBlock?, finished?_relocate fits]
  obtain ⟨blocks, finished, phase, stop⟩ := draft
  cases blocks with
  | nil => rfl
  | cons block outer =>
      simp only [relocate, List.map_cons, Option.map_map]
      congr 1
      funext branches
      simp only [Function.comp, Span.relocate]
      rw [BlockDraft.finish_relocate]
      rfl

/-- A stage is ended by a moved token as by the token. -/
theorem endStage?_relocate (fits : move.Fits reach reach' draft.stop) (token : PlacedToken) :
    (draft.relocate move).endStage? reach' (token.relocate move) =
      (draft.endStage? reach token).map (relocate move) := by
  obtain ⟨token, span⟩ := token
  cases token with
  | bar =>
      simp only [endStage?, PlacedToken.relocate, chain?_relocate fits, Option.map_map]
      rfl
  | semicolon =>
      simp only [endStage?, PlacedToken.relocate, chain?_relocate fits, Option.map_map]
      congr 1
      funext chain
      simp only [Function.comp, relocate, Span.relocate, Phase.relocate,
        ChainDraft.finish_relocate]
  | closeParenthesis => exact closeBlock?_relocate fits span
  | _ => rfl

/-- A call in parentheses is closed by a moved sign as by the sign. -/
theorem closeCall_relocate (item : ItemDraft) (call : CallDraft) (outer : List CallDraft)
    (last : List Expr) (span : Span) :
    (draft.relocate move).closeCall (item.relocate move) (call.relocate move)
        (outer.map (CallDraft.relocate move)) (last.map (Expr.relocate move))
        (span.relocate move) =
      (draft.closeCall item call outer last span).relocate move := by
  simp [closeCall, advance, relocate, Phase.relocate, CallDraft.relocate, Expr.relocate,
    Expr.relocateList_eq_map, Ident.relocate, Span.relocate, Span.through]

/-- Behind a term a moved token does what the token does. -/
theorem afterTerm?_relocate (move : Relocation) (draft : Draft) (item : ItemDraft)
    (calls : List CallDraft) (comparison : Option Comparand) (term : Expr) (token : PlacedToken) :
    (draft.relocate move).afterTerm? (item.relocate move) (calls.map (CallDraft.relocate move))
        (comparison.map (Comparand.relocate move)) (term.relocate move) (token.relocate move) =
      (draft.afterTerm? item calls comparison term token).map (relocate move) := by
  obtain ⟨token, span⟩ := token
  cases token with
  | openParenthesis => cases term <;> rfl
  | comparison operator => cases comparison <;> rfl
  | comma =>
      simp only [afterTerm?, PlacedToken.relocate, finishValue_relocate]
      cases calls with
      | nil => rw [List.map_nil, ItemDraft.finish_relocate]; rfl
      | cons call outer => rfl
  | closeParenthesis =>
      simp only [afterTerm?, PlacedToken.relocate, finishValue_relocate]
      cases calls with
      | nil => rfl
      | cons call outer =>
          exact congrArg some
            (closeCall_relocate item call outer [finishValue comparison term] span)
  | _ => rfl

/-- A moved token leads from a moved draft to the moved draft that it led to. -/
theorem next?_relocate (fits : move.Fits reach reach' draft.stop) (token : PlacedToken) :
    (draft.relocate move).next? reach' (token.relocate move) =
      (draft.next? reach token).map (relocate move) := by
  have ends := endStage?_relocate fits token
  have closes := closeBlock?_relocate fits token.span
  obtain ⟨blocks, finished, phase, stop⟩ := draft
  cases phase with
  | chainStart mayEnd =>
      have begins := beginStage?_relocate move ⟨blocks, finished, .chainStart mayEnd, stop⟩
        ⟨[], token.span.start⟩ token
      obtain ⟨token, span⟩ := token
      cases token with
      | closeParenthesis =>
          cases mayEnd with
          | true => exact closes
          | false => rfl
      | _ => exact begins
  | stageStart chain => exact beginStage?_relocate move _ chain token
  | blockEnd chain => exact ends
  | itemStart chain proc =>
      have item := beginItem?_relocate move ⟨blocks, finished, .itemStart chain proc, stop⟩ chain
        proc token
      simp only [next?, Option.map_or, ← item, ← ends]
      rfl
  | termStart item calls comparison mayClose =>
      obtain ⟨token, span⟩ := token
      cases token with
      | closeParenthesis =>
          cases mayClose with
          | true =>
              cases calls with
              | nil => rfl
              | cons call outer => exact congrArg some (closeCall_relocate item call outer [] span)
          | false => rfl
      | _ => rfl
  | termEnd item calls comparison term =>
      have after := afterTerm?_relocate move
        ⟨blocks, finished, .termEnd item calls comparison term, stop⟩ item calls comparison term
        token
      cases calls with
      | cons call outer =>
          simp only [next?, Option.map_or, ← after]
          rfl
      | nil =>
          have next := beginItem?_relocate move
            ⟨blocks, finished, .termEnd item [] comparison term, stop⟩ item.chain
            (item.finish (finishValue comparison term)) token
          rw [← ItemDraft.finish_relocate, ← finishValue_relocate] at next
          simp only [next?, Option.map_or, ← after, ← next, ← ends]
          rfl

/-- What may come next has nothing to do with places. -/
theorem expected_relocate (move : Relocation) (draft : Draft) :
    (draft.relocate move).expected = draft.expected := by
  obtain ⟨blocks, finished, phase, stop⟩ := draft
  cases phase with
  | termEnd item calls comparison term =>
      cases calls <;> cases comparison <;> cases term <;>
        simp [expected, afterStage, closing, relocate, Phase.relocate, Expr.relocate]
  | _ => simp [expected, afterStage, closing, relocate, Phase.relocate]

/-! ## After a token -/

/-- Where a call may be closed at once, there is one. -/
def Opened (draft : Draft) : Prop :=
  ∀ item calls comparison, draft.phase = .termStart item calls comparison true → calls ≠ []

/-- What holds of a draft after a token, whatever it was before. -/
structure IsAfter (draft : Draft) (token : PlacedToken) : Prop where
  stop : draft.stop = token.span.stop
  opened : draft.Opened

section After

variable {token : PlacedToken} {following : Draft}

/-- What begins a stage has been read up to the token that begins it. -/
theorem isAfter_of_beginStage? {chain : ChainDraft}
    (next : draft.beginStage? chain token = some following) : following.IsAfter token := by
  obtain ⟨token, span⟩ := token
  cases token <;> cases next <;> exact ⟨rfl, by rintro _ _ _ ⟨⟩⟩

/-- What begins an item has been read up to the token that begins it. -/
theorem isAfter_of_beginItem? {chain : ChainDraft} {proc : ProcDraft}
    (next : draft.beginItem? chain proc token = some following) : following.IsAfter token := by
  obtain ⟨token, span⟩ := token
  cases token <;> cases next <;> exact ⟨rfl, by rintro _ _ _ ⟨⟩⟩

/-- A closed block has been read up to the sign that closes it. -/
theorem isAfter_of_closeBlock?
    (next : draft.closeBlock? reach token.span = some following) : following.IsAfter token := by
  obtain ⟨blocks, finished, phase, stop⟩ := draft
  cases blocks with
  | nil => cases next
  | cons block outer =>
      obtain ⟨branches, -, rfl⟩ := Option.map_eq_some_iff.mp next
      exact ⟨rfl, by rintro _ _ _ ⟨⟩⟩

/-- An ended stage has been read up to the token that ends it. -/
theorem isAfter_of_endStage? (next : draft.endStage? reach token = some following) :
    following.IsAfter token := by
  obtain ⟨token, span⟩ := token
  cases token with
  | bar | semicolon =>
      obtain ⟨chain, -, rfl⟩ := Option.map_eq_some_iff.mp next
      exact ⟨rfl, by rintro _ _ _ ⟨⟩⟩
  | closeParenthesis => exact isAfter_of_closeBlock? next
  | _ => cases next

theorem isAfter_of_afterTerm? {item : ItemDraft} {calls : List CallDraft}
    {comparison : Option Comparand} {term : Expr}
    (next : draft.afterTerm? item calls comparison term token = some following) :
    following.IsAfter token := by
  obtain ⟨token, span⟩ := token
  cases token with
  | openParenthesis =>
      cases term <;> cases next
      exact ⟨rfl, by rintro _ _ _ ⟨⟩; exact List.cons_ne_nil _ _⟩
  | comparison operator =>
      cases comparison <;> cases next
      exact ⟨rfl, by rintro _ _ _ ⟨⟩⟩
  | comma | closeParenthesis => cases calls <;> cases next <;> exact ⟨rfl, by rintro _ _ _ ⟨⟩⟩
  | _ => cases next

/-- What has been read after a token ends with that token. -/
theorem isAfter_of_next? (next : draft.next? reach token = some following) :
    following.IsAfter token := by
  obtain ⟨blocks, finished, phase, stop⟩ := draft
  cases phase with
  | chainStart mayEnd =>
      obtain ⟨token, span⟩ := token
      have begins : ∀ token, beginStage? ⟨blocks, finished, .chainStart mayEnd, stop⟩
          ⟨[], span.start⟩ ⟨token, span⟩ = some following → following.IsAfter ⟨token, span⟩ :=
        fun _ begun => isAfter_of_beginStage? begun
      cases token with
      | closeParenthesis =>
          cases mayEnd with
          | true => exact isAfter_of_closeBlock? next
          | false => cases next
      | _ => exact begins _ next
  | stageStart chain => exact isAfter_of_beginStage? next
  | blockEnd chain => exact isAfter_of_endStage? next
  | itemStart chain proc =>
      rcases Option.or_eq_some_iff.mp next with item | ⟨-, ends⟩
      · exact isAfter_of_beginItem? item
      · exact isAfter_of_endStage? ends
  | termStart item calls comparison mayClose =>
      obtain ⟨token, span⟩ := token
      cases token with
      | closeParenthesis =>
          cases mayClose <;> cases calls <;> cases next
          exact ⟨rfl, by rintro _ _ _ ⟨⟩⟩
      | _ => cases next <;> exact ⟨rfl, by rintro _ _ _ ⟨⟩⟩
  | termEnd item calls comparison term =>
      rcases Option.or_eq_some_iff.mp next with after | ⟨-, later⟩
      · exact isAfter_of_afterTerm? after
      · cases calls with
        | cons call outer => cases later
        | nil =>
            rcases Option.or_eq_some_iff.mp later with item | ⟨-, ends⟩
            · exact isAfter_of_beginItem? item
            · exact isAfter_of_endStage? ends

end After

/-! ## Reading many moved tokens -/

section Tokens

variable (move reach reach' draft) (tokens : List PlacedToken)

/-- Reading stops at the same token. -/
theorem readOn_relocate
    (fits : ∀ offset ∈ draft.stop :: tokens.map (fun token => token.span.stop),
      move.Fits reach reach' offset) :
    (draft.relocate move).readOn reach' (tokens.map (PlacedToken.relocate move)) =
      ((draft.readOn reach tokens).1.relocate move,
        (draft.readOn reach tokens).2.map (PlacedToken.relocate move)) := by
  induction tokens generalizing draft with
  | nil => rfl
  | cons token rest ih =>
      have step := next?_relocate (fits draft.stop (List.mem_cons_self ..)) token
      rw [List.map_cons, readOn, readOn, step]
      cases next : draft.next? reach token with
      | none => rfl
      | some following =>
          refine ih _ fun offset member => fits offset ?_
          rw [(isAfter_of_next? next).stop] at member
          exact List.mem_cons_of_mem _ member

/-- Moved tokens complete the moved program. -/
theorem complete?_relocate
    (fits : ∀ offset ∈ draft.stop :: tokens.map (fun token => token.span.stop),
      move.Fits reach reach' offset) :
    (draft.relocate move).complete? reach' (tokens.map (PlacedToken.relocate move)) =
      (draft.complete? reach tokens).map (relocateChains move) := by
  induction tokens generalizing draft with
  | nil =>
      have finished := finished?_relocate (fits draft.stop (List.mem_cons_self ..))
      rw [List.map_nil, complete?_nil, complete?_nil, finished]
      simp only [relocate, List.isEmpty_map]
      split
      · rw [Option.map_map, Option.map_map]
        congr 1
        funext chains
        simp [relocateChains, Stage.mapBranches_eq_map]
      · rfl
  | cons token rest ih =>
      have step := next?_relocate (fits draft.stop (List.mem_cons_self ..)) token
      rw [List.map_cons, complete?_cons, complete?_cons, step]
      cases next : draft.next? reach token with
      | none => rfl
      | some following =>
          refine ih _ fun offset member => fits offset ?_
          rw [(isAfter_of_next? next).stop] at member
          exact List.mem_cons_of_mem _ member

end Tokens

/-! ## Reading without places -/

section Forget

variable (reach) (tokens : List PlacedToken)

theorem readOn_forget :
    initial.readOn (fun _ => 0) (tokens.map (PlacedToken.relocate .forget)) =
      ((initial.readOn reach tokens).1.relocate .forget,
        (initial.readOn reach tokens).2.map (PlacedToken.relocate .forget)) :=
  readOn_relocate .forget reach (fun _ => 0) initial tokens fun _ _ => rfl

/-- Whether tokens are a program, and of which shape, does not depend on their places. -/
theorem complete?_forget :
    initial.complete? (fun _ => 0) (tokens.map (PlacedToken.relocate .forget)) =
      (initial.complete? reach tokens).map (relocateChains .forget) :=
  complete?_relocate .forget reach (fun _ => 0) initial tokens fun _ _ => rfl

end Forget

end Draft

end Flowgraph
