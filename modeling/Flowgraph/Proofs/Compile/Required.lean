import Flowgraph.Compile.Pass
import Mathlib.Data.List.Infix
import Mathlib.Logic.Relation

/-!
# The passes that a pass requires

The passes before a pass are found by going from it to those whose results it works on.
Each pass is put in order when all that it works on has been, so that the order is a
proper one at every moment (`Visited.InOrder`).  Passes that have been entered and not put
in order are on the way to the present one; since a pass works on earlier ones only, none
of them is met again.

So every pass comes after its inputs (`required_closed`), and exactly the passes are
required whose results go into those of the last one (`mem_required_iff`).
-/

namespace Flowgraph.Pass

/-! ## Passes that others rest on -/

/-- The results of a pass go into those of another, directly or by way of passes between. -/
def Serves (pass terminal : Pass) : Prop :=
  Relation.ReflTransGen (fun input user => input ∈ user.inputs) pass terminal

/-- A pass never comes after one that it serves. -/
theorem Serves.place_le {pass terminal : Pass} (serves : pass.Serves terminal) :
    pass.place ≤ terminal.place := by
  induction serves with
  | refl => exact Nat.le_refl _
  | tail _ isInput ih => exact ih.trans (place_lt_of_mem_inputs isInput).le

/-! ## What a visit adds -/

/-- Nothing is done about a pass that has been entered. -/
theorem visit_of_mem {pass : Pass} {visited : Visited} (entered : pass ∈ visited.entered) :
    visit pass visited = visited := by
  rw [visit, if_pos entered]

/-- A new pass is put in order after its inputs have been visited one by one. -/
theorem visit_of_not_mem {pass : Pass} {visited : Visited} (new : pass ∉ visited.entered) :
    visit pass visited =
      let inside := pass.inputs.foldl (fun visited input => visit input visited)
        { visited with entered := pass :: visited.entered }
      { inside with order := inside.order ++ [pass] } := by
  rw [visit, if_neg new]
  simp only [List.foldl_attach (f := fun visited input => visit input visited)]

namespace Visited

/-- A pass has been entered, and not all of its inputs have been visited yet. -/
def IsOpen (visited : Visited) (pass : Pass) : Prop :=
  pass ∈ visited.entered ∧ pass ∉ visited.order

/-- Each pass has been put in order once, and after its inputs. -/
structure InOrder (visited : Visited) : Prop where
  nodup : visited.order.Nodup
  entered : visited.order ⊆ visited.entered
  closed : ∀ pass ∈ visited.order, ∀ input ∈ pass.inputs, [input, pass].Sublist visited.order

/-- What it comes to if some passes are visited: they are in order then, with what serves them. -/
structure Adds (targets : List Pass) (before after : Visited) : Prop where
  inOrder : after.InOrder
  kept : before.order <+: after.order
  isOpen_iff : ∀ pass, after.IsOpen pass ↔ before.IsOpen pass
  target_mem : ∀ target ∈ targets, target ∈ after.order
  serves : ∀ pass ∈ after.order, pass ∈ before.order ∨ ∃ target ∈ targets, pass.Serves target

variable {before between after : Visited} {pass first : Pass} {rest targets : List Pass}

/-- Nothing is added if nothing is visited. -/
theorem Adds.nil (inOrder : before.InOrder) : Adds [] before before where
  inOrder := inOrder
  kept := List.prefix_rfl
  isOpen_iff := fun _ => Iff.rfl
  target_mem := nofun
  serves := fun _ member => .inl member

/-- What is added one after the other is added. -/
theorem Adds.cons (head : Adds [first] before between) (tail : Adds rest between after) :
    Adds (first :: rest) before after where
  inOrder := tail.inOrder
  kept := head.kept.trans tail.kept
  isOpen_iff := fun pass => (tail.isOpen_iff pass).trans (head.isOpen_iff pass)
  target_mem := List.forall_mem_cons.mpr
    ⟨tail.kept.subset (head.target_mem first (List.mem_singleton_self first)), tail.target_mem⟩
  serves := by
    intro pass member
    rcases tail.serves pass member with inBetween | ⟨target, isTarget, serves⟩
    · rcases head.serves pass inBetween with inBefore | ⟨target, isFirst, serves⟩
      · exact .inl inBefore
      · exact .inr ⟨target, List.mem_cons.mpr (.inl (List.mem_singleton.mp isFirst)), serves⟩
    · exact .inr ⟨target, List.mem_cons_of_mem first isTarget, serves⟩

/-- A pass that has been put in order is there without another visit. -/
theorem Adds.of_mem (inOrder : before.InOrder) (member : pass ∈ before.order) :
    Adds [pass] before before :=
  { Adds.nil inOrder with
    target_mem := List.forall_mem_singleton.mpr member
    serves := fun _ member => .inl member }

/-- An entered pass may be put in order once all of its inputs have been. -/
theorem InOrder.concat (inOrder : after.InOrder) (isOpen : after.IsOpen pass)
    (ready : ∀ input ∈ pass.inputs, input ∈ after.order) :
    InOrder { after with order := after.order ++ [pass] } := by
  obtain ⟨isEntered, notYet⟩ := isOpen
  constructor
  · refine List.nodup_append.mpr ⟨inOrder.nodup, List.pairwise_singleton _ _, ?_⟩
    intro other member last isLast same
    rw [same, List.mem_singleton.mp isLast] at member
    exact notYet member
  · exact List.append_subset.mpr
      ⟨inOrder.entered, List.cons_subset.mpr ⟨isEntered, List.nil_subset _⟩⟩
  · intro user member input isInput
    rcases List.mem_append.mp member with earlier | last
    · exact (inOrder.closed user earlier input isInput).trans (List.sublist_append_left _ _)
    · obtain rfl := List.mem_singleton.mp last
      exact (List.singleton_sublist.mpr (ready input isInput)).append (List.Sublist.refl [user])

/-- A pass that has been put in order is not open any more, and all others are as before. -/
theorem isOpen_concat_iff {other : Pass} :
    IsOpen { after with order := after.order ++ [pass] } other ↔
      after.IsOpen other ∧ other ≠ pass := by
  simp [IsOpen, and_assoc]

/-- A new pass is open as soon as it is entered, and all others are as before. -/
theorem isOpen_enter_iff {other : Pass} (absent : pass ∉ before.order) :
    IsOpen { before with entered := pass :: before.entered } other ↔
      other = pass ∨ before.IsOpen other := by
  by_cases isPass : other = pass <;> simp [IsOpen, isPass, absent]

/-- A pass is put in order behind its inputs. -/
theorem Adds.close (new : pass ∉ before.entered) (inOrder : before.InOrder)
    (inputs : Adds pass.inputs { before with entered := pass :: before.entered } after) :
    Adds [pass] before { after with order := after.order ++ [pass] } := by
  have absent : pass ∉ before.order := fun member => new (inOrder.entered member)
  have isOpen : after.IsOpen pass :=
    (inputs.isOpen_iff pass).mpr ((isOpen_enter_iff absent).mpr (.inl rfl))
  constructor
  case inOrder => exact inputs.inOrder.concat isOpen inputs.target_mem
  case kept => exact inputs.kept.trans (List.prefix_append _ _)
  case isOpen_iff =>
    intro other
    rw [isOpen_concat_iff, inputs.isOpen_iff, isOpen_enter_iff absent]
    constructor
    · rintro ⟨isPass | isOpen, notPass⟩
      · exact absurd isPass notPass
      · exact isOpen
    · intro isOpen
      exact ⟨.inr isOpen, ne_of_mem_of_not_mem isOpen.1 new⟩
  case target_mem => simp
  case serves =>
    intro other member
    rcases List.mem_append.mp member with earlier | last
    · rcases inputs.serves other earlier with old | ⟨input, isInput, serves⟩
      · exact .inl old
      · exact .inr ⟨pass, List.mem_singleton_self pass, serves.tail isInput⟩
    · obtain rfl := List.mem_singleton.mp last
      exact .inr ⟨other, List.mem_singleton_self other, .refl⟩

/-- Passes are visited one after the other if each of them can be. -/
theorem adds_foldl_visit (inOrder : before.InOrder)
    (each : ∀ target ∈ targets, ∀ visited : Visited, visited.InOrder →
      (∀ pass, visited.IsOpen pass ↔ before.IsOpen pass) →
        Adds [target] visited (visit target visited)) :
    Adds targets before (targets.foldl (fun visited target => visit target visited) before) := by
  induction targets generalizing before with
  | nil => exact Adds.nil inOrder
  | cons first rest ih =>
      obtain ⟨ofFirst, ofRest⟩ := List.forall_mem_cons.mp each
      have head := ofFirst before inOrder fun _ => Iff.rfl
      refine head.cons (ih head.inOrder fun target isTarget visited inOrder same => ?_)
      exact ofRest target isTarget visited inOrder fun pass =>
        (same pass).trans (head.isOpen_iff pass)

/-- A visit puts a pass in order if all passes on the way to it come later among all. -/
theorem adds_visit (inOrder : before.InOrder)
    (later : ∀ user, before.IsOpen user → pass.place < user.place) :
    Adds [pass] before (visit pass before) := by
  induction place : pass.place using Nat.strong_induction_on generalizing pass before with
  | h bound ih =>
      subst place
      by_cases entered : pass ∈ before.entered
      · -- A pass that has been entered and not put in order would come later than itself.
        have member : pass ∈ before.order := by
          by_contra absent
          exact (later pass ⟨entered, absent⟩).false
        rw [visit_of_mem entered]
        exact Adds.of_mem inOrder member
      · have absent : pass ∉ before.order := fun member => entered (inOrder.entered member)
        rw [visit_of_not_mem entered]
        refine Adds.close entered inOrder (adds_foldl_visit ?_ ?_)
        · exact ⟨inOrder.nodup, List.subset_cons_of_subset pass inOrder.entered, inOrder.closed⟩
        · intro input isInput visited visitedInOrder same
          have earlier := place_lt_of_mem_inputs isInput
          refine ih input.place earlier visitedInOrder ?_ rfl
          intro user isOpen
          rcases (isOpen_enter_iff absent).mp ((same user).mp isOpen) with rfl | isOpen
          · exact earlier
          · exact earlier.trans (later user isOpen)

end Visited

/-! ## The required passes -/

/-- All that is visited for a pass is visited from nothing. -/
theorem adds_required (terminal : Pass) : Visited.Adds [terminal] {} (visit terminal {}) :=
  Visited.adds_visit ⟨List.nodup_nil, List.Subset.refl [], nofun⟩ fun _ isOpen => nomatch isOpen.1

variable {terminal pass input : Pass}

theorem nodup_required (terminal : Pass) : terminal.required.Nodup :=
  (adds_required terminal).inOrder.nodup

theorem mem_required_self (terminal : Pass) : terminal ∈ terminal.required :=
  (adds_required terminal).target_mem terminal (List.mem_singleton_self terminal)

/-- The inputs of a required pass are required too, and come before it. -/
theorem required_closed (isRequired : pass ∈ terminal.required) (isInput : input ∈ pass.inputs) :
    [input, pass].Sublist terminal.required :=
  (adds_required terminal).inOrder.closed pass isRequired input isInput

/-- A pass is required exactly if its results go into those of the last one. -/
theorem mem_required_iff : pass ∈ terminal.required ↔ pass.Serves terminal := by
  constructor
  · intro isRequired
    rcases (adds_required terminal).serves pass isRequired with nothing | ⟨target, only, serves⟩
    · cases nothing
    · exact List.mem_singleton.mp only ▸ serves
  · intro serves
    induction serves using Relation.ReflTransGen.head_induction_on with
    | refl => exact mem_required_self terminal
    | head isInput _ isRequired =>
        exact (required_closed isRequired isInput).subset List.mem_cons_self

/-- The passes that are required stand first among all. -/
theorem required_eq_take (terminal : Pass) :
    terminal.required = all.take (terminal.place + 1) := by
  cases terminal <;> decide +kernel

/-- A pass that another one requires requires a first part of what the other one does. -/
theorem required_prefix {earlier later : Pass} (isRequired : earlier ∈ later.required) :
    earlier.required <+: later.required := by
  have before := (mem_required_iff.mp isRequired).place_le
  rw [required_eq_take, required_eq_take]
  exact List.take_prefix_take_left (Nat.succ_le_succ before)

/-! ## Passes in a proper order -/

/-- Passes whose inputs are made before them. -/
def InputsFirst (done : List Pass) : List Pass → Prop
  | [] => True
  | pass :: rest => (∀ input ∈ pass.inputs, input ∈ done) ∧ InputsFirst (pass :: done) rest

variable {done passes : List Pass}

/-- The order stays a proper one if more is done before. -/
theorem InputsFirst.mono {more : List Pass} (subset : done ⊆ more)
    (ordered : InputsFirst done passes) : InputsFirst more passes := by
  induction passes generalizing done more with
  | nil => trivial
  | cons pass rest ih =>
      obtain ⟨ready, later⟩ := ordered
      exact ⟨fun input isInput => subset (ready input isInput),
        ih (List.cons_subset_cons pass subset) later⟩

/-- What a pass works on is among the passes before it, or was done before all of them. -/
theorem InputsFirst.input_mem {front : List Pass} (ordered : InputsFirst done passes)
    (isPrefix : front <+: passes) (member : pass ∈ front) (isInput : input ∈ pass.inputs) :
    input ∈ done ++ front := by
  induction front generalizing done passes with
  | nil => cases member
  | cons first others ih =>
      obtain ⟨rest, rfl⟩ := isPrefix
      obtain ⟨ready, later⟩ := ordered
      rcases List.mem_cons.mp member with rfl | member
      · exact List.mem_append_left _ (ready input isInput)
      · have earlier := ih later (List.prefix_append others rest) member
        simpa [or_left_comm] using earlier

/-- What stands before an element that is there once stands in the part before it. -/
theorem mem_of_pair_sublist {front rest : List Pass} (nodup : (front ++ pass :: rest).Nodup)
    (pair : [input, pass].Sublist (front ++ pass :: rest)) : input ∈ front := by
  obtain ⟨left, right, split, inFront, inRest⟩ := List.sublist_append_iff.mp pair
  cases left with
  | nil =>
      obtain rfl : [input, pass] = right := split
      have again : pass ∈ rest := inRest.tail.subset List.mem_cons_self
      exact absurd again (List.nodup_cons.mp (List.nodup_append.mp nodup).2.1).1
  | cons first others =>
      obtain ⟨rfl, -⟩ := List.cons.inj split
      exact inFront.subset List.mem_cons_self

/-- Passes that are listed once, each after its inputs, are in a proper order. -/
theorem inputsFirst_of_closed {front rest : List Pass} (nodup : (front ++ rest).Nodup)
    (closed : ∀ pass ∈ rest, ∀ input ∈ pass.inputs, [input, pass].Sublist (front ++ rest)) :
    InputsFirst front rest := by
  induction rest generalizing front with
  | nil => trivial
  | cons pass others ih =>
      obtain ⟨ofPass, ofOthers⟩ := List.forall_mem_cons.mp closed
      refine ⟨fun input isInput => mem_of_pair_sublist nodup (ofPass input isInput), ?_⟩
      rw [List.append_cons] at nodup ofOthers
      exact (ih nodup ofOthers).mono (by simp)

/-- The required passes are in a proper order. -/
theorem inputsFirst_required (terminal : Pass) : InputsFirst [] terminal.required :=
  inputsFirst_of_closed (nodup_required terminal) fun _ isRequired _ isInput =>
    required_closed isRequired isInput

end Flowgraph.Pass
