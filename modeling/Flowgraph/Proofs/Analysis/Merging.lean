import Flowgraph.Proofs.Analysis.Classes

/-!
# Inputs that are merged

Joining two classes is associative, and bounded data is its identity on both sides, so that
inputs may be combined in groups (`TemporalClass.combine_append`).  It is not commutative: of
equally dangerous classes the first is kept, and with it the source that is to blame.  All
inputs together therefore have the class of the first that is not exceeded by any
(`TemporalClass.combine_eq_firstMaximum?`).

How dangerous they are together is a maximum of ranks and depends on neither order nor
grouping.  An operator that is no source keeps this maximum (`Transform.rank_apply_combine`),
although what it gives out may come from another source if it is applied first.
-/

namespace Flowgraph

namespace TemporalClass

/-! ## Groups of inputs -/

@[simp]
theorem join_bounded (value : TemporalClass) : value.join bounded = value := by
  cases value <;> rfl

theorem join_assoc (first second third : TemporalClass) :
    (first.join second).join third = first.join (second.join third) := by
  cases first <;> cases second <;> cases third <;> rfl

instance : Std.Associative join := ⟨join_assoc⟩

/-- Inputs may be combined in two groups. -/
theorem combine_append (first second : List TemporalClass) :
    combine (first ++ second) = (combine first).join (combine second) := by
  calc
    combine (first ++ second) = second.foldl join (combine first) := by
      rw [combine_eq_foldl, List.foldl_append, ← combine_eq_foldl]
    _ = second.foldl join ((combine first).join bounded) := by rw [join_bounded]
    _ = (combine first).join (second.foldl join bounded) := List.foldl_assoc
    _ = (combine first).join (combine second) := by rw [← combine_eq_foldl]

/-! ## The first of the most dangerous -/

/-- The first of the classes that no class among them exceeds. -/
def firstMaximum? (values : List TemporalClass) : Option TemporalClass :=
  values.find? fun value => values.all fun other => other.rank ≤ value.rank

theorem combine_mem {values : List TemporalClass} (nonempty : values ≠ []) :
    combine values ∈ values := by
  obtain ⟨before, after, split, -⟩ := combine_splits nonempty
  have member : combine values ∈ before ++ combine values :: after :=
    List.mem_append_right before List.mem_cons_self
  rwa [← split] at member

theorem firstMaximum?_of_ne_nil {values : List TemporalClass} (nonempty : values ≠ []) :
    firstMaximum? values = some (combine values) := by
  obtain ⟨before, after, split, less, -⟩ := combine_splits nonempty
  refine List.find?_eq_some_iff_append.mpr ⟨?_, before, after, split, fun earlier member => ?_⟩
  · exact List.all_eq_true.mpr fun other isInput => decide_eq_true (rank_le_combine isInput)
  · -- What comes before the combined class is exceeded by it.
    have exceeded : ¬ (combine values).rank ≤ earlier.rank := not_le.mpr (less earlier member)
    rw [Bool.not_eq_true', List.all_eq_false]
    exact ⟨combine values, combine_mem nonempty, by simpa using exceeded⟩

theorem combine_eq_firstMaximum? (values : List TemporalClass) :
    combine values = (firstMaximum? values).getD bounded := by
  rcases eq_or_ne values [] with rfl | nonempty
  · rfl
  · rw [firstMaximum?_of_ne_nil nonempty, Option.getD_some]

/-! ## How dangerous inputs are together -/

theorem rank_combine (values : List TemporalClass) :
    (combine values).rank = (values.map rank).foldl max 0 := by
  induction values using List.reverseRecOn with
  | nil => rfl
  | append_singleton values last ih => simp [combine_concat, rank_join, ih]

theorem rank_combine_append (first second : List TemporalClass) :
    (combine (first ++ second)).rank = max (combine first).rank (combine second).rank := by
  rw [combine_append, rank_join]

/-- Their order does not matter for this. -/
theorem rank_combine_of_perm {first second : List TemporalClass} (same : first.Perm second) :
    (combine first).rank = (combine second).rank := by
  rw [rank_combine, rank_combine]
  exact (same.map rank).foldl_eq 0

end TemporalClass

namespace Transform

variable {transform : Transform}

/-- Apart from sources, operators keep the greater of two dangers. -/
theorem rank_apply_join (passes : transform ≠ .origin) (first second : TemporalClass)
    (options : OperatorOptions) (location : Location) :
    (transform.apply (first.join second) options location).rank =
      max (transform.apply first options location).rank
        (transform.apply second options location).rank := by
  unfold TemporalClass.join
  split
  case isTrue less => exact (max_eq_right (rank_apply_mono passes less.le _ _)).symm
  case isFalse notLess => exact (max_eq_left (rank_apply_mono passes (not_lt.mp notLess) _ _)).symm

/-- What an operator makes of all inputs is as dangerous as what it makes of each, combined. -/
theorem rank_apply_combine (passes : transform ≠ .origin) (values : List TemporalClass)
    (options : OperatorOptions) (location : Location) :
    (transform.apply (TemporalClass.combine values) options location).rank =
      (TemporalClass.combine
        (values.map fun value => transform.apply value options location)).rank := by
  induction values using List.reverseRecOn with
  | nil =>
      cases transform with
      | origin => exact absurd rfl passes
      | window | unwindow | preserve => rfl
  | append_singleton values last ih =>
      rw [TemporalClass.combine_concat, rank_apply_join passes, ih, List.map_append,
        List.map_singleton, TemporalClass.combine_concat, TemporalClass.rank_join]

end Transform

namespace TemporalClass

/-! ## Main result -/

/--
Inputs that meet have the class of the first that is not exceeded by any, and bounded data
stands for no inputs.  Joining is associative, with bounded data as its identity, so that inputs
may be combined in groups.  In another order they are as dangerous as before, and so is what
an operator that is no source makes of them, before or after they meet.
-/
theorem combine_laws :
    (∀ values, combine values = (firstMaximum? values).getD bounded) ∧
      (∀ first second third : TemporalClass,
        (first.join second).join third = first.join (second.join third)) ∧
      (∀ value, bounded.join value = value ∧ value.join bounded = value) ∧
      (∀ first second, combine (first ++ second) = (combine first).join (combine second)) ∧
      (∀ first second : List TemporalClass, first.Perm second →
        (combine first).rank = (combine second).rank) ∧
      ∀ transform : Transform, transform ≠ .origin → ∀ values options location,
        (transform.apply (combine values) options location).rank =
          (combine (values.map fun value => transform.apply value options location)).rank := by
  refine ⟨combine_eq_firstMaximum?, join_assoc, ?_, combine_append, ?_, ?_⟩
  · intro value
    exact ⟨bounded_join value, join_bounded value⟩
  · intro first second same
    exact rank_combine_of_perm same
  · intro transform passes values options location
    exact Transform.rank_apply_combine passes values options location

/-- Four inputs, of which the last two are equally dangerous. -/
def tiedInputs : List TemporalClass :=
  let location (place : Position) : Location := ⟨"main", place, place⟩
  [.bounded, .liveWindowed (location ⟨1, 5, 4⟩), .liveUnbounded (location ⟨1, 9, 8⟩),
    .liveUnbounded (location ⟨2, 1, 13⟩)]

/--
The first of the two is to blame, and in the other order the second is.  If each input is cut
into windows by itself, the one before them is to blame, but together they are as dangerous
as if they were cut after they met.
-/
theorem combine_laws_tiedInputs :
    combine tiedInputs = tiedInputs[2] ∧ combine tiedInputs.reverse = tiedInputs[3] ∧
      (combine tiedInputs).rank = (combine tiedInputs.reverse).rank ∧
      (Transform.window.apply (combine tiedInputs) {} default).rank =
        (combine (tiedInputs.map fun value => Transform.window.apply value {} default)).rank ∧
      combine (tiedInputs.map fun value => Transform.window.apply value {} default) =
        tiedInputs[1] := by
  obtain ⟨isFirst, -, -, -, ordered, transformed⟩ := combine_laws
  have reversed : tiedInputs.Perm tiedInputs.reverse := (List.reverse_perm _).symm
  refine ⟨?_, ?_, ordered _ _ reversed, transformed .window (by decide) _ _ _, ?_⟩
  all_goals
    rw [isFirst]
    decide

end TemporalClass

end Flowgraph
