import Flowgraph.Diagnostic
import Flowgraph.Proofs.Source.Joining
import Mathlib.Algebra.Group.Nat.Defs
import Mathlib.Data.List.Induction

/-!
# Positions from the starts of lines

A program keeps the offsets at which its lines start.  The line of an offset is searched
among them, and the column is counted in the part of the line before the offset.  On this
way an index can be out of range, a cut can fall inside a character, and a number can need
more than 32 bits; a guarded function gives nothing in these cases.

At an offset between two characters none of this happens, and the position is the one that
is found by counting line feeds (`SourceFile.guardedPosition_eq`).
-/

namespace Flowgraph

/-- The greatest length of a text, in bytes, for which numbers of 32 bits are enough. -/
def lengthLimit : Nat := 2 ^ 31

/-- The number of values of a word of 32 bits. -/
def wordLimit : Nat := 2 ^ 32

/-- A guarded function that gives what another gives makes the same list of it. -/
theorem mapM_eq_some_map {α β : Type} {guarded : α → Option β} {total : α → β} {values : List α}
    (each : ∀ value ∈ values, guarded value = some (total value)) :
    values.mapM guarded = some (values.map total) := by
  induction values with
  | nil => rfl
  | cons value rest ih =>
      rw [List.mapM_cons, each value (List.mem_cons_self ..),
        ih fun other member => each other (List.mem_cons_of_mem _ member)]
      rfl

namespace SourceFile

/-! ## Guarded computations -/

/-- The offsets after the line feeds of a text that begins at an offset. -/
def lineStartsFrom (offset : Nat) : List Char → List Nat
  | [] => []
  | c :: rest =>
      (if c = '\n' then [offset + 1] else []) ++ lineStartsFrom (offset + c.utf8Size) rest

/-- The offset at which each line starts. -/
def lineStarts (source : SourceFile) : List Nat :=
  0 :: lineStartsFrom 0 source.characters

/-- The place of the last start that is not behind an offset, found by a search for the offset. -/
def lineIndex? (starts : List Nat) (offset : Nat) : Option Nat :=
  let place := starts.findIdx (offset ≤ ·)
  if starts[place]? = some offset then some place
  else if place = 0 then none
  else some (place - 1)

/-- The position of an offset, if nothing goes wrong on the way to it. -/
def guardedPosition (source : SourceFile) (offset : Nat) : Option Position := do
  let bounded := min offset source.length
  let line ← lineIndex? source.lineStarts bounded
  let start ← source.lineStarts[line]?
  let before ← Text.slice? source.characters start bounded
  if line + 1 < wordLimit ∧ before.length + 1 < wordLimit then
    return ⟨line + 1, before.length + 1, bounded⟩
  else none

/-- The location of a span, if both of its ends have a position. -/
def guardedLocation (source : SourceFile) (span : Span) : Option Location := do
  return ⟨source.name, ← source.guardedPosition span.start, ← source.guardedPosition span.stop⟩

/-! ## Lines -/

theorem lt_of_mem_lineStartsFrom {offset start : Nat} {text : List Char}
    (member : start ∈ lineStartsFrom offset text) : offset < start := by
  induction text generalizing offset with
  | nil => cases member
  | cons c rest ih =>
      rcases List.mem_append.mp member with here | later
      · split_ifs at here
        · rw [List.mem_singleton.mp here]
          exact Nat.lt_succ_self offset
        · cases here
      · exact Nat.lt_of_le_of_lt (Nat.le_add_right _ _) (ih later)

theorem lastLine_concat (before : List Char) (c : Char) :
    lastLine (before ++ [c]) = if c = '\n' then [] else lastLine before ++ [c] := by
  rw [lastLine, List.reverse_append, List.reverse_singleton, List.singleton_append,
    List.takeWhile_cons]
  by_cases newline : c = '\n' <;> simp [newline, lastLine]

/--
The starts of lines up to a place of a text: one for every line feed before the place, and
before them the start of the text.  The last of them is where the line of the place starts.
-/
theorem exists_lineStarts (before after : List Char) :
    ∃ starts above, before = above ++ lastLine before ∧
      0 :: lineStartsFrom 0 (before ++ after) =
        starts ++ Text.byteLength above ::
          lineStartsFrom (Text.byteLength before) after ∧
      starts.length = before.count '\n' ∧ ∀ start ∈ starts, start < Text.byteLength above := by
  induction before using List.reverseRecOn generalizing after with
  | nil => exact ⟨[], [], rfl, rfl, rfl, by simp⟩
  | append_singleton before c ih =>
      obtain ⟨starts, above, split, lines, count, ordered⟩ := ih (c :: after)
      have length := congrArg Text.byteLength split
      rw [Text.byteLength_append] at length
      rw [lineStartsFrom] at lines
      rw [List.append_assoc, List.singleton_append, lines, lastLine_concat, Text.byteLength_append,
        List.count_append]
      by_cases newline : c = '\n'
      · subst newline
        refine ⟨starts ++ [Text.byteLength above], before ++ ['\n'], ?_, ?_, ?_, ?_⟩
        · simp
        · simp [Text.byteLength_append]
          rfl
        · simp [count]
        · intro start member
          have positive : Text.byteLength (before ++ ['\n']) = Text.byteLength before + 1 :=
            Text.byteLength_append before ['\n']
          rcases List.mem_append.mp member with earlier | last
          · have := ordered start earlier
            omega
          · rw [List.mem_singleton.mp last]
            omega
      · refine ⟨starts, above, ?_, ?_, ?_, ordered⟩
        · rw [if_neg newline, ← List.append_assoc, ← split]
        · simp [newline]
        · simp [count, newline]

/-- The search finds the last start that is not behind the offset. -/
theorem lineIndex?_eq {starts later : List Nat} {start offset : Nat}
    (before : ∀ other ∈ starts, other < start) (here : start ≤ offset)
    (behind : ∀ other ∈ later, offset < other) :
    lineIndex? (starts ++ start :: later) offset = some starts.length := by
  have passed : ¬ starts.findIdx (offset ≤ ·) < starts.length := by
    rw [List.findIdx_lt_length]
    rintro ⟨other, member, le⟩
    have := before other member
    simp only [decide_eq_true_eq] at le
    omega
  rcases Nat.eq_or_lt_of_le here with rfl | beyond
  · have place : (starts ++ start :: later).findIdx (start ≤ ·) = starts.length := by
      rw [List.findIdx_append, if_neg passed, List.findIdx_cons]
      simp
    simp [lineIndex?, place]
  · have place : (starts ++ start :: later).findIdx (offset ≤ ·) = starts.length + 1 := by
      have first : later.findIdx (offset ≤ ·) = 0 := by
        cases later with
        | nil => rfl
        | cons other rest =>
            have := behind other (List.mem_cons_self ..)
            simp [List.findIdx_cons, this.le]
      have missed : decide (offset ≤ start) = false := by simpa using beyond
      rw [List.findIdx_append, if_neg passed, List.findIdx_cons]
      simp [first, missed, Nat.add_comm]
    have absent : (starts ++ start :: later)[starts.length + 1]? ≠ some offset := by
      rw [List.getElem?_append_right (by omega), Nat.add_sub_cancel_left,
        List.getElem?_cons_succ]
      intro found
      exact absurd (behind offset (List.mem_of_getElem? found)) (Nat.lt_irrefl _)
    simp [lineIndex?, place, absent]

/-! ## Positions -/

theorem length_le_byteLength (text : List Char) : text.length ≤ Text.byteLength text := by
  induction text with
  | nil => exact Nat.le_refl _
  | cons c rest ih =>
      have positive := c.utf8Size_pos
      rw [List.length_cons, Text.byteLength_cons]
      omega

variable {source : SourceFile} (small : source.length < lengthLimit)

include small

/-- Between two characters nothing goes wrong. -/
theorem guardedPosition_eq {offset : Nat} (boundary : IsBoundary source.characters offset) :
    source.guardedPosition offset = some (source.position offset) := by
  obtain ⟨before, after, split, rfl⟩ := boundary
  obtain ⟨starts, above, line, lines, count, ordered⟩ := exists_lineStarts before after
  have length : source.length = Text.byteLength before + Text.byteLength after := by
    rw [SourceFile.length, split, Text.byteLength_append]
  have lineLength := congrArg Text.byteLength line
  rw [Text.byteLength_append] at lineLength
  have bounded : min (Text.byteLength before) source.length = Text.byteLength before := by omega
  have later : ∀ start ∈ lineStartsFrom (Text.byteLength before) after,
      Text.byteLength before < start := fun start => lt_of_mem_lineStartsFrom
  have index := lineIndex?_eq ordered (show _ ≤ Text.byteLength before by omega) later
  have slice : Text.slice? source.characters (Text.byteLength above) (Text.byteLength before) =
      some (lastLine before) := by
    have cut := Text.slice?_append above (lastLine before) after
    rwa [← List.append_assoc, ← line, ← lineLength, ← split] at cut
  have here : Text.charactersBefore (Text.byteLength before) source.characters = before := by
    have whole := Text.charactersBefore_append_right before after 0
    rwa [Nat.add_zero, Text.charactersBefore_zero, List.append_nil, ← split] at whole
  have manyLines : before.count '\n' ≤ Text.byteLength before :=
    List.count_le_length.trans (length_le_byteLength before)
  have manyColumns := length_le_byteLength (lastLine before)
  have fits : starts.length + 1 < wordLimit ∧ (lastLine before).length + 1 < wordLimit := by
    simp only [lengthLimit, wordLimit] at small ⊢
    omega
  have atLine : (starts ++ Text.byteLength above ::
      lineStartsFrom (Text.byteLength before) after)[starts.length]? =
        some (Text.byteLength above) := by simp
  simp only [guardedPosition, position, bounded, lineStarts, split, lines, index,
    Option.bind_eq_bind, Option.bind_some, atLine]
  rw [← split, slice, here, ← count]
  simp only [Option.bind_some, if_pos fits]
  rfl

theorem guardedLocation_eq {span : Span} (within : span.Within source.characters) :
    source.guardedLocation span = some (source.location span) := by
  rw [guardedLocation, guardedPosition_eq small within.starts,
    guardedPosition_eq small within.stops]
  rfl

end SourceFile

/-! ## Diagnostics -/

namespace Diagnostic

/-- Every place that a diagnostic points to: the primary one, those beside it, and the causes. -/
def spans (diagnostic : Diagnostic) : List Span :=
  diagnostic.span ::
    (diagnostic.related.map RelatedSpan.span ++ diagnostic.causes.filterMap Cause.span)

/-- Every place that a diagnostic points to is in the text. -/
def Within (text : List Char) (diagnostic : Diagnostic) : Prop :=
  ∀ span ∈ diagnostic.spans, span.Within text

/-- A related place as a line, if it has a location. -/
def guardedRelatedLine (source : SourceFile) (related : RelatedSpan) : Option String := do
  let location ← source.guardedLocation related.span
  return "\n  = note: " ++ related.label ++ " (" ++ location.text ++ ")"

/-- A cause as a line, if its place has a location. -/
def guardedCauseLine (source : SourceFile) (cause : Cause) : Option String :=
  match cause.span with
  | some span => do
      let location ← source.guardedLocation span
      return "\n  = cause: " ++ cause.message ++ (" (" ++ location.text ++ ")")
  | none => return "\n  = cause: " ++ cause.message ++ ""

/-- The full text of an error, if all of its places have locations. -/
def guardedRender (diagnostic : Diagnostic) (source : SourceFile) : Option String := do
  let location ← source.guardedLocation diagnostic.span
  let related ← diagnostic.related.mapM (guardedRelatedLine source)
  let causes ← diagnostic.causes.mapM (guardedCauseLine source)
  return diagnostic.headline ++ "\n  --> " ++ location.text ++ String.join related ++
    String.join causes ++
    (match diagnostic.hint with
      | some hint => "\n  = hint: " ++ hint
      | none => "")

/-- The report of an error, if its place has a location. -/
def guardedReport (diagnostic : Diagnostic) (source : SourceFile) : Option ErrorReport := do
  let location ← source.guardedLocation diagnostic.span
  return ⟨(diagnostic.code.map DiagnosticCode.text).getD "ERROR", diagnostic.message, location⟩

variable {diagnostic : Diagnostic} {source : SourceFile}
  (small : source.length < lengthLimit) (within : diagnostic.Within source.characters)

include small within

theorem guardedReport_eq : diagnostic.guardedReport source = some (diagnostic.report source) := by
  have primary := within diagnostic.span (List.mem_cons_self ..)
  rw [guardedReport, SourceFile.guardedLocation_eq small primary]
  rfl

theorem guardedRender_eq : diagnostic.guardedRender source = some (diagnostic.render source) := by
  have primary := within diagnostic.span (List.mem_cons_self ..)
  have related : diagnostic.related.mapM (guardedRelatedLine source) =
      some (diagnostic.related.map (relatedLine source)) := by
    refine mapM_eq_some_map fun related member => ?_
    have beside := within related.span
      (List.mem_cons_of_mem _ (List.mem_append_left _ (List.mem_map_of_mem member)))
    rw [guardedRelatedLine, SourceFile.guardedLocation_eq small beside]
    rfl
  have causes : diagnostic.causes.mapM (guardedCauseLine source) =
      some (diagnostic.causes.map (causeLine source)) := by
    refine mapM_eq_some_map fun cause member => ?_
    rw [guardedCauseLine, causeLine]
    cases place : cause.span with
    | none => rfl
    | some span =>
        have step := within span (List.mem_cons_of_mem _ (List.mem_append_right _
          (List.mem_filterMap.mpr ⟨cause, member, place⟩)))
        dsimp only
        rw [SourceFile.guardedLocation_eq small step]
        rfl
  rw [guardedRender, SourceFile.guardedLocation_eq small primary, related, causes]
  rfl

end Diagnostic

end Flowgraph
