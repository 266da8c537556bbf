import Flowgraph.Proofs.Source.Guarded
import Mathlib.Data.Prod.Lex

/-!
# Positions of offsets

An offset between two characters divides a text into what is before it and what is after
it.  What is before it consists of whole lines and of the beginning of one more line, and
the position of the offset counts both (`Position.Marks`).  The search among the starts of
lines finds exactly this position (`SourceFile.positions_exact`).

Of two such offsets the later one is on a later line, or on the same line in a later column.
Line and column together therefore tell the offset.
-/

namespace Flowgraph

/--
The position counts what is before an offset: whole lines, each with its line feed, and then
the beginning of one more line, which has none.
-/
def Position.Marks (text : List Char) (offset : Nat) (position : Position) : Prop :=
  ∃ above line after, text = above ++ line ++ after ∧ offset = Text.byteLength (above ++ line) ∧
    (∀ c ∈ above.getLast?, c = '\n') ∧ '\n' ∉ line ∧
    position = ⟨(above ++ line).count '\n' + 1, line.length + 1, offset⟩

namespace SourceFile

/-! ## Lines -/

/-- A text without line feeds goes on with the last line. -/
theorem lastLine_append (before : List Char) {line : List Char} (unbroken : '\n' ∉ line) :
    lastLine (before ++ line) = lastLine before ++ line := by
  have visible : ∀ c ∈ line.reverse, (c != '\n') = true := by
    intro c member
    rw [List.mem_reverse] at member
    exact bne_iff_ne.mpr fun same => unbroken (same ▸ member)
  rw [lastLine, lastLine, List.reverse_append, List.takeWhile_append_of_pos visible,
    List.reverse_append, List.reverse_reverse]

/-- After whole lines the last line is empty. -/
theorem lastLine_of_whole {above : List Char} (whole : ∀ c ∈ above.getLast?, c = '\n') :
    lastLine above = [] := by
  rcases List.eq_nil_or_concat above with rfl | ⟨before, last, rfl⟩
  · rfl
  · rw [List.concat_eq_append] at whole ⊢
    rw [lastLine_concat, if_pos (whole last (by simp))]

/-- Every text consists of whole lines and of the beginning of one more. -/
theorem exists_lines (before : List Char) :
    ∃ above, before = above ++ lastLine before ∧ (∀ c ∈ above.getLast?, c = '\n') ∧
      '\n' ∉ lastLine before := by
  refine ⟨(before.reverse.dropWhile (· != '\n')).reverse, ?_, ?_, ?_⟩
  · rw [lastLine, ← List.reverse_append, List.takeWhile_append_dropWhile, List.reverse_reverse]
  · intro c member
    rw [List.getLast?_reverse] at member
    have kept := List.head?_dropWhile_not (· != '\n') before.reverse
    rw [Option.mem_def.mp member] at kept
    simpa using kept
  · intro member
    rw [lastLine, List.mem_reverse] at member
    simpa using List.mem_takeWhile_imp member

/-! ## Positions -/

variable {source : SourceFile}

/-- The position of an offset counts the characters before it. -/
theorem position_of_split {before after : List Char} (split : source.characters = before ++ after) :
    source.position (Text.byteLength before) =
      ⟨before.count '\n' + 1, (lastLine before).length + 1, Text.byteLength before⟩ := by
  have length : source.length = Text.byteLength before + Text.byteLength after := by
    rw [SourceFile.length, split, Text.byteLength_append]
  have bounded : min (Text.byteLength before) source.length = Text.byteLength before := by omega
  have here := Text.charactersBefore_append_right before after 0
  rw [Nat.add_zero, Text.charactersBefore_zero, List.append_nil] at here
  simp only [position, bounded, split, here]

theorem marks_position_iff {offset : Nat} (boundary : IsBoundary source.characters offset)
    (position : Position) :
    position.Marks source.characters offset ↔ source.position offset = position := by
  constructor
  · rintro ⟨above, line, after, split, rfl, whole, unbroken, rfl⟩
    rw [position_of_split split, lastLine_append above unbroken, lastLine_of_whole whole,
      List.nil_append]
  · rintro rfl
    obtain ⟨before, after, split, rfl⟩ := boundary
    obtain ⟨above, lines, whole, unbroken⟩ := exists_lines before
    refine ⟨above, lastLine before, after, by rw [← lines, split], by rw [← lines], whole,
      unbroken, ?_⟩
    rw [← lines, position_of_split split]

/-- An offset past the end stands for the end. -/
theorem position_of_length_le {offset : Nat} (past : source.length ≤ offset) :
    source.position offset = source.position source.length := by
  simp only [position, Nat.min_eq_right past, Nat.min_self]

theorem guardedPosition_of_length_le {offset : Nat} (past : source.length ≤ offset) :
    source.guardedPosition offset = source.guardedPosition source.length := by
  simp only [guardedPosition, Nat.min_eq_right past, Nat.min_self]

theorem offset_position {offset : Nat} (boundary : IsBoundary source.characters offset) :
    (source.position offset).offset = offset := by
  obtain ⟨before, after, split, rfl⟩ := boundary
  rw [position_of_split split]

/-! ## The order of positions -/

/-- A position by what a reader sees of it: first the line, then the column. -/
def lineAndColumn (source : SourceFile) (offset : Nat) : Nat ×ₗ Nat :=
  toLex ((source.position offset).line, (source.position offset).column)

/-- A later offset is on a later line, or further to the right on the same line. -/
theorem lineAndColumn_lt {offset later : Nat} (boundary : IsBoundary source.characters offset)
    (laterBoundary : IsBoundary source.characters later) (less : offset < later) :
    source.lineAndColumn offset < source.lineAndColumn later := by
  obtain ⟨before, after, split, rfl⟩ := boundary
  obtain ⟨upTo, rest, splitLater, rfl⟩ := laterBoundary
  obtain ⟨between, rfl⟩ :=
    Text.prefix_of_byteLength_le (split.symm.trans splitLater) (Nat.le_of_lt less)
  simp only [lineAndColumn, position_of_split split, position_of_split splitLater,
    Prod.Lex.toLex_lt_toLex, List.count_append]
  by_cases broken : '\n' ∈ between
  · have more := List.count_pos_iff.mpr broken
    exact .inl (by omega)
  · have nonempty : between ≠ [] := by
      rintro rfl
      simp at less
    have positive := List.length_pos_iff.mpr nonempty
    rw [List.count_eq_zero_of_not_mem broken, lastLine_append before broken, List.length_append]
    exact .inr ⟨rfl, by omega⟩

theorem lineAndColumn_inj {offset other : Nat} (boundary : IsBoundary source.characters offset)
    (otherBoundary : IsBoundary source.characters other)
    (same : source.lineAndColumn offset = source.lineAndColumn other) : offset = other := by
  rcases Nat.lt_trichotomy offset other with less | equal | greater
  · exact absurd same (lineAndColumn_lt boundary otherBoundary less).ne
  · exact equal
  · exact absurd same (lineAndColumn_lt otherBoundary boundary greater).ne'

/--
In a text of less than `2 ^ 31` bytes the search among the starts of lines finds for every
offset between two characters the position that counts the lines and characters before it,
and for an offset past the end the position of the end.  Later offsets have greater lines
and columns, no two have the same, and a span is known from its location.
-/
theorem positions_exact {source : SourceFile} (small : source.length < lengthLimit) :
    (∀ offset, IsBoundary source.characters offset →
      source.guardedPosition offset = some (source.position offset) ∧
        ∀ position, source.guardedPosition offset = some position ↔
          position.Marks source.characters offset) ∧
      (∀ offset, source.length ≤ offset →
        source.guardedPosition offset = source.guardedPosition source.length ∧
          source.position offset = source.position source.length) ∧
      (∀ offset later, IsBoundary source.characters offset → IsBoundary source.characters later →
        (offset < later ↔ source.lineAndColumn offset < source.lineAndColumn later) ∧
          (source.lineAndColumn offset = source.lineAndColumn later → offset = later)) ∧
      ∀ span, IsBoundary source.characters span.start → IsBoundary source.characters span.stop →
        source.guardedLocation span = some (source.location span) ∧
          (source.location span).span = span := by
  refine ⟨fun offset boundary => ?_, fun offset past => ?_, fun offset later boundary also => ?_,
    fun span starts stops => ?_⟩
  · have found := guardedPosition_eq small boundary
    refine ⟨found, fun position => ?_⟩
    rw [found, Option.some.injEq, marks_position_iff boundary]
  · exact ⟨guardedPosition_of_length_le past, position_of_length_le past⟩
  · refine ⟨⟨lineAndColumn_lt boundary also, fun less => ?_⟩, lineAndColumn_inj boundary also⟩
    rcases Nat.lt_trichotomy offset later with before | rfl | behind
    · exact before
    · exact absurd less (lt_irrefl _)
    · exact absurd less (lineAndColumn_lt also boundary behind).not_gt
  · constructor
    · rw [guardedLocation, guardedPosition_eq small starts, guardedPosition_eq small stops]
      rfl
    · simp only [location, Location.span, offset_position starts, offset_position stops]

/-- Three lines, one of them empty and one with a character of two bytes. -/
def accented : SourceFile :=
  .unnamed "é|\n\nx"

/-- The last character of that text is at offset 5, on its third line. -/
theorem positions_exact_accented :
    accented.length < lengthLimit ∧ IsBoundary accented.characters 5 ∧
      accented.guardedPosition 5 = some ⟨3, 1, 5⟩ ∧
      accented.guardedPosition 9 = some ⟨3, 2, 6⟩ ∧
      accented.lineAndColumn 2 < accented.lineAndColumn 5 := by
  have small : accented.length < lengthLimit := by decide
  have boundary : IsBoundary accented.characters 5 := ⟨"é|\n\n".toList, ['x'], by decide, by decide⟩
  have second : IsBoundary accented.characters 2 := ⟨['é'], "|\n\nx".toList, by decide, by decide⟩
  have ends : IsBoundary accented.characters 6 := ⟨accented.characters, [], by decide, by decide⟩
  obtain ⟨exact, past, ordered, -⟩ := positions_exact small
  refine ⟨small, boundary, ?_, ?_, ?_⟩
  · exact ((exact 5 boundary).2 _).mpr
      ⟨"é|\n\n".toList, [], ['x'], rfl, rfl, by simp, by decide, rfl⟩
  · rw [(past 9 (by decide)).1]
    exact ((exact 6 ends).2 _).mpr
      ⟨"é|\n\n".toList, ['x'], [], rfl, rfl, by simp, by decide, rfl⟩
  · exact (ordered 2 5 second boundary).1.mp (by decide)

end SourceFile

end Flowgraph
