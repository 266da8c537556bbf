import Flowgraph.Proofs.Token.Joining
import Flowgraph.Source

/-!
# Places in texts that are put together

A place of the first text is shown as before.  A place of the second text is shown as many
lines further down as there are before it now, in the same column, because a line ends
right before it (`SourceFile.position_joined_right`).
-/

namespace Flowgraph

namespace Text

/-- Nothing starts before the first byte. -/
theorem charactersBefore_zero (text : List Char) : charactersBefore 0 text = [] := by
  cases text <;> rfl

/-- Up to its end the first text decides which characters start before an offset. -/
theorem charactersBefore_append_left {left : List Char} (right : List Char) {offset : Nat}
    (within : offset ≤ byteLength left) :
    charactersBefore offset (left ++ right) = charactersBefore offset left := by
  induction left generalizing offset with
  | nil =>
      obtain rfl := Nat.le_zero.mp within
      exact charactersBefore_zero right
  | cons c rest ih =>
      rw [byteLength_cons] at within
      rw [List.cons_append, charactersBefore, charactersBefore, ih (by omega)]

/-- Past the first text the whole of it comes before, and then a part of the second. -/
theorem charactersBefore_append_right (left right : List Char) (offset : Nat) :
    charactersBefore (byteLength left + offset) (left ++ right) =
      left ++ charactersBefore offset right := by
  induction left with
  | nil => rw [byteLength_nil, Nat.zero_add, List.nil_append, List.nil_append]
  | cons c rest ih =>
      have positive := c.utf8Size_pos
      rw [byteLength_cons, List.cons_append, charactersBefore, if_neg (by omega), Nat.add_assoc,
        Nat.add_sub_cancel_left, ih, List.cons_append]

end Text

open Text

/-- What stands before a line feed has no part in the last line. -/
theorem SourceFile.lastLine_append_newline (before after : List Char) :
    lastLine (before ++ '\n' :: after) = lastLine after := by
  rw [lastLine, lastLine, List.reverse_append, List.reverse_cons, List.append_assoc,
    List.singleton_append, takeWhile_append_newline _ (by decide)]

/-! ## Further down -/

/-- The same column, after more lines with more bytes. -/
def Position.moveDown (lines bytes : Nat) (position : Position) : Position :=
  ⟨position.line + lines, position.column, position.offset + bytes⟩

def Location.moveDown (lines bytes : Nat) (location : Location) : Location :=
  { location with
    start := location.start.moveDown lines bytes
    stop := location.stop.moveDown lines bytes }

/-! ## Both texts -/

namespace SourceFile

variable {source both : SourceFile} {first second : List Char}
  (isBoth : both.characters = joined first second)

include isBoth

/-- Places of the first text stay where they are. -/
theorem position_joined_left (isFirst : source.characters = first) {offset : Nat}
    (within : offset ≤ source.length) : both.position offset = source.position offset := by
  rw [length, isFirst] at within
  have length : byteLength (joined first second) = byteLength first + 3 + byteLength second := by
    rw [joined_eq_append, byteLength_append, byteLength_seam]
  have bounded : min offset (byteLength (joined first second)) = offset := by
    omega
  simp only [position, SourceFile.length, isBoth, isFirst, bounded, Nat.min_eq_left within]
  rw [joined, charactersBefore_append_left _ within]

/-- Places of the second text move down by the lines of the first and two more. -/
theorem position_joined_right (isSecond : source.characters = second) (offset : Nat) :
    both.position (offset + (byteLength first + 3)) =
      (source.position offset).moveDown (first.count '\n' + 2) (byteLength first + 3) := by
  have bounded : min (offset + (byteLength first + 3)) (byteLength (joined first second)) =
      byteLength (first ++ ['\n', ';', '\n']) + min offset (byteLength second) := by
    rw [joined_eq_append, byteLength_append, byteLength_seam]
    omega
  simp only [position, length, isBoth, isSecond, bounded]
  rw [joined_eq_append, charactersBefore_append_right, byteLength_seam]
  generalize charactersBefore (min offset (byteLength second)) second = before
  have lastLine : lastLine (first ++ ['\n', ';', '\n'] ++ before) = lastLine before := by
    have split : first ++ ['\n', ';', '\n'] ++ before =
        (first ++ ['\n', ';']) ++ '\n' :: before := by
      simp
    rw [split, lastLine_append_newline]
  have count : (first ++ ['\n', ';', '\n'] ++ before).count '\n' =
      before.count '\n' + (first.count '\n' + 2) := by
    rw [List.count_append, List.count_append, Nat.add_comm]
    rfl
  rw [lastLine, count, Nat.add_right_comm, Nat.add_comm (byteLength first + 3), Position.moveDown]

end SourceFile

end Flowgraph
