/-!
# Byte offsets into a text

A text is a list of characters, and an offset counts the bytes of its UTF-8
form.  The functions here cut a text at an offset.  An offset inside a
character is no place to cut: `takeBytes?` and `dropBytes?` refuse it, while
`charactersBefore` rounds it up to the end of that character.
-/

namespace Flowgraph.Text

/-- The number of bytes of the UTF-8 form of a text. -/
def byteLength : List Char → Nat
  | [] => 0
  | c :: rest => c.utf8Size + byteLength rest

@[simp]
theorem byteLength_nil : byteLength [] = 0 := rfl

@[simp]
theorem byteLength_cons (c : Char) (rest : List Char) :
    byteLength (c :: rest) = c.utf8Size + byteLength rest := rfl

@[simp]
theorem byteLength_append (left right : List Char) :
    byteLength (left ++ right) = byteLength left + byteLength right := by
  induction left with
  | nil => simp
  | cons c rest ih => simp [ih, Nat.add_assoc]

/-- The characters that start before the offset. -/
def charactersBefore (offset : Nat) : List Char → List Char
  | [] => []
  | c :: rest =>
      if offset = 0 then [] else c :: charactersBefore (offset - c.utf8Size) rest

/--
What follows the first `count` bytes, if the text has them and no character
straddles the cut.
-/
def dropBytes? (count : Nat) : List Char → Option (List Char)
  | [] => if count = 0 then some [] else none
  | c :: rest =>
      if count = 0 then some (c :: rest)
      else if c.utf8Size ≤ count then dropBytes? (count - c.utf8Size) rest
      else none

/--
The first `count` bytes, if the text has them and no character straddles the
cut.
-/
def takeBytes? (count : Nat) : List Char → Option (List Char)
  | [] => if count = 0 then some [] else none
  | c :: rest =>
      if count = 0 then some []
      else if c.utf8Size ≤ count then (takeBytes? (count - c.utf8Size) rest).map (c :: ·)
      else none

/--
The text between two offsets.  There is none when the offsets are reversed,
lie past the end or fall inside a character.
-/
def slice? (text : List Char) (start stop : Nat) : Option (List Char) :=
  if start ≤ stop then
    (dropBytes? start text).bind (takeBytes? (stop - start))
  else
    none

/-- Cutting a text right after one of its beginnings leaves the rest. -/
@[simp]
theorem dropBytes?_append (left right : List Char) :
    dropBytes? (byteLength left) (left ++ right) = some right := by
  induction left with
  | nil => cases right <;> simp [dropBytes?]
  | cons c rest ih =>
      have positive : c.utf8Size ≠ 0 := Nat.pos_iff_ne_zero.mp c.utf8Size_pos
      simp [dropBytes?, positive, ih]

/-- Taking as many bytes as a beginning of the text has gives that beginning. -/
@[simp]
theorem takeBytes?_append (left right : List Char) :
    takeBytes? (byteLength left) (left ++ right) = some left := by
  induction left with
  | nil => cases right <;> simp [takeBytes?]
  | cons c rest ih =>
      have positive : c.utf8Size ≠ 0 := Nat.pos_iff_ne_zero.mp c.utf8Size_pos
      simp [takeBytes?, positive, ih]

end Flowgraph.Text
