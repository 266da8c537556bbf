import Flowgraph.Text.Json
import Flowgraph.Text.Utf8

/-!
# Source texts and places in them

Every construct of a program remembers the range of bytes it was read from.
Offsets count bytes of the UTF-8 form of the text, starting at zero.

To a reader a place is shown by line and column: both count from one, a line
ends at a line feed, and a column counts characters.  An offset past the end
stands for the end of the text.
-/

namespace Flowgraph

/-! ## Byte spans -/

/-- A range of bytes: `start` is its first offset and `stop` the offset after its last byte. -/
structure Span where
  start : Nat
  stop : Nat
deriving DecidableEq, Repr, Inhabited

namespace Span

/-- The span that begins where `first` begins and ends where `last` ends. -/
def through (first last : Span) : Span :=
  ⟨first.start, last.stop⟩

/-- The span without bytes at one offset. -/
def empty (offset : Nat) : Span :=
  ⟨offset, offset⟩

end Span

/-! ## Positions and locations -/

/-- One point of a text. -/
structure Position where
  line : Nat
  column : Nat
  offset : Nat
deriving DecidableEq, Repr, Inhabited

/-- A range of a named text; `stop` is the point after its last character. -/
structure Location where
  filename : String
  start : Position
  stop : Position
deriving DecidableEq, Repr, Inhabited

namespace Position

/-- The record of a point. -/
def record (position : Position) : Text.Json :=
  .object [("line", .number position.line), ("column", .number position.column),
    ("offset", .number position.offset)]

end Position

namespace Location

/-- The range of bytes of a location. -/
def span (location : Location) : Span :=
  ⟨location.start.offset, location.stop.offset⟩

/-- A location as it is shown: the name, then line and column of both ends. -/
def text (location : Location) : String :=
  location.filename ++ ":" ++ toString location.start.line ++ ":" ++
    toString location.start.column ++ "-" ++ toString location.stop.line ++ ":" ++
    toString location.stop.column

/-- The record of a location. -/
def record (location : Location) : Text.Json :=
  .object [("filename", .text location.filename), ("start", location.start.record),
    ("end", location.stop.record)]

end Location

/-! ## Source texts -/

/-- A program text and the name under which it is reported. -/
structure SourceFile where
  name : String
  text : String
deriving DecidableEq, Repr

namespace SourceFile

/-- The name under which a text is reported that has no name of its own. -/
def defaultName : String := "main"

/-- A text without a name of its own. -/
def unnamed (text : String) : SourceFile :=
  ⟨defaultName, text⟩

/-- The characters of the text. -/
def characters (source : SourceFile) : List Char :=
  source.text.toList

/-- The number of bytes of the text. -/
def length (source : SourceFile) : Nat :=
  Text.byteLength source.characters

/-- The characters after the last line feed. -/
def lastLine (text : List Char) : List Char :=
  (text.reverse.takeWhile (· != '\n')).reverse

/--
The position of an offset: one line more than there are line feeds before it,
and one column more than there are characters before it on its line.
-/
def position (source : SourceFile) (offset : Nat) : Position :=
  let bounded := min offset source.length
  let before := Text.charactersBefore bounded source.characters
  ⟨before.count '\n' + 1, (lastLine before).length + 1, bounded⟩

/-- The location of a span. -/
def location (source : SourceFile) (span : Span) : Location :=
  ⟨source.name, source.position span.start, source.position span.stop⟩

end SourceFile

end Flowgraph
