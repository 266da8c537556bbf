/-!
# JSON documents

The part of JSON that the records use: whole numbers, texts, lists and objects
whose fields keep their order.  A document is written on one line without
blanks, or over several lines with an indent of two.
-/

namespace Flowgraph.Text

/-- A JSON document; the fields of an object keep the order in which they are given. -/
inductive Json where
  | number (value : Nat)
  | text (value : String)
  | list (items : List Json)
  | object (fields : List (String × Json))

namespace Json

/--
How one character stands in a JSON text.  Only the double quote, the backslash
and the control characters below the space are escaped.
-/
def escapedCharacter (c : Char) : List Char :=
  if c = '"' then ['\\', '"']
  else if c = '\\' then ['\\', '\\']
  else if c = '\n' then ['\\', 'n']
  else if c = '\r' then ['\\', 'r']
  else if c = '\t' then ['\\', 't']
  else if c = '\x08' then ['\\', 'b']
  else if c = '\x0c' then ['\\', 'f']
  else if c.toNat < 0x20 then
    ['\\', 'u', '0', '0'] ++ [(c.toNat / 16).digitChar, (c.toNat % 16).digitChar]
  else [c]

/-- A text in double quotes. -/
def quotedText (value : String) : String :=
  String.ofList ('"' :: value.toList.flatMap escapedCharacter ++ ['"'])

mutual

/-- The document on one line, without blanks. -/
def compact : Json → String
  | number value => toString value
  | text value => quotedText value
  | list items => "[" ++ ",".intercalate (compactItems items) ++ "]"
  | object fields => "\x7b" ++ ",".intercalate (compactFields fields) ++ "\x7d"

/-- The items of a list, each on one line. -/
def compactItems : List Json → List String
  | [] => []
  | item :: rest => compact item :: compactItems rest

/-- The fields of an object, each on one line. -/
def compactFields : List (String × Json) → List String
  | [] => []
  | (name, value) :: rest =>
      (quotedText name ++ ":" ++ compact value) :: compactFields rest

end

/-- A line break and the indent of a nesting depth. -/
def lineBreak (depth : Nat) : String :=
  "\n" ++ String.ofList (List.replicate (2 * depth) ' ')

/--
Parts between two brackets, each on a line of its own.  Without parts the
brackets stand together.
-/
def bracketed (opening closing : String) (depth : Nat) (parts : List String) : String :=
  if parts.isEmpty then opening ++ closing
  else
    opening ++ lineBreak (depth + 1) ++
      ("," ++ lineBreak (depth + 1)).intercalate parts ++ lineBreak depth ++ closing

mutual

/-- The document over several lines, with an indent of two for each depth. -/
def indented (depth : Nat) : Json → String
  | number value => toString value
  | text value => quotedText value
  | list items => bracketed "[" "]" depth (indentedItems (depth + 1) items)
  | object fields => bracketed "\x7b" "\x7d" depth (indentedFields (depth + 1) fields)

/-- The items of a list, at the depth of the items. -/
def indentedItems (depth : Nat) : List Json → List String
  | [] => []
  | item :: rest => indented depth item :: indentedItems depth rest

/-- The fields of an object, at the depth of the fields. -/
def indentedFields (depth : Nat) : List (String × Json) → List String
  | [] => []
  | (name, value) :: rest =>
      (quotedText name ++ ": " ++ indented depth value) :: indentedFields depth rest

end

end Json

end Flowgraph.Text
