/-!
# Indented outlines

An outline shows a tree of named parts, one part a line, with an indent of
four for each depth and a comma after every part.
-/

namespace Flowgraph.Text

/-- A tree of named parts. -/
inductive Outline where
  /-- A part that fits into a line. -/
  | leaf (text : String)
  /-- A named part with named fields. -/
  | record (name : String) (fields : List (String × Outline))
  /-- A named part with fields that have no names of their own. -/
  | tagged (name : String) (fields : List Outline)
  /-- A list of parts. -/
  | list (items : List Outline)

namespace Outline

/-- The indent of a nesting depth. -/
def indent (depth : Nat) : String :=
  String.ofList (List.replicate (4 * depth) ' ')

/-- Lines between two brackets; without lines the brackets stand together. -/
def enclosed (opening closing : String) (depth : Nat) (lines : List String) : String :=
  if lines.isEmpty then opening ++ closing
  else
    opening ++ "\n" ++
      String.join (lines.map fun line => indent (depth + 1) ++ line ++ ",\n") ++
      indent depth ++ closing

mutual

/-- The outline at a nesting depth; its first line carries no indent. -/
def render (depth : Nat) : Outline → String
  | leaf text => text
  | record name fields =>
      enclosed (name ++ " \x7b") "\x7d" depth (renderFields (depth + 1) fields)
  | tagged name fields => enclosed (name ++ "(") ")" depth (renderItems (depth + 1) fields)
  | list items => enclosed "[" "]" depth (renderItems (depth + 1) items)

/-- The parts of a list, at their own depth. -/
def renderItems (depth : Nat) : List Outline → List String
  | [] => []
  | item :: rest => render depth item :: renderItems depth rest

/-- The named fields of a part, at their own depth. -/
def renderFields (depth : Nat) : List (String × Outline) → List String
  | [] => []
  | (name, value) :: rest =>
      (name ++ ": " ++ render depth value) :: renderFields depth rest

end

end Outline

end Flowgraph.Text
