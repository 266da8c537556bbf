import Flowgraph.Number.Shortest

/-!
# Tokens

The words and signs that a program text consists of.  A token carries what it
means: an option name its name without the dash, a string what it says once its
escapes are undone, a moment the text between its colons without the blanks
around it.
-/

namespace Flowgraph

/-- The signs that compare two terms; a single `=` also assigns. -/
inductive Comparison where
  | assign
  | equal
  | notEqual
  | less
  | lessOrEqual
  | greater
  | greaterOrEqual
deriving DecidableEq, Repr

/-- A comparison as it is written. -/
def Comparison.text : Comparison → String
  | assign => "="
  | equal => "=="
  | notEqual => "!="
  | less => "<"
  | lessOrEqual => "<="
  | greater => ">"
  | greaterOrEqual => ">="

/-- A word or sign of a program. -/
inductive Token where
  /-- The bar between the stages of a chain. -/
  | bar
  /-- The semicolon between chains. -/
  | semicolon
  | openParenthesis
  | closeParenthesis
  | comma
  | comparison (operator : Comparison)
  | optionName (name : String)
  | number (value : Number.Binary64)
  | string (value : String)
  | moment (text : String)
  | identifier (name : String)
deriving DecidableEq, Repr

/-- A token as messages show it; every identifier is shown alike. -/
def Token.text : Token → String
  | bar => "|"
  | semicolon => ";"
  | openParenthesis => "("
  | closeParenthesis => ")"
  | comma => ","
  | comparison operator => operator.text
  | optionName name => "-" ++ name
  | number value => value.plainText
  | string value => "\"" ++ value ++ "\""
  | moment text => ":" ++ text ++ ":"
  | identifier _ => "<ident>"

end Flowgraph
