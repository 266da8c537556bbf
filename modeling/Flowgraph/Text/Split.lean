/-!
# Trimming and splitting texts

Trimming removes the characters with the Unicode property `White_Space`.
The zero-width space and the byte order mark do not have it.  Texts are split
at a character, and cut before a given ending.
-/

namespace Flowgraph.Text

/-! ## Blanks -/

/-- The characters with the Unicode property `White_Space`. -/
def isBlank (c : Char) : Bool :=
  let code := c.toNat
  (9 ≤ code && code ≤ 13) || code == 0x20 || code == 0x85 || code == 0xa0 ||
    code == 0x1680 || (0x2000 ≤ code && code ≤ 0x200a) || code == 0x2028 ||
    code == 0x2029 || code == 0x202f || code == 0x205f || code == 0x3000

/-- The text without the blanks it begins with. -/
def trimStart (text : List Char) : List Char :=
  text.dropWhile isBlank

/-- The text without the blanks it ends with. -/
def trimEnd (text : List Char) : List Char :=
  (text.reverse.dropWhile isBlank).reverse

/-- The text without the blanks around it. -/
def trim (text : List Char) : List Char :=
  trimEnd (trimStart text)

/-- Trimming leaves nothing exactly when the text is all blank. -/
theorem trim_eq_nil_iff (text : List Char) :
    trim text = [] ↔ ∀ c ∈ text, isBlank c = true := by
  have allBlank : ∀ chars : List Char,
      chars.dropWhile isBlank = [] ↔ ∀ c ∈ chars, isBlank c = true := by
    intro chars
    induction chars with
    | nil => simp
    | cons c rest ih =>
        cases blank : isBlank c <;> simp [blank, ih]
  have startBlank : (∀ c ∈ trimStart text, isBlank c = true) ↔
      ∀ c ∈ text, isBlank c = true := by
    unfold trimStart
    induction text with
    | nil => simp
    | cons c rest ih =>
        cases blank : isBlank c <;> simp [blank, ih]
  rw [trim, trimEnd, List.reverse_eq_nil_iff, allBlank, ← startBlank]
  simp

/-! ## Parts -/

/-- The parts between the places where a character stands; there is always at least one. -/
def splitAtEach (separator : Char) : List Char → List (List Char)
  | [] => [[]]
  | c :: rest =>
      if c = separator then [] :: splitAtEach separator rest
      else
        match splitAtEach separator rest with
        | first :: others => (c :: first) :: others
        | [] => [[c]]

/-- The parts before and after the first place where a character stands, if it stands anywhere. -/
def splitAtFirst (separator : Char) (text : List Char) : List Char × Option (List Char) :=
  (text.takeWhile (· != separator), (text.dropWhile (· != separator)).tail?)

/-- The text before a given ending, if it has that ending. -/
def beforeEnding? (ending text : List Char) : Option (List Char) :=
  if ending.isSuffixOf text then some (text.take (text.length - ending.length)) else none

end Flowgraph.Text
