import Flowgraph.Proofs.Token.Joining
import Mathlib.Computability.Language

/-!
# The patterns of lexemes

Every kind of token has a pattern, a regular language of texts.  Blanks and comments have
patterns too.  The patterns are stated here without regard to how a text is cut into
pieces; what the scanners make of a text that a pattern begins with is proved for one
pattern after the other.
-/

namespace Flowgraph

open scoped Computability

namespace Pattern

/-- A single character of a class. -/
def one (holds : Char → Bool) : Language Char :=
  { text | ∃ c, holds c = true ∧ text = [c] }

/-- One or more characters of a class. -/
def run (holds : Char → Bool) : Language Char :=
  one holds * (one holds)∗

/-- A fixed text. -/
def word (text : List Char) : Language Char :=
  { text }

/-- `[a-zA-Z_][a-zA-Z0-9_]*` -/
def name : Language Char :=
  one isNameStart * (one isNamePart)∗

/-- `-[a-zA-Z_][a-zA-Z0-9_]*` -/
def option : Language Char :=
  word ['-'] * name

/-- `(\.[0-9]+)?` -/
def fraction : Language Char :=
  1 + word ['.'] * run Char.isDigit

/-- `-?[0-9]+(\.[0-9]+)?` -/
def number : Language Char :=
  (1 + word ['-']) * run Char.isDigit * fraction

/-- The characters between the quotes of a string: `([^"\\]|\\.)*` -/
def stringBody : Language Char :=
  (one (fun c => c != '"' && c != '\\') + word ['\\'] * one (· != '\n'))∗

/-- `"([^"\\]|\\.)*"` -/
def string : Language Char :=
  word ['"'] * stringBody * word ['"']

/-- The characters between the colons of a moment: `[^:\n]` -/
def isMomentPart (c : Char) : Bool :=
  c != ':' && c != '\n'

/-- `:[^:\n]+:` -/
def moment : Language Char :=
  word [':'] * run isMomentPart * word [':']

/-- `[ \t\r\n\f]+` -/
def blanks : Language Char :=
  run isLayout

/-- `//[^\n]*` -/
def comment : Language Char :=
  word ['/', '/'] * (one (· != '\n'))∗

variable {holds : Char → Bool} {text : List Char}

@[simp]
theorem mem_word {expected : List Char} : text ∈ word expected ↔ text = expected := Iff.rfl

/-- A repetition of a class of characters is any row of characters of the class. -/
theorem mem_many_iff : text ∈ (one holds)∗ ↔ ∀ c ∈ text, holds c = true := by
  rw [Language.mem_kstar]
  constructor
  · rintro ⟨parts, rfl, each⟩ c member
    obtain ⟨part, isPart, inPart⟩ := List.mem_flatten.mp member
    obtain ⟨only, holdsOnly, rfl⟩ := each part isPart
    exact List.mem_singleton.mp inPart ▸ holdsOnly
  · intro every
    refine ⟨text.map fun c => [c], ?_, ?_⟩
    · simp [← List.flatMap_def]
    · intro part isPart
      obtain ⟨c, member, rfl⟩ := List.mem_map.mp isPart
      exact ⟨c, every c member, rfl⟩

/-- A character of a class begins a text that goes on as another language says. -/
theorem mem_one_mul {other : Language Char} :
    text ∈ one holds * other ↔ ∃ c rest, holds c = true ∧ rest ∈ other ∧ text = c :: rest := by
  rw [Language.mem_mul]
  constructor
  · rintro ⟨_, ⟨c, isFirst, rfl⟩, rest, isRest, rfl⟩
    exact ⟨c, rest, isFirst, isRest, rfl⟩
  · rintro ⟨c, rest, isFirst, isRest, rfl⟩
    exact ⟨[c], ⟨c, isFirst, rfl⟩, rest, isRest, rfl⟩

/-- A run is a repetition that is not empty. -/
theorem mem_run_iff : text ∈ run holds ↔ text ≠ [] ∧ ∀ c ∈ text, holds c = true := by
  rw [run, mem_one_mul]
  constructor
  · rintro ⟨c, rest, isFirst, isRest, rfl⟩
    exact ⟨List.cons_ne_nil c rest, List.forall_mem_cons.mpr ⟨isFirst, mem_many_iff.mp isRest⟩⟩
  · rintro ⟨nonempty, every⟩
    obtain ⟨c, rest, rfl⟩ := List.exists_cons_of_ne_nil nonempty
    obtain ⟨isFirst, isRest⟩ := List.forall_mem_cons.mp every
    exact ⟨c, rest, isFirst, mem_many_iff.mpr isRest, rfl⟩

/-- A word begins a text that goes on as another language says. -/
theorem mem_word_mul {opening : List Char} {other : Language Char} :
    text ∈ word opening * other ↔ ∃ rest ∈ other, text = opening ++ rest := by
  simp only [Language.mem_mul, mem_word, exists_eq_left, eq_comm (b := text)]

/-- Texts of a pattern between two fixed texts. -/
theorem mem_between {opening closing : List Char} {other : Language Char} :
    text ∈ word opening * other * word closing ↔
      ∃ inner ∈ other, text = opening ++ (inner ++ closing) := by
  rw [mul_assoc, mem_word_mul]
  simp only [Language.mem_mul, mem_word, exists_eq_left]
  constructor
  · rintro ⟨_, ⟨inner, isInner, rfl⟩, rfl⟩
    exact ⟨inner, isInner, rfl⟩
  · rintro ⟨inner, isInner, rfl⟩
    exact ⟨_, ⟨inner, isInner, rfl⟩, rfl⟩

/-! ## Strings -/

/-- What stands between quotes is nothing, or a character or an escape and then more of it. -/
theorem stringBody_eq :
    stringBody = 1 + (one (fun c => c != '"' && c != '\\') + word ['\\'] * one (· != '\n')) *
      stringBody :=
  (Language.one_add_self_mul_kstar_eq_kstar _).symm

/-- How the characters between the quotes of a string follow each other. -/
theorem mem_stringBody_iff :
    text ∈ stringBody ↔ text = [] ∨
      (∃ c rest, c ≠ '"' ∧ c ≠ '\\' ∧ rest ∈ stringBody ∧ text = c :: rest) ∨
      ∃ c rest, c ≠ '\n' ∧ rest ∈ stringBody ∧ text = '\\' :: c :: rest := by
  conv_lhs => rw [stringBody_eq]
  rw [Language.mem_add, Language.mem_one, add_mul, Language.mem_add, mem_one_mul, mul_assoc,
    mem_word_mul]
  simp only [mem_one_mul, Bool.and_eq_true, bne_iff_ne, ne_eq]
  constructor
  · rintro (empty | ⟨c, rest, ⟨noQuote, noEscape⟩, isRest, rfl⟩ |
      ⟨_, ⟨c, rest, line, isRest, rfl⟩, rfl⟩)
    · exact .inl empty
    · exact .inr (.inl ⟨c, rest, noQuote, noEscape, isRest, rfl⟩)
    · exact .inr (.inr ⟨c, rest, line, isRest, rfl⟩)
  · rintro (empty | ⟨c, rest, noQuote, noEscape, isRest, rfl⟩ | ⟨c, rest, line, isRest, rfl⟩)
    · exact .inl empty
    · exact .inr (.inl ⟨c, rest, ⟨noQuote, noEscape⟩, isRest, rfl⟩)
    · exact .inr (.inr ⟨_, ⟨c, rest, line, isRest, rfl⟩, rfl⟩)

theorem nil_mem_stringBody : [] ∈ stringBody :=
  mem_stringBody_iff.mpr (.inl rfl)

/-- A plain character may stand before what stands between quotes. -/
theorem plain_mem_stringBody {c : Char} (noQuote : c ≠ '"') (noEscape : c ≠ '\\')
    (body : text ∈ stringBody) : c :: text ∈ stringBody :=
  mem_stringBody_iff.mpr (.inr (.inl ⟨c, text, noQuote, noEscape, body, rfl⟩))

/-- An escape may stand before what stands between quotes. -/
theorem escape_mem_stringBody {c : Char} (line : c ≠ '\n') (body : text ∈ stringBody) :
    '\\' :: c :: text ∈ stringBody :=
  mem_stringBody_iff.mpr (.inr (.inr ⟨c, text, line, body, rfl⟩))

/-- What holds between quotes if single characters and escapes can be put before it. -/
@[elab_as_elim]
theorem stringBody_induction {motive : (text : List Char) → text ∈ stringBody → Prop}
    (nil : motive [] nil_mem_stringBody)
    (plain : ∀ c rest (noQuote : c ≠ '"') (noEscape : c ≠ '\\') (body : rest ∈ stringBody),
      motive rest body → motive (c :: rest) (plain_mem_stringBody noQuote noEscape body))
    (escape : ∀ c rest (line : c ≠ '\n') (body : rest ∈ stringBody),
      motive rest body → motive ('\\' :: c :: rest) (escape_mem_stringBody line body))
    (body : text ∈ stringBody) : motive text body := by
  induction length : text.length using Nat.strongRecOn generalizing text with
  | ind length ih =>
      rcases mem_stringBody_iff.mp body with
        rfl | ⟨c, rest, noQuote, noEscape, isRest, rfl⟩ | ⟨c, rest, line, isRest, rfl⟩
      · exact nil
      · exact plain c rest noQuote noEscape isRest
          (ih rest.length (by rw [← length]; simp) isRest rfl)
      · exact escape c rest line isRest
          (ih rest.length (by rw [← length, List.length_cons, List.length_cons]; omega) isRest rfl)

/-- A comment is two slashes and whatever follows them on the line. -/
theorem mem_comment_iff :
    text ∈ comment ↔ ∃ line ∈ (one (· != '\n'))∗, text = '/' :: '/' :: line :=
  mem_word_mul

/-- An option is a dash and a name. -/
theorem mem_option_iff :
    text ∈ option ↔ ∃ c rest, isNameStart c = true ∧ rest ∈ (one isNamePart)∗ ∧
      text = '-' :: c :: rest := by
  rw [option, mem_word_mul]
  constructor
  · rintro ⟨_, isName, rfl⟩
    obtain ⟨c, rest, isFirst, isRest, rfl⟩ := mem_one_mul.mp isName
    exact ⟨c, rest, isFirst, isRest, rfl⟩
  · rintro ⟨c, rest, isFirst, isRest, rfl⟩
    exact ⟨c :: rest, mem_one_mul.mpr ⟨c, rest, isFirst, isRest, rfl⟩, rfl⟩

theorem mem_string_iff :
    text ∈ string ↔ ∃ body ∈ stringBody, text = '"' :: (body ++ ['"']) :=
  mem_between

theorem mem_moment_iff :
    text ∈ moment ↔ ∃ inner ∈ run isMomentPart, text = ':' :: (inner ++ [':']) :=
  mem_between

/-! ## Numbers -/

/-- A fraction is left out, or a point and digits behind it. -/
theorem mem_fraction_iff :
    text ∈ fraction ↔ text = [] ∨ ∃ places ∈ run Char.isDigit, text = '.' :: places := by
  rw [fraction, Language.mem_add, Language.mem_one, mem_word_mul]
  rfl

/-- A number has a sign or not; then come digits, and then a fraction or nothing. -/
theorem mem_number_iff :
    text ∈ number ↔ ∃ whole ∈ run Char.isDigit, ∃ places ∈ fraction,
      text = whole ++ places ∨ text = '-' :: (whole ++ places) := by
  rw [number, mul_assoc, add_mul, one_mul, Language.mem_add, mem_word_mul]
  simp only [Language.mem_mul]
  constructor
  · rintro (⟨whole, digits, places, isFraction, rfl⟩ |
      ⟨_, ⟨whole, digits, places, isFraction, rfl⟩, rfl⟩)
    · exact ⟨whole, digits, places, isFraction, .inl rfl⟩
    · exact ⟨whole, digits, places, isFraction, .inr rfl⟩
  · rintro ⟨whole, digits, places, isFraction, rfl | rfl⟩
    · exact .inl ⟨whole, digits, places, isFraction, rfl⟩
    · exact .inr ⟨_, ⟨whole, digits, places, isFraction, rfl⟩, rfl⟩

end Pattern

end Flowgraph
