import Flowgraph.Proofs.Token.LongestMatch

/-!
# Words before a text

A word that is written before a text is read as a token, and then the text is read as it is at
its place.  For this the text must not go on as the word does: a name or the name of an option
ends before a character that is part of no name, and digits end before one that is neither
a digit nor a point.  A moment ends at its second colon, whatever comes then.
-/

namespace Flowgraph

open Pattern

/-- Before a text the word is read as a token, and then the text is read. -/
def ReadsBefore (after word : List Char) (token : Token) : Prop :=
  ∀ offset, lexFrom offset (word ++ after) =
    ⟨[⟨token, ⟨offset, offset + Text.byteLength word⟩⟩], []⟩ ++
      lexFrom (offset + Text.byteLength word) after

section Words

variable {after : List Char}

/-- A word is read as the token that is found at its first character, if it is all of it. -/
theorem readsBefore_of_scan {first : Char} {more : List Char} {token : Token}
    (scanned : scan first (more ++ after) = (.token token, more.length)) :
    ReadsBefore after (first :: more) token := by
  intro offset
  rw [List.cons_append, lexFrom_cons, scanned, List.take_left, List.drop_left]
  rfl

/-- Single names are checked character by character. -/
theorem mem_name_of_all {first : Char} {rest : List Char} (starts : isNameStart first = true)
    (parts : rest.all isNamePart = true) : first :: rest ∈ Pattern.name :=
  mem_one_mul.mpr ⟨first, rest, starts, mem_many_iff.mpr (List.all_eq_true.mp parts), rfl⟩

/-- A name is read as an identifier if no part of a name follows it. -/
theorem readsBefore_identifier {name : String} (isName : name.toList ∈ Pattern.name)
    (stops : ∀ c ∈ after.head?, isNamePart c = false) :
    ReadsBefore after name.toList (.identifier name) := by
  obtain ⟨first, more, starts, parts, split⟩ := mem_one_mul.mp isName
  rw [split]
  refine readsBefore_of_scan ?_
  rw [scan_of_isNameStart starts, takeWhile_append_stop (mem_many_iff.mp parts) stops, ← split,
    String.ofList_toList]

theorem readsBefore_optionName {name : String} (isName : name.toList ∈ Pattern.name)
    (stops : ∀ c ∈ after.head?, isNamePart c = false) :
    ReadsBefore after ('-' :: name.toList) (.optionName name) := by
  obtain ⟨first, more, starts, parts, split⟩ := mem_one_mul.mp isName
  have every : ∀ c ∈ first :: more, isNamePart c = true := split ▸ isNamePart_of_mem_name isName
  have taken := takeWhile_append_stop every stops
  rw [List.cons_append] at taken
  refine readsBefore_of_scan ?_
  rw [split, List.cons_append, scan_of_option starts, taken, ← split, String.ofList_toList]

/-- A trimmed text between colons is read as a moment, whatever follows it. -/
theorem readsBefore_moment {text : String} (isInner : text.toList ∈ run isMomentPart)
    (trimmed : Text.trim text.toList = text.toList) :
    ReadsBefore after (':' :: (text.toList ++ [':'])) (.moment text) := by
  have scanned : scan ':' (text.toList ++ [':'] ++ after) =
      scanMoment (text.toList ++ ':' :: after) := by
    rw [List.append_assoc]
    rfl
  refine readsBefore_of_scan ?_
  rw [scanned, scanMoment_of_inner isInner, trimmed, if_neg (mem_run_iff.mp isInner).1,
    String.ofList_toList, List.length_append, List.length_singleton]

/-- A number goes no further than its digits if no point follows them. -/
theorem numberExtent_append {digits : List Char} (every : ∀ c ∈ digits, c.isDigit = true)
    (stops : ∀ c ∈ after.head?, c.isDigit = false ∧ c ≠ '.') :
    numberExtent (digits ++ after) = digits.length := by
  have taken : (digits ++ after).takeWhile Char.isDigit = digits :=
    takeWhile_append_stop every fun c first => (stops c first).1
  rw [numberExtent, taken, List.drop_left]
  cases after with
  | nil => rfl
  | cons c later =>
      have noPoint := (stops c rfl).2
      simp [noPoint]

/-- Digits are read as a number if neither a digit nor a point follows them. -/
theorem readsBefore_digits {digits : List Char} {value : Number.Binary64}
    (areDigits : digits ∈ run Char.isDigit)
    (stops : ∀ c ∈ after.head?, c.isDigit = false ∧ c ≠ '.')
    (read : Number.Binary64.read digits = some value) :
    ReadsBefore after digits (.number value) := by
  obtain ⟨nonempty, every⟩ := mem_run_iff.mp areDigits
  obtain ⟨first, more, rfl⟩ := List.exists_cons_of_ne_nil nonempty
  obtain ⟨isDigit, everyMore⟩ := List.forall_mem_cons.mp every
  refine readsBefore_of_scan ?_
  rw [scan_of_beginsNumber (.inl isDigit), scanNumber, numberExtent_append everyMore stops,
    List.take_left, read]

end Words

end Flowgraph
