import Flowgraph.Proofs.Text.Marked
import Flowgraph.Text.Json

/-!
# Documents on one line

The characters below the space, of which the line feed is one, stand in the texts of a document
only as escapes.  So a document that is written without line breaks of its own stands on one
line, whatever texts are in it (`Json.oneLine_compact`).
-/

namespace Flowgraph.Text

/-! ## Texts on one line -/

/-- A text without characters below the space. -/
def OneLine (text : String) : Prop :=
  ∀ c ∈ text.toList, 0x20 ≤ c.toNat

namespace OneLine

variable {first second : String}

/-- Single texts are checked character by character. -/
theorem of_all (checked : first.toList.all (fun c => 0x20 ≤ c.toNat) = true) : OneLine first :=
  fun c member => of_decide_eq_true (List.all_eq_true.mp checked c member)

/-- Two texts on one line are one text on one line. -/
theorem append (isFirst : OneLine first) (isSecond : OneLine second) :
    OneLine (first ++ second) := by
  intro c member
  rw [String.toList_append, List.mem_append] at member
  exact member.elim (isFirst c) (isSecond c)

/-- Texts on one line, with such a text between them, are one text on one line. -/
theorem intercalate {separator : String} {parts : List String} (between : OneLine separator)
    (each : ∀ part ∈ parts, OneLine part) : OneLine (separator.intercalate parts) := by
  induction parts with
  | nil => simp [OneLine]
  | cons part rest ih =>
      obtain ⟨isPart, others⟩ := List.forall_mem_cons.mp each
      cases rest with
      | nil => simpa using isPart
      | cons next later =>
          rw [String.intercalate_cons_cons]
          exact (isPart.append between).append (ih others)

/-- A text on one line has no line feed. -/
theorem newline_notMem (isFirst : OneLine first) : '\n' ∉ first.toList :=
  fun member => absurd (isFirst '\n' member) (by decide)

end OneLine

/-! ## Documents -/

namespace Json

/-- Characters below the space are escaped. -/
theorem le_of_mem_escapedCharacter {c written : Char} (member : written ∈ escapedCharacter c) :
    0x20 ≤ written.toNat := by
  by_cases control : c.toNat < 0x20
  · have escaped : ∀ code < 0x20,
        (escapedCharacter (Char.ofNat code)).all (fun written => 0x20 ≤ written.toNat) = true := by
      decide
    have checked := escaped c.toNat control
    rw [Char.ofNat_toNat] at checked
    exact of_decide_eq_true (List.all_eq_true.mp checked written member)
  · unfold escapedCharacter at member
    split_ifs at member
    all_goals simp only [List.mem_cons, List.not_mem_nil, or_false] at member
    -- In all cases but the last, the character stands behind a backslash.
    any_goals rcases member with rfl | rfl <;> decide
    exact member ▸ Nat.le_of_not_lt control

/-- A quoted text is on one line, whatever is quoted. -/
theorem oneLine_quotedText (value : String) : OneLine (quotedText value) := by
  intro c member
  rw [quotedText, String.toList_ofList] at member
  simp only [List.cons_append, List.mem_cons, List.mem_append, List.mem_flatMap, List.not_mem_nil,
    or_false] at member
  rcases member with rfl | ⟨_, -, isWritten⟩ | rfl
  · decide
  · exact le_of_mem_escapedCharacter isWritten
  · decide

theorem oneLine_number (value : Nat) : OneLine (toString value) := by
  intro c member
  have isDigit := isDigit_of_mem_toString member
  simp only [Char.isDigit, Bool.and_eq_true, decide_eq_true_eq, ge_iff_le,
    UInt32.le_iff_toNat_le] at isDigit
  exact Nat.le_trans (by decide) isDigit.1

mutual

/-- A document without line breaks of its own has no others either. -/
theorem oneLine_compact (document : Json) : OneLine document.compact := by
  have comma : OneLine "," := .of_all (by decide)
  cases document with
  | number value => exact oneLine_number value
  | text value => exact oneLine_quotedText value
  | list items =>
      have opening : OneLine "[" := .of_all (by decide)
      exact (opening.append (comma.intercalate (oneLine_compactItems items))).append
        (.of_all (by decide))
  | object fields =>
      have opening : OneLine "\x7b" := .of_all (by decide)
      exact (opening.append (comma.intercalate (oneLine_compactFields fields))).append
        (.of_all (by decide))

/-- The items of a compact document are on one line each. -/
theorem oneLine_compactItems (items : List Json) : ∀ part ∈ compactItems items, OneLine part := by
  cases items with
  | nil => nofun
  | cons item rest =>
      exact List.forall_mem_cons.mpr ⟨oneLine_compact item, oneLine_compactItems rest⟩

theorem oneLine_compactFields (fields : List (String × Json)) :
    ∀ part ∈ compactFields fields, OneLine part := by
  cases fields with
  | nil => nofun
  | cons field rest =>
      obtain ⟨name, value⟩ := field
      have colon : OneLine ":" := .of_all (by decide)
      exact List.forall_mem_cons.mpr
        ⟨((oneLine_quotedText name).append colon).append (oneLine_compact value),
          oneLine_compactFields rest⟩

end

end Json

end Flowgraph.Text
