import Flowgraph.Number.Basic
import Flowgraph.Proofs.Text.Marked
import Mathlib.Data.List.Basic
import Mathlib.Data.List.TakeWhile

/-!
# Numbers from their digits

The digits of a natural number are read as this number, and those of an integer as this
integer if it is not too large.  A row of digits without a point is read as a floating-point
number that is as near to the number they denote as possible.
-/

namespace Flowgraph.Number

open Text

theorem ofDigits_toString (number : Nat) : ofDigits (toString number).toList = number := by
  have same : ofDigits (toString number).toList =
      Nat.ofDigitChars 10 (toString number).toList 0 := rfl
  rw [same, Nat.toString_eq_ofList_toDigits, String.toList_ofList, Nat.ofDigitChars_ten_toDigits]

theorem readNatural_toString (number : Nat) :
    readNatural (toString number).toList = some number := by
  have digits : (toString number).toList.all Char.isDigit = true :=
    List.all_eq_true.mpr fun c member => isDigit_of_mem_toString member
  rw [readNatural, if_pos ⟨toString_ne_nil number, digits⟩, ofDigits_toString]

theorem isDigit_of_readNatural {text : List Char} {number : Nat}
    (read : readNatural text = some number) : text ≠ [] ∧ ∀ c ∈ text, c.isDigit = true := by
  rw [readNatural, Option.ite_none_right_eq_some] at read
  exact ⟨read.1.1, List.all_eq_true.mp read.1.2⟩

/-- A row of digits begins with no sign. -/
theorem exists_toString_eq_cons (number : Nat) :
    ∃ first rest, (toString number).toList = first :: rest ∧ first.isDigit = true ∧
      ∀ c ∈ rest, c.isDigit = true := by
  obtain ⟨first, rest, digits⟩ := List.exists_cons_of_ne_nil (toString_ne_nil number)
  have every : ∀ c ∈ first :: rest, c.isDigit = true :=
    fun c member => isDigit_of_mem_toString (digits ▸ member)
  exact ⟨first, rest, digits, (List.forall_mem_cons.mp every)⟩

/-- Only zero is shown with a zero at the beginning. -/
theorem head?_toString_ne_zero {number : Nat} (nonzero : number ≠ 0) :
    (toString number).toList.head? ≠ some '0' := by
  rw [Nat.toString_eq_ofList_toDigits, String.toList_ofList]
  induction number using Nat.strongRecOn with
  | ind number ih =>
      rw [Nat.toDigits_eq_if (by decide)]
      split_ifs with single
      · simpa using nonzero
      · rw [List.head?_append_of_ne_nil _ Nat.toDigits_ne_nil]
        exact ih (number / 10) (by omega) (by omega)

theorem not_sign_of_isDigit {c : Char} (isDigit : c.isDigit = true) : c ≠ '+' ∧ c ≠ '-' := by
  constructor <;> (rintro rfl; cases isDigit)

/-- An integer is read from its digits and its sign if it fits into the bits. -/
theorem readSigned_toString (bits : Nat) {number : Int}
    (fits : -Int.pow 2 (bits - 1) ≤ number ∧ number < Int.pow 2 (bits - 1)) :
    readSigned bits (toString number).toList = some number := by
  change readSigned bits number.repr.toList = some number
  rw [Int.repr_eq_if]
  split_ifs with natural
  · obtain ⟨count, rfl⟩ := Int.eq_ofNat_of_zero_le natural
    obtain ⟨first, rest, digits, isDigit, -⟩ := exists_toString_eq_cons count
    obtain ⟨noPlus, noMinus⟩ := not_sign_of_isDigit isDigit
    have read := readNatural_toString count
    have shown : (count : Int).toNat.repr.toList = first :: rest := digits
    rw [digits] at read
    rw [shown]
    simpa [readSigned, noPlus, noMinus, read] using fits
  · obtain ⟨magnitude, rfl⟩ : ∃ magnitude : Nat, number = -magnitude :=
      ⟨(-number).toNat, by omega⟩
    have read := readNatural_toString magnitude
    have shown : ("-" ++ (- -(magnitude : Int)).toNat.repr).toList =
        '-' :: (toString magnitude).toList := by
      rw [String.toList_append, Int.neg_neg, Int.toNat_natCast]
      rfl
    rw [shown]
    generalize (toString magnitude).toList = digits at read
    simpa [readSigned, read] using fits

namespace Binary64

/-- Digits alone are read as the number that is nearest to what they denote. -/
theorem read_digits {digits : List Char} {number : Nat} (value : readNatural digits = some number) :
    read digits = some (ofDecimal false number 0) := by
  obtain ⟨nonempty, every⟩ := isDigit_of_readNatural value
  rw [readNatural, Option.ite_none_right_eq_some] at value
  obtain rfl := Option.some.inj value.2
  have whole : digits.takeWhile Char.isDigit = digits := List.takeWhile_eq_self_iff.mpr every
  have nothing : digits.dropWhile Char.isDigit = [] := List.dropWhile_eq_nil_iff.mpr every
  obtain ⟨first, rest, rfl⟩ := List.exists_cons_of_ne_nil nonempty
  obtain ⟨noPlus, noMinus⟩ := not_sign_of_isDigit (every first List.mem_cons_self)
  simp [read, noPlus, noMinus, whole, nothing]

theorem read_toString (number : Nat) :
    read (toString number).toList = some (ofDecimal false number 0) :=
  read_digits (readNatural_toString number)

end Binary64

end Flowgraph.Number
