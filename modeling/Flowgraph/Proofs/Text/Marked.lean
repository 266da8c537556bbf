import Mathlib.Data.List.Count
import Mathlib.Tactic.SplitIfs

/-!
# Fields with marks

A line of a text is made of fields with a mark behind each.  A field that does not contain
its mark ends where the mark is found first, and one that contains its mark a known number
of times ends as many marks later.  So the fields are known from the line
(`marked_append_inj`).
-/

namespace Flowgraph.Text

/-! ## One field -/

/-- Two fields that contain a mark equally often, and go on to it, end at the same place. -/
theorem append_mark_inj {mark : Char} {field other rest more : List Char}
    (count : field.count mark = other.count mark)
    (same : field ++ mark :: rest = other ++ mark :: more) : field = other ∧ rest = more := by
  induction field generalizing other with
  | nil =>
      cases other with
      | nil => exact ⟨rfl, (List.cons.inj same).2⟩
      | cons c otherRest =>
          obtain ⟨rfl, -⟩ := List.cons.inj same
          simp at count
  | cons c fieldRest ih =>
      cases other with
      | nil =>
          obtain ⟨rfl, -⟩ := List.cons.inj same
          simp at count
      | cons d otherRest =>
          obtain ⟨rfl, rests⟩ := List.cons.inj same
          rw [List.count_cons, List.count_cons, Nat.add_right_cancel_iff] at count
          obtain ⟨rfl, tails⟩ := ih count rests
          exact ⟨rfl, tails⟩

/-! ## Many fields -/

/-- Fields one after the other, each with its mark behind it. -/
def marked (fields : List (List Char × Char)) : List Char :=
  fields.flatMap fun field => field.1 ++ [field.2]

/-- The marks of fields, each with how often its own field contains it. -/
def marks (fields : List (List Char × Char)) : List (Char × Nat) :=
  fields.map fun field => (field.2, field.1.count field.2)

@[simp]
theorem marked_nil : marked [] = [] := rfl

@[simp]
theorem marked_cons (field : List Char) (mark : Char) (fields : List (List Char × Char)) :
    marked ((field, mark) :: fields) = field ++ mark :: marked fields := by
  simp [marked]

@[simp]
theorem marks_nil : marks [] = [] := rfl

@[simp]
theorem marks_cons (field : List Char) (mark : Char) (fields : List (List Char × Char)) :
    marks ((field, mark) :: fields) = (mark, field.count mark) :: marks fields := rfl

/-- Where the marks are known, the text tells the fields and what follows them. -/
theorem marked_append_inj {fields others : List (List Char × Char)} {rest more : List Char}
    (sameMarks : marks fields = marks others)
    (same : marked fields ++ rest = marked others ++ more) : fields = others ∧ rest = more := by
  induction fields generalizing others with
  | nil =>
      obtain rfl : others = [] := List.map_eq_nil_iff.mp sameMarks.symm
      exact ⟨rfl, same⟩
  | cons first fieldsRest ih =>
      cases others with
      | nil => cases sameMarks
      | cons second othersRest =>
          obtain ⟨field, mark⟩ := first
          obtain ⟨other, markOther⟩ := second
          simp only [marks_cons, List.cons.injEq, Prod.mk.injEq] at sameMarks
          obtain ⟨⟨rfl, count⟩, marksRest⟩ := sameMarks
          simp only [marked_cons, List.append_assoc, List.cons_append] at same
          obtain ⟨rfl, rests⟩ := append_mark_inj count same
          obtain ⟨rfl, tails⟩ := ih marksRest rests
          exact ⟨rfl, tails⟩

/-! ## Items one after the other -/

/--
Items are known from a text that begins with them if each one is known from a text that
begins with it, and if the text goes on with what no item begins with.
-/
theorem flatMap_append_inj {α β : Type} {write : α → List Char} {clean : α → Prop}
    (known : α → β) (stops : List Char → Prop)
    (each : ∀ ⦃item other rest more⦄, clean item → clean other →
      write item ++ rest = write other ++ more → known item = known other ∧ rest = more)
    (begins : ∀ item rest, ¬ stops (write item ++ rest))
    {items others : List α} {rest more : List Char} (cleanItems : ∀ item ∈ items, clean item)
    (cleanOthers : ∀ other ∈ others, clean other) (stopsRest : stops rest) (stopsMore : stops more)
    (same : items.flatMap write ++ rest = others.flatMap write ++ more) :
    items.map known = others.map known ∧ rest = more := by
  induction items generalizing others with
  | nil =>
      cases others with
      | nil => exact ⟨rfl, same⟩
      | cons other othersRest =>
          rw [List.flatMap_nil, List.nil_append, List.flatMap_cons, List.append_assoc] at same
          exact absurd (same ▸ stopsRest) (begins _ _)
  | cons item itemsRest ih =>
      cases others with
      | nil =>
          rw [List.flatMap_nil, List.nil_append, List.flatMap_cons, List.append_assoc] at same
          exact absurd (same ▸ stopsMore) (begins _ _)
      | cons other othersRest =>
          rw [List.flatMap_cons, List.flatMap_cons, List.append_assoc, List.append_assoc] at same
          obtain ⟨knownFirst, sameRest⟩ := each (cleanItems item (List.mem_cons_self ..))
            (cleanOthers other (List.mem_cons_self ..)) same
          obtain ⟨knownRest, tails⟩ :=
            ih (fun _ member => cleanItems _ (List.mem_cons_of_mem _ member))
              (fun _ member => cleanOthers _ (List.mem_cons_of_mem _ member)) sameRest
          rw [List.map_cons, List.map_cons, knownFirst, knownRest]
          exact ⟨rfl, tails⟩

/-- Texts with a space between them, and one behind the last. -/
theorem toList_intercalate_append {texts : List String} (nonempty : texts ≠ []) :
    (" ".intercalate texts).toList ++ [' '] =
      texts.flatMap fun text => text.toList ++ [' '] := by
  induction texts with
  | nil => contradiction
  | cons first rest ih =>
      cases rest with
      | nil => simp
      | cons second later =>
          rw [String.intercalate_cons_cons, String.toList_append, String.toList_append,
            List.append_assoc, ih (List.cons_ne_nil _ _), List.flatMap_cons]
          rfl

/-- Texts with a space between them, and one before the first. -/
theorem cons_toList_intercalate {texts : List String} (nonempty : texts ≠ []) :
    ' ' :: (" ".intercalate texts).toList = texts.flatMap fun text => ' ' :: text.toList := by
  induction texts with
  | nil => contradiction
  | cons first rest ih =>
      cases rest with
      | nil => simp
      | cons second later =>
          rw [String.intercalate_cons_cons, String.toList_append, String.toList_append,
            List.append_assoc, List.flatMap_cons, ← ih (List.cons_ne_nil _ _)]
          rfl

/-! ## Numbers in fields -/

theorem isDigit_of_mem_toString {number : Nat} {c : Char}
    (member : c ∈ (toString number).toList) : c.isDigit = true := by
  rw [Nat.toString_eq_ofList_toDigits, String.toList_ofList] at member
  exact Nat.isDigit_of_mem_toDigits (by decide) (by decide) member

/-- Digits are no letters. -/
theorem isAlpha_eq_false_of_isDigit {c : Char} (isDigit : c.isDigit = true) :
    c.isAlpha = false := by
  simp only [Char.isDigit, Bool.and_eq_true, decide_eq_true_eq, ge_iff_le,
    UInt32.le_iff_toNat_le] at isDigit
  rw [Bool.eq_false_iff]
  intro isLetter
  delta Char.isAlpha Char.isUpper Char.isLower at isLetter
  simp only [Bool.or_eq_true, Bool.and_eq_true, decide_eq_true_eq, ge_iff_le,
    UInt32.le_iff_toNat_le] at isLetter
  grind

theorem toString_ne_nil (number : Nat) : (toString number).toList ≠ [] := by
  rw [Nat.toString_eq_ofList_toDigits, String.toList_ofList]
  exact Nat.toDigits_ne_nil

/-- A number as a field does not contain any mark but a digit. -/
theorem count_toString (number : Nat) {mark : Char} (noDigit : mark.isDigit = false) :
    (toString number).toList.count mark = 0 := by
  refine List.count_eq_zero_of_not_mem fun member => ?_
  rw [isDigit_of_mem_toString member] at noDigit
  cases noDigit

theorem toString_inj {first second : Nat}
    (same : (toString first).toList = (toString second).toList) : first = second := by
  have numbers := congrArg (fun digits => Nat.ofDigitChars 10 digits 0) same
  simpa [Nat.toString_eq_ofList_toDigits] using numbers

/-- A number ends where the digits end. -/
theorem toString_append_inj {first second : Nat} {rest more : List Char}
    (ends : ∀ c ∈ rest.head?, c.isDigit = false) (endsOther : ∀ c ∈ more.head?, c.isDigit = false)
    (same : (toString first).toList ++ rest = (toString second).toList ++ more) :
    first = second ∧ rest = more := by
  have digits : ∀ (number : Nat) {after : List Char}, (∀ c ∈ after.head?, c.isDigit = false) →
      ((toString number).toList ++ after).takeWhile Char.isDigit = (toString number).toList := by
    intro number after stops
    rw [List.takeWhile_append_of_pos fun c member => isDigit_of_mem_toString member]
    cases after with
    | nil => simp
    | cons c after => simp [stops c rfl]
  have numbers := congrArg (List.takeWhile Char.isDigit) same
  rw [digits first ends, digits second endsOther] at numbers
  obtain rfl := toString_inj numbers
  exact ⟨rfl, List.append_cancel_left same⟩

/-! ## Numbers with signs -/

theorem mem_toString_int {number : Int} {c : Char} (member : c ∈ (toString number).toList) :
    c.isDigit = true ∨ c = '-' := by
  change c ∈ number.repr.toList at member
  rw [Int.repr_eq_if] at member
  split_ifs at member
  · exact .inl (isDigit_of_mem_toString member)
  · rw [String.toList_append, List.mem_append] at member
    rcases member with isSign | inDigits
    · exact .inr (List.mem_singleton.mp isSign)
    · exact .inl (isDigit_of_mem_toString inDigits)

theorem toString_int_inj {first second : Int} (same : toString first = toString second) :
    first = second := by
  have unsigned : ∀ number other : Nat, "-" ++ toString number ≠ toString other := by
    intro number other same
    have digit : '-'.isDigit = true := by
      apply isDigit_of_mem_toString
      rw [← same, String.toList_append]
      exact List.mem_append_left _ (List.mem_singleton.mpr rfl)
    cases digit
  change first.repr = second.repr at same
  rw [Int.repr_eq_if, Int.repr_eq_if] at same
  split_ifs at same
  · have := toString_inj (String.toList_inj.mpr same)
    omega
  · exact absurd same.symm (unsigned _ _)
  · exact absurd same (unsigned _ _)
  · rw [← String.toList_inj, String.toList_append, String.toList_append] at same
    have := toString_inj (List.append_cancel_left same)
    omega

end Flowgraph.Text
