import Flowgraph.Proofs.Text.Marked
import Flowgraph.Time.Moment
import Mathlib.Tactic.SplitIfs

/-!
# Durations and moments as they are shown

A duration is shown as a count and a unit, the largest of which its whole milliseconds are a
multiple (`Duration.exists_text_isLargestUnit`).  Both can be told from the text: the count is
made of digits, and the unit begins with a letter.  What is lost is the part of a
millisecond, so that durations of whole milliseconds are known from their texts
(`Duration.text_inj`), and so are the moments made of them (`Moment.shown_inj`).
-/

namespace Flowgraph

open Text

/-! ## Durations -/

namespace Duration

/-- A duration of whole milliseconds. -/
def IsWhole (duration : Duration) : Prop :=
  duration.nanoseconds = duration.milliseconds * Nat.pow 10 6

theorem isWhole_ofMilliseconds (count : UInt64) : (ofMilliseconds count).IsWhole := by
  rw [IsWhole, milliseconds_ofMilliseconds]
  rfl

/-- Durations are read to whole milliseconds. -/
theorem isWhole_of_read? {text : List Char} {duration : Duration}
    (found : read? text = some duration) : duration.IsWhole := by
  obtain ⟨count, -, inUnits⟩ := Option.bind_eq_some_iff.mp found
  rw [ofUnits?] at inUnits
  split_ifs at inUnits
  obtain ⟨factor, -, rfl⟩ := Option.map_eq_some_iff.mp inUnits
  exact isWhole_ofMilliseconds _

/-- The units in which durations are shown, each with its number of milliseconds. -/
def shownUnits : List (String × Nat) :=
  [("ms", 1), ("s", 1000), ("m", 60000), ("h", 3600000), ("d", 86400000)]

/-- Durations are shown in units in which they can be written. -/
theorem unitMilliseconds?_of_mem_shownUnits :
    ∀ unit ∈ shownUnits, unitMilliseconds? unit.1 = some unit.2 := by
  decide

/--
The unit is the largest of which a number of milliseconds is a multiple.  Zero is a multiple of
every unit; it is shown in seconds.
-/
structure IsLargestUnit (milliseconds : Nat) (unit : String × Nat) : Prop where
  shown : unit ∈ shownUnits
  divides : unit.2 ∣ milliseconds
  largest : milliseconds ≠ 0 → ∀ other ∈ shownUnits, other.2 ∣ milliseconds → other.2 ≤ unit.2
  seconds : milliseconds = 0 → unit.1 = "s"

theorem isLargestUnit_of_eq_mul {milliseconds count length : Nat} {name : String}
    (shown : (name, length) ∈ shownUnits) (value : milliseconds = count * length)
    (largest : milliseconds ≠ 0 →
      1 ≤ length ∧ (1000 ∣ milliseconds → 1000 ≤ length) ∧
        (60000 ∣ milliseconds → 60000 ≤ length) ∧ (3600000 ∣ milliseconds → 3600000 ≤ length) ∧
        (86400000 ∣ milliseconds → 86400000 ≤ length))
    (seconds : milliseconds = 0 → name = "s") : IsLargestUnit milliseconds (name, length) where
  shown := shown
  divides := ⟨count, value.trans (Nat.mul_comm count length)⟩
  largest nonzero := by simpa [shownUnits] using largest nonzero
  seconds := seconds

/-- A duration is shown as a count of the largest unit. -/
theorem exists_text_isLargestUnit (duration : Duration) :
    ∃ count unit, IsLargestUnit duration.milliseconds unit ∧
      duration.text = toString count ++ unit.1 ∧ duration.milliseconds = count * unit.2 := by
  simp only [text]
  generalize duration.milliseconds = milliseconds
  split_ifs with partOfSecond days hours minutes
  · have value : milliseconds = milliseconds * 1 := by omega
    exact ⟨milliseconds, ("ms", 1),
      isLargestUnit_of_eq_mul (by decide) value (by omega) (by omega), rfl, value⟩
  · have value : milliseconds = milliseconds / 1000 / 86400 * 86400000 := by omega
    exact ⟨milliseconds / 1000 / 86400, ("d", 86400000),
      isLargestUnit_of_eq_mul (by decide) value (by omega) (by omega), rfl, value⟩
  · have value : milliseconds = milliseconds / 1000 / 3600 * 3600000 := by omega
    exact ⟨milliseconds / 1000 / 3600, ("h", 3600000),
      isLargestUnit_of_eq_mul (by decide) value (by omega) (by omega), rfl, value⟩
  · have value : milliseconds = milliseconds / 1000 / 60 * 60000 := by omega
    exact ⟨milliseconds / 1000 / 60, ("m", 60000),
      isLargestUnit_of_eq_mul (by decide) value (by omega) (by omega), rfl, value⟩
  · have value : milliseconds = milliseconds / 1000 * 1000 := by omega
    exact ⟨milliseconds / 1000, ("s", 1000),
      isLargestUnit_of_eq_mul (by decide) value (by omega) (fun _ => rfl), rfl, value⟩

/-- A duration is shown as a count of one of the units. -/
theorem exists_text (duration : Duration) :
    ∃ count, ∃ unit ∈ shownUnits, duration.text = toString count ++ unit.1 ∧
      duration.milliseconds = count * unit.2 := by
  obtain ⟨count, unit, isLargest, shown, value⟩ := duration.exists_text_isLargestUnit
  exact ⟨count, unit, isLargest.shown, shown, value⟩

/-- The units begin with letters, so that a unit can be told from the count before it. -/
theorem head?_shownUnits {unit : String × Nat} (member : unit ∈ shownUnits) : ∃ first,
    unit.1.toList.head? = some first ∧ first.isAlpha = true ∧ first.isDigit = false := by
  have heads : ∀ unit ∈ shownUnits,
      unit.1.toList.head?.map (fun c => (c.isAlpha, c.isDigit)) = some (true, false) := by
    decide
  obtain ⟨first, isFirst, classes⟩ := Option.map_eq_some_iff.mp (heads unit member)
  obtain ⟨letter, noDigit⟩ := Prod.mk.inj classes
  exact ⟨first, isFirst, letter, noDigit⟩

theorem isAlphanum_shownUnits :
    ∀ unit ∈ shownUnits, unit.1.toList.all Char.isAlphanum = true := by
  decide

/-- Durations that are shown alike have the same whole milliseconds. -/
theorem milliseconds_eq_of_text_eq {first second : Duration} (same : first.text = second.text) :
    first.milliseconds = second.milliseconds := by
  obtain ⟨count, unit, isUnit, shown, value⟩ := first.exists_text
  obtain ⟨countOther, unitOther, isUnitOther, shownOther, valueOther⟩ := second.exists_text
  have starts : ∀ unit ∈ shownUnits, ∀ c ∈ unit.1.toList.head?, c.isDigit = false := by
    intro unit member c isHead
    obtain ⟨letter, head, -, noDigit⟩ := head?_shownUnits member
    obtain rfl := Option.some.inj (head.symm.trans isHead)
    exact noDigit
  rw [shown, shownOther, ← String.toList_inj, String.toList_append, String.toList_append] at same
  obtain ⟨rfl, units⟩ := toString_append_inj (starts unit isUnit) (starts unitOther isUnitOther)
    same
  have factors := unitMilliseconds?_of_mem_shownUnits unit isUnit
  rw [String.toList_inj.mp units, unitMilliseconds?_of_mem_shownUnits unitOther isUnitOther]
    at factors
  rw [value, valueOther, Option.some.inj factors]

/-- Whole milliseconds are known from the text. -/
theorem text_inj {first second : Duration} (whole : first.IsWhole) (wholeOther : second.IsWhole)
    (same : first.text = second.text) : first = second := by
  rw [IsWhole, milliseconds_eq_of_text_eq same, ← wholeOther] at whole
  cases first
  cases second
  cases whole
  rfl

theorem isAlphanum_of_mem_text {duration : Duration} {c : Char}
    (member : c ∈ duration.text.toList) : c.isAlphanum = true := by
  obtain ⟨count, unit, isUnit, shown, -⟩ := duration.exists_text
  rw [shown, String.toList_append, List.mem_append] at member
  rcases member with inCount | inUnit
  · simp [Char.isAlphanum, isDigit_of_mem_toString inCount]
  · exact List.all_eq_true.mp (isAlphanum_shownUnits unit isUnit) c inUnit

/-- The text of a duration begins with a digit. -/
theorem isDigit_head_text (duration : Duration) :
    ∃ first rest, duration.text.toList = first :: rest ∧ first.isDigit = true := by
  obtain ⟨count, unit, -, shown, -⟩ := duration.exists_text
  obtain ⟨first, rest, digits⟩ := List.exists_cons_of_ne_nil (toString_ne_nil count)
  refine ⟨first, rest ++ unit.1.toList, ?_, ?_⟩
  · rw [shown, String.toList_append, digits, List.cons_append]
  · exact isDigit_of_mem_toString (digits ▸ List.mem_cons_self ..)

/-- The text of a duration has a letter, that of its unit. -/
theorem exists_isAlpha_mem_text (duration : Duration) :
    ∃ c ∈ duration.text.toList, c.isAlpha = true := by
  obtain ⟨count, unit, isUnit, shown, -⟩ := duration.exists_text
  obtain ⟨letter, head, isAlpha, -⟩ := head?_shownUnits isUnit
  refine ⟨letter, ?_, isAlpha⟩
  rw [shown, String.toList_append]
  exact List.mem_append_right _ (List.mem_of_mem_head? head)

end Duration

/-! ## Moments -/

namespace Moment

/-- The distance of a moment from the present, if it is given by one. -/
def distance? : Moment → Option Duration
  | ago distance | offset distance => some distance
  | endOfTime | now | beginning | absolute _ => none

/-- The distance of a moment that was read was itself read. -/
theorem exists_read?_distance {text : List Char} {moment : Moment}
    (found : read? text = some moment) :
    ∀ distance ∈ moment.distance?, ∃ written, Duration.read? written = some distance := by
  intro distance distant
  simp only [read?] at found
  split_ifs at found
  · cases found
    cases distant
  · cases found
    cases distant
  · cases found
    cases distant
  · split at found
    · obtain ⟨past, isPast, rfl⟩ := Option.map_eq_some_iff.mp found
      cases distant
      exact ⟨_, isPast⟩
    · rcases Option.or_eq_some_iff.mp found with isNumber | ⟨-, found⟩
      · obtain ⟨seconds, -, rfl⟩ := Option.map_eq_some_iff.mp isNumber
        cases distant
      · rcases Option.or_eq_some_iff.mp found with isDate | ⟨-, isOffset⟩
        · obtain ⟨seconds, -, rfl⟩ := Option.map_eq_some_iff.mp isDate
          cases distant
        · obtain ⟨later, isLater, rfl⟩ := Option.map_eq_some_iff.mp isOffset
          cases distant
          exact ⟨_, isLater⟩

/-- A moment with a duration of whole milliseconds, or with none. -/
def IsWhole : Moment → Prop
  | ago distance | offset distance => distance.IsWhole
  | endOfTime | now | beginning | absolute _ => True

/-- Moments are read to whole milliseconds. -/
theorem isWhole_of_read? {text : List Char} {moment : Moment}
    (found : read? text = some moment) : moment.IsWhole := by
  have distances := exists_read?_distance found
  cases moment with
  | ago distance | offset distance =>
      obtain ⟨written, read⟩ := distances distance rfl
      exact Duration.isWhole_of_read? read
  | _ => trivial

/-- A moment as it is shown, without the colons around it. -/
def shown : Moment → String
  | endOfTime => "end"
  | now => "now"
  | beginning => "beginning"
  | absolute seconds => toString seconds.toInt
  | ago distance => distance.text ++ " ago"
  | offset distance => distance.text

theorem text_eq (moment : Moment) : moment.text = ":" ++ moment.shown ++ ":" := by
  cases moment with
  | endOfTime | now | beginning => rfl
  | absolute seconds | offset distance => rfl
  | ago distance =>
      rw [← String.toList_inj]
      simp [text, shown]

/-- A moment is shown with letters, digits, dashes and spaces. -/
theorem mem_shown {moment : Moment} {c : Char} (member : c ∈ moment.shown.toList) :
    c.isAlphanum = true ∨ c = '-' ∨ c = ' ' := by
  have letters : ∀ named ∈ [endOfTime, now, beginning],
      named.shown.toList.all Char.isAlphanum = true := by
    decide
  cases moment with
  | endOfTime | now | beginning =>
      exact .inl (List.all_eq_true.mp (letters _ (by simp)) c member)
  | absolute seconds =>
      rcases mem_toString_int member with isDigit | isSign
      · exact .inl (by rw [Char.isAlphanum, isDigit, Bool.or_true])
      · exact .inr (.inl isSign)
  | ago distance =>
      rw [shown, String.toList_append, List.mem_append] at member
      rcases member with inDistance | inAgo
      · exact .inl (Duration.isAlphanum_of_mem_text inDistance)
      · have chars : (" ago".toList.all fun c => c.isAlphanum || c == ' ') = true := by decide
        have isChar := List.all_eq_true.mp chars c inAgo
        rw [Bool.or_eq_true, beq_iff_eq] at isChar
        exact isChar.imp_right .inr
  | offset distance => exact .inl (Duration.isAlphanum_of_mem_text member)

/-- Only moments in the past are shown with a space. -/
theorem space_mem_shown_iff (moment : Moment) :
    ' ' ∈ moment.shown.toList ↔ ∃ distance, moment = ago distance := by
  cases moment with
  | endOfTime | now | beginning => exact iff_of_false (by decide) (by simp)
  | absolute seconds =>
      refine iff_of_false (fun member => ?_) (by simp)
      rcases mem_toString_int member with isDigit | isSign
      · cases isDigit
      · cases isSign
  | ago distance =>
      refine iff_of_true ?_ ⟨distance, rfl⟩
      rw [shown, String.toList_append]
      exact List.mem_append_right _ (by decide)
  | offset distance =>
      refine iff_of_false (fun member => ?_) (by simp)
      cases Duration.isAlphanum_of_mem_text member

/-- Only fixed points in time are shown without letters. -/
theorem isAlpha_mem_shown_iff (moment : Moment) :
    (∃ c ∈ moment.shown.toList, c.isAlpha = true) ↔ ∀ seconds, moment ≠ absolute seconds := by
  cases moment with
  | endOfTime => exact iff_of_true ⟨'e', by decide, rfl⟩ (by simp)
  | now => exact iff_of_true ⟨'n', by decide, rfl⟩ (by simp)
  | beginning => exact iff_of_true ⟨'b', by decide, rfl⟩ (by simp)
  | absolute seconds =>
      refine iff_of_false ?_ (by simp)
      rintro ⟨c, member, letter⟩
      rcases mem_toString_int member with isDigit | rfl
      · rw [isAlpha_eq_false_of_isDigit isDigit] at letter
        cases letter
      · cases letter
  | ago distance =>
      obtain ⟨c, member, letter⟩ := distance.exists_isAlpha_mem_text
      refine iff_of_true ⟨c, ?_, letter⟩ (by simp)
      rw [shown, String.toList_append]
      exact List.mem_append_left _ member
  | offset distance => exact iff_of_true distance.exists_isAlpha_mem_text (by simp)

/-- Only the moments with a name are shown with a letter at the beginning. -/
theorem isAlpha_head_shown_iff (moment : Moment) :
    (∃ c ∈ moment.shown.toList.head?, c.isAlpha = true) ↔
      moment ∈ [endOfTime, now, beginning] := by
  have number {text : List Char} {first : Char} (isDigit : first.isDigit = true)
      (begins : text.head? = some first) : ¬ ∃ c ∈ text.head?, c.isAlpha = true := by
    rintro ⟨c, isHead, letter⟩
    rw [begins, Option.mem_some_iff] at isHead
    rw [← isHead, isAlpha_eq_false_of_isDigit isDigit] at letter
    cases letter
  cases moment with
  | endOfTime => exact iff_of_true ⟨'e', by decide, rfl⟩ (by simp)
  | now => exact iff_of_true ⟨'n', by decide, rfl⟩ (by simp)
  | beginning => exact iff_of_true ⟨'b', by decide, rfl⟩ (by simp)
  | absolute seconds =>
      refine iff_of_false ?_ (by simp)
      rintro ⟨c, isHead, letter⟩
      exact (isAlpha_mem_shown_iff _).mp ⟨c, List.mem_of_mem_head? isHead, letter⟩ seconds rfl
  | ago distance =>
      obtain ⟨first, rest, digits, isDigit⟩ := distance.isDigit_head_text
      refine iff_of_false (number isDigit ?_) (by simp)
      rw [shown, String.toList_append, digits, List.cons_append, List.head?_cons]
  | offset distance =>
      obtain ⟨first, rest, digits, isDigit⟩ := distance.isDigit_head_text
      refine iff_of_false (number isDigit ?_) (by simp)
      rw [shown, digits, List.head?_cons]

/-- Moments of whole milliseconds are known from what is shown. -/
theorem shown_inj {first second : Moment} (whole : first.IsWhole) (wholeOther : second.IsWhole)
    (same : first.shown = second.shown) : first = second := by
  -- What is shown says of which form a moment is: in the past, fixed, named or none of these.
  have past := space_mem_shown_iff second
  have unfixed := isAlpha_mem_shown_iff second
  have named := isAlpha_head_shown_iff second
  rw [← same] at past unfixed named
  rw [space_mem_shown_iff] at past
  rw [isAlpha_mem_shown_iff] at unfixed
  rw [isAlpha_head_shown_iff] at named
  cases first with
  | endOfTime | now | beginning =>
      cases second <;> simp_all [shown]
  | absolute seconds =>
      cases second with
      | absolute other => rw [Int64.toInt_inj.mp (toString_int_inj same)]
      | _ => simp at unfixed
  | ago distance =>
      obtain ⟨other, rfl⟩ := past.mp ⟨distance, rfl⟩
      rw [shown, shown, ← String.toList_inj, String.toList_append, String.toList_append] at same
      rw [Duration.text_inj whole wholeOther
        (String.toList_inj.mp (List.append_cancel_right same))]
  | offset distance =>
      cases second with
      | offset other => rw [Duration.text_inj whole wholeOther same]
      | absolute seconds => simp at unfixed
      | ago other => simp at past
      | _ => simp at named

end Moment

end Flowgraph
