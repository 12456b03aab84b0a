/-
The text of a timestamp reads back as the timestamp that it names, which is the one that was written
unless that is a leap second after a second other than 59. Padded digits are read up to their width or
up to the first character that is no digit; a year, a field and a fraction of a second each read back
from what is written of them, whatever follows, so the whole text reads back part by part.
-/
import RowMapper.Calendar.Pattern
import Mathlib.Algebra.Group.Nat.Defs
import Mathlib.Data.List.TakeWhile
import Mathlib.Order.Basic
import Mathlib.Tactic.SplitIfs

namespace RowMapper

/-! ## Padded digits -/

namespace Number

variable {width n : Nat} {c : Char}

theorem toList_paddedDigits : (paddedDigits width n).toList =
    List.replicate (width - (Nat.toDigits 10 n).length) '0' ++ Nat.toDigits 10 n := by
  simp [paddedDigits]

theorem isDigit_of_mem_paddedDigits (h : c ∈ (paddedDigits width n).toList) :
    isDigit c = true := by
  rw [toList_paddedDigits, List.mem_append] at h
  rcases h with zero | digit
  · obtain rfl := (List.mem_replicate.mp zero).2
    decide
  · have := Nat.isDigit_of_mem_toDigits (by decide) (by decide) digit
    simp only [Char.isDigit, Bool.and_eq_true, decide_eq_true_eq, UInt32.le_iff_toNat_le] at this
    simpa [isDigit] using this

theorem paddedDigits_ne_nil (width n : Nat) : (paddedDigits width n).toList ≠ [] := by
  simp [toList_paddedDigits, Nat.toDigits_ne_nil]

theorem exists_paddedDigits_eq_cons (width n : Nat) :
    ∃ c cs, (paddedDigits width n).toList = c :: cs ∧ isDigit c = true := by
  obtain ⟨c, cs, eq⟩ := List.exists_cons_of_ne_nil (paddedDigits_ne_nil width n)
  exact ⟨c, cs, eq, isDigit_of_mem_paddedDigits (eq ▸ List.mem_cons_self)⟩

theorem length_paddedDigits (positive : 0 < width) (small : n < 10 ^ width) :
    (paddedDigits width n).toList.length = width := by
  have := (Nat.length_toDigits_le_iff (b := 10) (by decide) positive).mpr small
  rw [toList_paddedDigits, List.length_append, List.length_replicate]
  omega

/-- The leading zeros do not count. -/
theorem valueOf_paddedDigits (width n : Nat) : Calendar.valueOf (paddedDigits width n).toList = n := by
  have same : ∀ cs, Calendar.valueOf cs = Nat.ofDigitChars 10 cs 0 := by
    intro cs
    simp only [Calendar.valueOf, Nat.ofDigitChars_eq_foldl]
    congr 1
    funext acc d
    simp [digitValue, Nat.mul_comm]
  rw [same, toList_paddedDigits, Nat.ofDigitChars_append, Nat.ofDigitChars_replicate_zero,
    Nat.mul_zero, Nat.ofDigitChars_toDigits (by decide) (by decide)]

end Number

/-! ## Fields -/

namespace Calendar

open Number

variable {width n : Nat} {digits rest : List Char}

theorem not_isBlank_of_isDigit {c : Char} (h : isDigit c = true) : Text.isBlank c = false := by
  simp only [isDigit, Bool.and_eq_true, decide_eq_true_eq] at h
  simp only [Text.isBlank, Text.blankRanges, List.any_cons, List.any_nil, Bool.or_false,
    Bool.or_eq_false_iff, Bool.and_eq_false_iff, decide_eq_false_iff_not]
  omega

/-- White space before digits is all that is trimmed. -/
theorem trimStart_digits (some_digit : digits ≠ []) (all : ∀ c ∈ digits, isDigit c = true)
    (rest : List Char) :
    Text.trimStart (digits ++ rest) = digits ++ rest := by
  cases digits with
  | nil => exact absurd rfl some_digit
  | cons c cs =>
    have := not_isBlank_of_isDigit (all c List.mem_cons_self)
    simp [Text.trimStart, this]

/-- Digits are read up to the width, or up to a character that is no digit. -/
theorem readDigits_append (some_digit : digits ≠ []) (all : ∀ c ∈ digits, isDigit c = true)
    (fits : digits.length ≤ width)
    (stops : digits.length = width ∨ ∀ c ∈ rest.head?, isDigit c = false) :
    readDigits width (digits ++ rest) = .ok (digits, rest) := by
  have taken : ((digits ++ rest).take width).takeWhile isDigit = digits := by
    rcases stops with rfl | stops
    · rw [List.take_left, List.takeWhile_eq_self_iff]
      exact all
    · rw [List.take_append, List.take_of_length_le fits, List.takeWhile_append_of_pos all]
      cases rest with
      | nil => simp
      | cons c cs =>
        have := stops c rfl
        cases width - digits.length <;> simp [this]
  cases digits with
  | nil => exact absurd rfl some_digit
  | cons c cs =>
    rw [List.cons_append] at taken
    simp [readDigits, all c List.mem_cons_self, taken]

theorem readDigits_padded (positive : 0 < width) (small : n < 10 ^ width) (rest : List Char) :
    readDigits width ((paddedDigits width n).toList ++ rest) =
      .ok ((paddedDigits width n).toList, rest) := by
  have := length_paddedDigits positive small
  exact readDigits_append (paddedDigits_ne_nil width n) (fun _ => isDigit_of_mem_paddedDigits)
    (le_of_eq this) (.inl this)

/-- A field of two digits reads back, whatever follows it. -/
theorem readField_padded {low high : Nat} (above : low ≤ n) (below : n ≤ high)
    (small : high < 100) (rest : List Char) :
    readField low high ((paddedDigits 2 n).toList ++ rest) = .ok (n, rest) := by
  unfold readField
  rw [trimStart_digits (paddedDigits_ne_nil 2 n) (fun _ => isDigit_of_mem_paddedDigits),
    readDigits_padded (by decide) (Nat.lt_of_le_of_lt below small)]
  simp [bind, Except.bind, valueOf_paddedDigits, above, below]

/-- The digits of a year after a sign, which leaves room for any number of them. -/
theorem readDigits_signed (width n : Nat) (stops : ∀ c ∈ rest.head?, isDigit c = false) :
    let cs := (paddedDigits width n).toList ++ rest
    readDigits cs.length cs = .ok ((paddedDigits width n).toList, rest) :=
  readDigits_append (paddedDigits_ne_nil width n) (fun _ => isDigit_of_mem_paddedDigits) (by simp)
    (.inr stops)

/-- Four digits without a sign are a year. -/
theorem readYear_unsigned (small : n < 10 ^ 4) :
    readYear ((paddedDigits 4 n).toList ++ rest) = .ok ((n : Int), rest) := by
  have trimmed :=
    trimStart_digits (paddedDigits_ne_nil 4 n) (fun _ => isDigit_of_mem_paddedDigits) rest
  have read := readDigits_padded (by decide) small rest
  have value := valueOf_paddedDigits 4 n
  obtain ⟨c, cs, eq, digit⟩ := exists_paddedDigits_eq_cons 4 n
  -- A digit is neither sign.
  have minus : c ≠ '-' := by rintro rfl; exact absurd digit (by decide)
  have plus : c ≠ '+' := by rintro rfl; exact absurd digit (by decide)
  rw [eq, List.cons_append] at trimmed read
  rw [eq] at value
  rw [eq, List.cons_append, readYear, trimmed]
  simp [minus, plus, read, Except.map, bind, Except.bind, value]
  omega

/-- A year reads back from its text, signed or not, when no digit follows. -/
theorem readYear_yearText {year : Int} (low : -262143 ≤ year) (high : year ≤ 262142)
    (stops : ∀ c ∈ rest.head?, isDigit c = false) :
    readYear ((Timestamp.yearText year).toList ++ rest) = .ok (year, rest) := by
  have read := readDigits_signed 4 year.natAbs stops
  by_cases negative : year < 0
  · have text : (Timestamp.yearText year).toList = '-' :: (paddedDigits 4 year.natAbs).toList := by
      simp [Timestamp.yearText, negative]
    have trimmed (cs : List Char) : Text.trimStart ('-' :: cs) = '-' :: cs := rfl
    have value : -(year.natAbs : Int) = year := by omega
    rw [text, List.cons_append, readYear, trimmed]
    simp only [read, Except.map, bind, Except.bind, valueOf_paddedDigits, Int.neg_mul, Int.one_mul,
      value]
    rw [if_pos (by simp; omega)]
  by_cases short : year ≤ 9999
  · have value : (year.natAbs : Int) = year := by omega
    have text : Timestamp.yearText year = paddedDigits 4 year.natAbs := by
      simp [Timestamp.yearText, negative, short]
    rw [text, readYear_unsigned (by omega), value]
  · have text : (Timestamp.yearText year).toList = '+' :: (paddedDigits 4 year.natAbs).toList := by
      simp [Timestamp.yearText, negative, short]
    have trimmed (cs : List Char) : Text.trimStart ('+' :: cs) = '+' :: cs := rfl
    have value : (year.natAbs : Int) = year := by omega
    rw [text, List.cons_append, readYear, trimmed]
    simp only [read, Except.map, bind, Except.bind, valueOf_paddedDigits, Int.one_mul, value]
    rw [if_pos (by simp; omega)]

/-- Digits after a point count as a fraction of a second, up to nanoseconds. -/
theorem readFraction_padded (positive : 0 < width) (fits : width ≤ 9) (small : n < 10 ^ width) :
    readFraction ('.' :: (paddedDigits width n).toList) = .ok (n * 10 ^ (9 - width), []) := by
  have length := length_paddedDigits positive small
  have stops : ∀ c ∈ ([] : List Char).head?, isDigit c = false := nofun
  have read := readDigits_append (paddedDigits_ne_nil width n)
    (fun _ => isDigit_of_mem_paddedDigits) (length.trans_le fits) (.inr stops)
  rw [List.append_nil] at read
  simp [readFraction, read, bind, Except.bind, valueOf_paddedDigits, length]

/-- A fraction of a second reads back from its digits, however many it needs. -/
theorem readFraction_fractionText (small : n < 1000000000) :
    readFraction (Timestamp.fractionText n).toList = .ok (n, []) := by
  unfold Timestamp.fractionText
  split
  · next zero =>
    simp [readFraction, zero]
  -- The zeros that are left off when three or six digits do are multiplied back in.
  split
  · simp only [String.toList_append, String.reduceToList, List.cons_append, List.nil_append]
    rw [readFraction_padded (by decide) (by decide) (by omega)]
    congr 2
    omega
  split
  · simp only [String.toList_append, String.reduceToList, List.cons_append, List.nil_append]
    rw [readFraction_padded (by decide) (by decide) (by omega)]
    congr 2
    omega
  · simp only [String.toList_append, String.reduceToList, List.cons_append, List.nil_append]
    rw [readFraction_padded (by decide) (by decide) (by omega)]
    simp

/-! ## Whole texts -/

/-- The timestamp that the text of one names. A leap second after a second other than 59 is written as
the second that follows it. -/
def Timestamp.named (t : Timestamp) : Timestamp :=
  if early : t.second < 59 ∧ 1000000000 ≤ t.nanos then
    { t with
      second := t.second + 1
      nanos := t.nanos - 1000000000
      time_valid := by
        have time := t.time_valid
        simp only [isTime, Bool.and_eq_true, decide_eq_true_eq] at time ⊢
        omega }
  else t

/-- A timestamp is the one that its text names, unless it is a leap second after a second other
than 59. -/
theorem Timestamp.named_eq_self_iff {t : Timestamp} :
    t.named = t ↔ (1000000000 ≤ t.nanos → t.second = 59) := by
  have time := t.time_valid
  simp only [isTime, Bool.and_eq_true, decide_eq_true_eq] at time
  unfold named
  split
  · next early =>
    constructor
    · intro h
      have second : t.second + 1 = t.second := congrArg Timestamp.second h
      omega
    · intro h
      have := h early.2
      omega
  · next late =>
    simp only [true_iff]
    omega

/-- The fields of a timestamp as its text has them, a leap second as second 60 or as the second that
follows. -/
def Fields.ofTimestamp (t : Timestamp) : Fields where
  year := t.year
  month := t.month
  day := t.day
  hour := t.hour
  minute := t.minute
  second := t.second + t.nanos / 1000000000
  fraction := t.nanos % 1000000000

theorem Timestamp.ofFields_fields (t : Timestamp) :
    Timestamp.ofFields t.year t.month t.day t.hour t.minute t.second t.nanos = some t := by
  simp [Timestamp.ofFields, t.date_valid, t.time_valid]

theorem Fields.timestamp_ofTimestamp (t : Timestamp) :
    (Fields.ofTimestamp t).timestamp = some t.named := by
  have time := t.time_valid
  simp only [isTime, Bool.and_eq_true, decide_eq_true_eq] at time
  rw [← t.named.ofFields_fields]
  unfold Fields.timestamp Fields.ofTimestamp Timestamp.named
  split
  -- Second 60 is read as a leap second after second 59, which is named by it.
  · next leap =>
    have second : t.second = 59 := by simp only at leap; omega
    have nanos : t.nanos % 1000000000 + 1000000000 = t.nanos := by simp only at leap; omega
    rw [dif_neg (by omega)]
    simp only [nanos, second]
  · next plain =>
    split
    · next early =>
      have seconds : t.second + t.nanos / 1000000000 = t.second + 1 := by omega
      have nanos : t.nanos % 1000000000 = t.nanos - 1000000000 := by omega
      simp only [seconds, nanos]
    · next late =>
      have small : t.nanos < 1000000000 := by simp only at plain; omega
      simp only [Nat.div_eq_of_lt small, Nat.mod_eq_of_lt small, Nat.add_zero]

theorem daysInMonth_le (year : Int) (month : Nat) : daysInMonth year month ≤ 31 := by
  unfold daysInMonth
  split_ifs <;> omega

/-- The text of a timestamp reads part by part as its fields, and nothing is left over. -/
theorem readItems_text (t : Timestamp) :
    readItems dashPattern {} t.text.toList = .ok (Fields.ofTimestamp t, []) := by
  have date := t.date_valid
  have time := t.time_valid
  simp only [isDate, isTime, Bool.and_eq_true, decide_eq_true_eq] at date time
  have days := daysInMonth_le t.year t.month
  have blank (n : Nat) (rest : List Char) :
      Text.trimStart (' ' :: ((paddedDigits 2 n).toList ++ rest)) =
        (paddedDigits 2 n).toList ++ rest :=
    trimStart_digits (paddedDigits_ne_nil 2 n) (fun _ => isDigit_of_mem_paddedDigits) rest
  have year (rest : List Char) : readYear ((Timestamp.yearText t.year).toList ++ '-' :: rest) =
      .ok (t.year, '-' :: rest) :=
    readYear_yearText (by omega) (by omega) (by simp [isDigit])
  have month : ∀ rest, readField 1 12 ((paddedDigits 2 t.month).toList ++ rest) = .ok (t.month, rest) :=
    readField_padded (by omega) (by omega) (by decide)
  have day : ∀ rest, readField 1 31 ((paddedDigits 2 t.day).toList ++ rest) = .ok (t.day, rest) :=
    readField_padded (by omega) (by omega) (by decide)
  have hour : ∀ rest, readField 0 23 ((paddedDigits 2 t.hour).toList ++ rest) = .ok (t.hour, rest) :=
    readField_padded (by omega) (by omega) (by decide)
  have minute : ∀ rest, readField 0 59 ((paddedDigits 2 t.minute).toList ++ rest) =
      .ok (t.minute, rest) :=
    readField_padded (by omega) (by omega) (by decide)
  have second : ∀ rest,
      readField 0 60 ((paddedDigits 2 (t.second + t.nanos / 1000000000)).toList ++ rest) =
        .ok (t.second + t.nanos / 1000000000, rest) :=
    readField_padded (by omega) (by omega) (by decide)
  have fraction := readFraction_fractionText (n := t.nanos % 1000000000) (by omega)
  simp only [Timestamp.text, String.toList_append, String.reduceToList, List.append_assoc,
    List.cons_append, List.nil_append, dashPattern, timeItems, readItems, readItem, readLiteral,
    year, month, day, blank, hour, minute, second, fraction, bind, Except.bind, if_true]
  rfl

/-- The text of a timestamp reads back as the timestamp that it names, by the pattern it is written
in. -/
theorem Timestamp.read_text (t : Timestamp) : Timestamp.read dashPattern t.text = .ok t.named := by
  simp [Timestamp.read, readItems_text, Fields.timestamp_ofTimestamp, bind, Except.bind]

/-- A timestamp stored as text reads back, because the pattern it is written in is tried first. -/
theorem Timestamp.readStored_text (t : Timestamp) : Timestamp.readStored t.text = some t.named := by
  simp [Timestamp.readStored, storedPatterns, Timestamp.read_text, Except.toOption]

end Calendar

end RowMapper
