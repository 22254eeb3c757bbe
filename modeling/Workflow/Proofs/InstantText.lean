import Workflow.Instant
import Workflow.Proofs.Numerals

/-!
# Instants are read back

The text of an instant, whatever its year and however fine its second, is read back as the instant.

* `Instant.numberAt_append` reads the digits of a field.
* `Instant.yearAt_yearText` and `Instant.fractionAt_fractionText` read the two fields whose width
  varies.
* `Instant.parse_text` reads a whole text.
-/

namespace Workflow

namespace Instant

/-! ## Padded numbers -/

section Padded

variable {width n : ℕ}

theorem isDigit_of_mem_padded : ∀ c ∈ padded width n, c.isDigit = true := by
  intro c hc
  rcases List.mem_append.1 hc with hc | hc
  · rw [List.eq_of_mem_replicate hc]
    rfl
  · exact Decimal.isDigit_of_mem_digitsText hc

theorem digitsValue_padded : Decimal.digitsValue (padded width n) = n := by
  rw [padded, Decimal.digitsValue_append, Decimal.digitsValue_replicate_zero, zero_mul, zero_add,
    Decimal.digitsValue_digitsText]

theorem padded_ne_nil : padded width n ≠ [] :=
  List.append_ne_nil_of_right_ne_nil _ (Decimal.digitsText_ne_nil n)

theorem length_padded (hwidth : 0 < width) (hn : n < 10 ^ width) : (padded width n).length = width := by
  have hlength : (Decimal.digitsText n).length ≤ width :=
    (Nat.length_toDigits_le_iff (by decide) hwidth).2 hn
  rw [padded, List.length_append, List.length_replicate, Nat.sub_add_cancel hlength]

end Padded

/-! ## Numbers and separators -/

section Fields

variable {rest : List Char}

/-- The digits of a number are read as far as they go, which is no further than allowed. -/
theorem numberAt_append {width : ℕ} {digits : List Char} (hdigits : ∀ c ∈ digits, c.isDigit = true)
    (hne : digits ≠ []) (hle : digits.length ≤ width)
    (hends : digits.length = width ∨ ∀ c ∈ rest.head?, c.isDigit = false) :
    numberAt width (digits ++ rest) = .ok (Decimal.digitsValue digits, rest) := by
  have hafter : ∀ c ∈ (rest.take (width - digits.length)).head?, c.isDigit = false := by
    rw [List.head?_take]
    split
    · simp
    · rcases hends with hends | hends
      · omega
      · exact hends
  have hread : ((digits ++ rest).take width).takeWhile Char.isDigit = digits := by
    rw [List.take_append, List.take_of_length_le hle, takeWhile_append_eq hdigits hafter]
  rw [numberAt]
  simp only [hread, if_neg hne, List.drop_left]

/-- No digit is a blank. -/
theorem skipBlanks_of_isDigit {cs : List Char} (h : ∀ c ∈ cs.head?, c.isDigit = true) :
    skipBlanks cs = cs := by
  cases cs with
  | nil => rfl
  | cons c cs =>
    have hc := isDigit_iff.1 (h c rfl)
    have hblank : Text.isBlank c = false := by
      rw [← Bool.not_eq_true, Text.isBlank_iff]
      omega
    rw [skipBlanks, List.dropWhile_cons_of_neg (by simp [hblank])]

theorem isDigit_head?_padded {width n : ℕ} : ∀ c ∈ (padded width n ++ rest).head?,
    c.isDigit = true := by
  rw [List.head?_append_of_ne_nil _ padded_ne_nil]
  exact fun c hc => isDigit_of_mem_padded c (List.mem_of_mem_head? hc)

theorem fieldAt_padded {least greatest n : ℕ} (hleast : least ≤ n) (hgreatest : n ≤ greatest)
    (hn : n < 100) : fieldAt least greatest (padded 2 n ++ rest) = .ok (n, rest) := by
  have hlength : (padded 2 n).length = 2 := length_padded (by decide) hn
  rw [fieldAt, skipBlanks_of_isDigit isDigit_head?_padded, numberAt_append isDigit_of_mem_padded
    padded_ne_nil hlength.le (.inl hlength), digitsValue_padded]
  exact if_pos ⟨hleast, hgreatest⟩

theorem separatorAt_cons {c : Char} (hc : Text.isBlank c = false) :
    separatorAt c (c :: rest) = .ok rest := by
  rw [separatorAt, skipBlanks, List.dropWhile_cons_of_neg (by simp [hc])]
  exact if_pos rfl

/-! ## Years and parts of a second -/

/-- A year after its sign is read to its last digit. -/
theorem numberAt_padded_dash {width n : ℕ} (hle : (padded 4 n).length ≤ width) :
    numberAt width (padded 4 n ++ '-' :: rest) = .ok (n, '-' :: rest) := by
  rw [numberAt_append isDigit_of_mem_padded padded_ne_nil hle (.inr fun c hc => ?_),
    digitsValue_padded]
  cases hc
  rfl

/-- A year that has been read with its sign, if it is one that can be written. -/
def checkedYear (year : ℤ) (rest : List Char) : Except Fault (ℤ × List Char) :=
  if leastYear ≤ year ∧ year < -leastYear then .ok (year, rest) else .error .outOfRange

theorem yearAt_minus {n : ℕ} {cs : List Char} (h : numberAt cs.length cs = .ok (n, rest)) :
    yearAt ('-' :: cs) = checkedYear (-(n : ℤ)) rest := by
  have hskip : skipBlanks ('-' :: cs) = '-' :: cs := rfl
  simp only [yearAt, hskip, h, bind, Except.bind, if_true, checkedYear]

theorem yearAt_plus {n : ℕ} {cs : List Char} (h : numberAt cs.length cs = .ok (n, rest)) :
    yearAt ('+' :: cs) = checkedYear n rest := by
  have hskip : skipBlanks ('+' :: cs) = '+' :: cs := rfl
  simp only [yearAt, hskip, h, bind, Except.bind, Bool.false_eq_true, if_false, checkedYear]

theorem yearAt_digit {n : ℕ} {c : Char} (hc : c.isDigit = true) {cs : List Char}
    (h : numberAt 4 (c :: cs) = .ok (n, rest)) : yearAt (c :: cs) = checkedYear n rest := by
  have hskip : skipBlanks (c :: cs) = c :: cs := skipBlanks_of_isDigit (by simpa using hc)
  have hminus : c ≠ '-' := by rintro rfl; cases hc
  have hplus : c ≠ '+' := by rintro rfl; cases hc
  simp [yearAt, hskip, hminus, hplus, h, bind, Except.bind, checkedYear]

theorem yearAt_yearText {year : ℤ} (hyear : -262143 ≤ year ∧ year ≤ 262142) :
    yearAt (yearText year ++ '-' :: rest) = .ok (year, '-' :: rest) := by
  have hchecked : checkedYear year ('-' :: rest) = .ok (year, '-' :: rest) :=
    if_pos (by rw [leastYear]; omega)
  have hlong : ∀ n, (padded 4 n).length ≤ (padded 4 n ++ '-' :: rest).length := by simp
  rw [yearText]
  split
  · rename_i hfour
    obtain ⟨n, rfl⟩ := Int.eq_ofNat_of_zero_le hfour.1
    have hlength : (padded 4 n).length = 4 := length_padded (by decide) (by omega)
    have hnumber : numberAt 4 (padded 4 n ++ '-' :: rest) = .ok (n, '-' :: rest) :=
      numberAt_padded_dash hlength.le
    obtain ⟨c, cs, hcs⟩ : ∃ c cs, padded 4 n = c :: cs := List.exists_cons_of_ne_nil padded_ne_nil
    have hc : c.isDigit = true := isDigit_of_mem_padded c (hcs ▸ List.mem_cons_self)
    rw [hcs, List.cons_append] at hnumber
    rw [Int.toNat_natCast, hcs, List.cons_append, yearAt_digit hc hnumber]
    exact hchecked
  · split
    · rename_i hnegative
      have habs : -(year.natAbs : ℤ) = year := by omega
      rw [List.cons_append, yearAt_minus (numberAt_padded_dash (hlong _)), habs]
      exact hchecked
    · rename_i hpositive
      have habs : (year.natAbs : ℤ) = year := by omega
      rw [List.cons_append, yearAt_plus (numberAt_padded_dash (hlong _)), habs]
      exact hchecked

/-- A part of a second is read from as many digits as it was written in. -/
theorem fractionAt_padded {width n : ℕ} (hwidth : 0 < width) (hle : width ≤ 9)
    (hn : n < 10 ^ width) :
    fractionAt ('.' :: padded width n ++ ['Z']) = .ok (n * Nat.pow 10 (9 - width), ['Z']) := by
  have hlength := length_padded hwidth hn
  have hread : ((padded width n ++ ['Z']).take 9).takeWhile Char.isDigit = padded width n := by
    rw [List.take_append, List.take_of_length_le (hlength.le.trans hle)]
    refine takeWhile_append_eq isDigit_of_mem_padded fun c hc => ?_
    rw [List.head?_take] at hc
    split at hc
    · cases hc
    · cases hc
      rfl
  rw [List.cons_append, fractionAt]
  simp only [hread, if_neg padded_ne_nil, List.drop_left, digitsValue_padded]
  rw [hlength]
  rfl

theorem fractionAt_fractionText {nanosecond : ℕ} (h : nanosecond < 1000000000) :
    fractionAt (fractionText nanosecond ++ ['Z']) = .ok (nanosecond, ['Z']) := by
  unfold fractionText
  split_ifs with hzero hmilli hmicro
  · rw [hzero]
    rfl
  · rw [fractionAt_padded (by decide) (by decide) (by omega)]
    change Except.ok (nanosecond / 1000000 * 1000000, _) = _
    rw [Nat.div_mul_cancel (Nat.dvd_of_mod_eq_zero hmilli)]
  · rw [fractionAt_padded (by decide) (by decide) (by omega)]
    change Except.ok (nanosecond / 1000 * 1000, _) = _
    rw [Nat.div_mul_cancel (Nat.dvd_of_mod_eq_zero hmicro)]
  · rw [fractionAt_padded (by decide) (by decide) h]
    change Except.ok (nanosecond * 1, _) = _
    rw [Nat.mul_one]

end Fields

/-! ## Whole instants -/

theorem ofLocal_zero (i : Instant) :
    ofLocal i.date i.hour i.minute i.second i.nanosecond 0 = .ok i := by
  obtain ⟨date, hour, minute, second, nanosecond, hour_lt, minute_lt, hvalid⟩ := i
  have hday : ¬((hour * 60 + minute : ℕ) - (0 : ℤ) < 0) := by omega
  have hnext : ¬(1440 ≤ (hour * 60 + minute : ℕ) - (0 : ℤ)) := by omega
  have hminutes : (((hour * 60 + minute : ℕ) - (0 : ℤ)) % 1440).toNat = hour * 60 + minute := by omega
  have hhour : (hour * 60 + minute) / 60 = hour := by omega
  have hminute : (hour * 60 + minute) % 60 = minute := by omega
  simp only [ofLocal, hday, hnext, hminutes, hhour, hminute, if_false]
  simp [hour_lt, minute_lt, hvalid]

theorem ofNumbers?_date (d : Date) : Date.ofNumbers? d.year d.month d.day = some d := by
  rw [Date.ofNumbers?, dif_pos d.inRange, dif_pos d.valid]

theorem day_le_31 (d : Date) : d.day ≤ 31 := by
  have h := d.valid.2.2.2
  unfold daysInMonth at h
  split_ifs at h <;> omega

/-- **Instants are read back from their texts.** -/
theorem parse_text (i : Instant) : parse i.text = .ok i := by
  obtain ⟨hmonth, hmonth', hday, -⟩ := i.date.valid
  have hday' := day_le_31 i.date
  obtain ⟨hhour, hminute, hsecond, hnanosecond⟩ := i.valid
  have htext : i.textChars = yearText i.date.year ++ '-' :: (padded 2 i.date.month ++
      '-' :: (padded 2 i.date.day ++ 'T' :: (padded 2 i.hour ++ ':' :: (padded 2 i.minute ++
        ':' :: (padded 2 i.second ++ (fractionText i.nanosecond ++ ['Z'])))))) := by
    simp only [textChars, List.append_assoc, List.cons_append]
  rw [parse, text, String.toList_ofList, htext, parseChars, yearAt_yearText i.date.inRange]
  have hdash : ∀ rest, separatorAt '-' ('-' :: rest) = .ok rest := fun _ => separatorAt_cons rfl
  have hcolon : ∀ rest, separatorAt ':' (':' :: rest) = .ok rest := fun _ => separatorAt_cons rfl
  have hdivider : ∀ rest, dividerAt ('T' :: rest) = .ok rest := fun _ => rfl
  have hoffset : offsetAt (skipBlanks ['Z']) = .ok (0, []) := rfl
  have hend : skipBlanks [] = [] := rfl
  have hhourAt : ∀ rest, fieldAt 0 23 (padded 2 i.hour ++ rest) = .ok (i.hour, rest) := fun _ =>
    fieldAt_padded (Nat.zero_le _) (by omega) (by omega)
  have hminuteAt : ∀ rest, fieldAt 0 59 (padded 2 i.minute ++ rest) = .ok (i.minute, rest) := fun _ =>
    fieldAt_padded (Nat.zero_le _) (by omega) (by omega)
  simp only [bind, Except.bind, hdash, hcolon, hdivider, fieldAt_padded hmonth hmonth' (by omega),
    fieldAt_padded hday hday' (by omega), hhourAt, hminuteAt,
    fieldAt_padded (Nat.zero_le i.second) hsecond (by omega), fractionAt_fractionText hnanosecond,
    hoffset, hend, ne_eq, not_true_eq_false, if_false, ofNumbers?_date, ofLocal_zero]

end Instant
end Workflow
