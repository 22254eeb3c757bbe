import Workflow.Json.Writer
import Workflow.Proofs.Bits
import Workflow.Proofs.Numerals
import Workflow.Proofs.Rounding

/-!
# Printed numbers

What is printed for a number is a numeral, perhaps after a sign, and the numeral reads back as the
number.  This holds of both formats, that of expressions and that of JSON.

* `Numeral.IsStrict` is what both formats keep to: digits around the point, and no needless zero in
  front.
* `Decimal.Layout.IsReadable` is what both layouts have in common.
* `Decimal.Layout.shows_decimalText` says that the text of a decimal is a numeral of its value.
* `JsonNumber.exists_text_eq` and `Value.exists_numberText_eq` say what the two formats print.
-/

namespace Workflow

namespace Decimal

/-! ## The digits that are kept -/

theorem digitsValue_append_replicate_zero (ds : List Char) (k : Nat) :
    digitsValue (ds ++ List.replicate k '0') = digitsValue ds * 10 ^ k := by
  rw [digitsValue_append, digitsValue_replicate_zero, List.length_replicate, add_zero]

theorem digitsValue_replicate_zero_append (k : Nat) (ds : List Char) :
    digitsValue (List.replicate k '0' ++ ds) = digitsValue ds := by
  rw [digitsValue_append, digitsValue_replicate_zero, zero_mul, zero_add]

/-- Some digits without the zeros at their end. -/
theorem exists_eq_append_replicate_zero (ds : List Char) :
    ∃ k, ds = (ds.reverse.dropWhile (· = '0')).reverse ++ List.replicate k '0' := by
  refine ⟨(ds.reverse.takeWhile (· = '0')).length, ?_⟩
  have hzeros : ds.reverse.takeWhile (· = '0') =
      List.replicate (ds.reverse.takeWhile (· = '0')).length '0' :=
    List.eq_replicate_of_mem fun c hc => by
      simpa using List.all_eq_true.1 List.all_takeWhile c hc
  rw [← List.reverse_replicate, ← hzeros, ← List.reverse_append,
    List.takeWhile_append_dropWhile, List.reverse_reverse]

/-- The digits of a number start with a zero only if it is zero. -/
theorem eq_zero_of_head?_digitsText {n : ℕ} (h : '0' ∈ (digitsText n).head?) : n = 0 := by
  induction n using Nat.strong_induction_on with
  | _ n ih =>
    rw [digitsText, Nat.toDigits_eq_if (by decide)] at h
    split at h
    · rename_i hlt
      interval_cases n <;> first | rfl | cases h
    · rename_i hle
      rw [List.head?_append_of_ne_nil _ Nat.toDigits_ne_nil] at h
      have := ih (n / 10) (by omega) h
      omega

/-- What is kept of the digits of a decimal has its value, and a zero in front only if it is a zero
and no more. -/
theorem stripZeros_eq (d : Decimal) :
    (∀ c ∈ d.stripZeros.1, c.isDigit = true) ∧ d.stripZeros.1 ≠ [] ∧
      ('0' ∈ d.stripZeros.1.head? → d.stripZeros = (['0'], 0)) ∧
      (digitsValue d.stripZeros.1 : ℚ) * 10 ^ d.stripZeros.2 = d.value := by
  obtain ⟨k, hk⟩ := exists_eq_append_replicate_zero (digitsText d.digits)
  have hvalue := digitsValue_digitsText d.digits
  have hdigits : ∀ c ∈ ((digitsText d.digits).reverse.dropWhile (· = '0')).reverse,
      c.isDigit = true := by
    intro c hc
    rw [List.mem_reverse] at hc
    exact isDigit_of_mem_digitsText (List.mem_reverse.1 ((List.dropWhile_sublist _).mem hc))
  have hlead : ((digitsText d.digits).reverse.dropWhile (· = '0')).reverse ≠ [] →
      '0' ∉ ((digitsText d.digits).reverse.dropWhile (· = '0')).reverse.head? := by
    intro hne hzero
    have hhead : '0' ∈ (digitsText d.digits).head? := by
      rw [hk, List.head?_append_of_ne_nil _ hne]
      exact hzero
    rw [eq_zero_of_head?_digitsText hhead] at hne
    exact hne rfl
  have hlength := congrArg List.length hk
  rw [hk, digitsValue_append_replicate_zero] at hvalue
  unfold stripZeros value
  simp only
  generalize ((digitsText d.digits).reverse.dropWhile (· = '0')).reverse = kept at *
  split
  · rename_i hnil
    rw [hnil] at hvalue
    rw [← hvalue]
    exact ⟨by simp, by simp, fun _ => rfl, by simp [digitsValue]⟩
  · rename_i hne
    refine ⟨hdigits, hne, fun hzero => absurd hzero (hlead hne), ?_⟩
    rw [List.length_append, List.length_replicate] at hlength
    rw [hlength, Nat.add_sub_cancel_left, ← hvalue, zpow_add₀ (by norm_num), zpow_natCast]
    push_cast
    ring

end Decimal

/-! ## Numerals of given digits -/

namespace Numeral

open Decimal

/-- Whether a numeral has neither a point nor an exponent. -/
def isWhole (n : Numeral) : Bool :=
  n.fraction?.isNone && n.exponent?.isNone

/-- A numeral without a needless zero in front, and with a digit on either side of the point. -/
structure IsStrict (n : Numeral) : Prop where
  whole_ne_nil : n.whole ≠ []
  whole_eq : '0' ∈ n.whole.head? → n.whole = ['0']
  fraction_ne_nil : n.fraction? ≠ some []

/-- The numeral that is nothing but digits. -/
def ofWhole (whole : List Char) (hwhole : ∀ c ∈ whole, c.isDigit = true) (hne : whole ≠ []) :
    Numeral where
  whole := whole
  fraction? := none
  exponent? := none
  isDigit_whole := hwhole
  isDigit_fraction := nofun
  digits_ne_nil := by simpa using hne

/-- The numeral with digits on both sides of a point. -/
def ofPoint (whole fraction : List Char) (hdigits : ∀ c ∈ whole ++ fraction, c.isDigit = true)
    (hne : whole ++ fraction ≠ []) : Numeral where
  whole := whole
  fraction? := some fraction
  exponent? := none
  isDigit_whole c hc := hdigits c (List.mem_append_left _ hc)
  isDigit_fraction := by
    rintro ds hds c hc
    cases hds
    exact hdigits c (List.mem_append_right _ hc)
  digits_ne_nil := hne

variable {whole fraction : List Char}

theorem text_ofWhole (hwhole : ∀ c ∈ whole, c.isDigit = true) (hne : whole ≠ []) :
    (ofWhole whole hwhole hne).text = whole := by
  simp [text, mantissa, ofWhole]

theorem decimal_ofWhole (hwhole : ∀ c ∈ whole, c.isDigit = true) (hne : whole ≠ []) :
    (ofWhole whole hwhole hne).decimal = ⟨digitsValue whole, 0⟩ := by
  simp [decimal, Numeral.fraction, ofWhole]

theorem text_ofPoint (hdigits : ∀ c ∈ whole ++ fraction, c.isDigit = true)
    (hne : whole ++ fraction ≠ []) :
    (ofPoint whole fraction hdigits hne).text = whole ++ '.' :: fraction := by
  simp [text, mantissa, ofPoint]

theorem value_ofPoint (hdigits : ∀ c ∈ whole ++ fraction, c.isDigit = true)
    (hne : whole ++ fraction ≠ []) :
    (ofPoint whole fraction hdigits hne).decimal.value =
      digitsValue (whole ++ fraction) * 10 ^ (-fraction.length : ℤ) := by
  simp [decimal, Numeral.fraction, ofPoint, value]

theorem isStrict_ofWhole {hwhole : ∀ c ∈ whole, c.isDigit = true} {hne : whole ≠ []}
    (hlead : '0' ∈ whole.head? → whole = ['0']) : (ofWhole whole hwhole hne).IsStrict :=
  ⟨hne, hlead, nofun⟩

theorem isStrict_ofPoint {hdigits : ∀ c ∈ whole ++ fraction, c.isDigit = true}
    {hne : whole ++ fraction ≠ []} (hwhole : whole ≠ [])
    (hlead : '0' ∈ whole.head? → whole = ['0']) (hfraction : fraction ≠ []) :
    (ofPoint whole fraction hdigits hne).IsStrict :=
  ⟨hwhole, hlead, fun h => hfraction (Option.some.inj h)⟩

/-- A numeral without an exponent, with an exponent put behind it. -/
def withExponent (n : Numeral) (x : Exponent) : Numeral :=
  { n with exponent? := some x }

theorem text_withExponent {n : Numeral} (hn : n.exponent? = none) (x : Exponent) :
    (n.withExponent x).text = n.text ++ x.text := by
  simp [text, mantissa, withExponent, hn]

theorem IsStrict.withExponent {n : Numeral} (h : n.IsStrict) (x : Exponent) :
    (n.withExponent x).IsStrict :=
  ⟨h.whole_ne_nil, h.whole_eq, h.fraction_ne_nil⟩

theorem isWhole_withExponent (n : Numeral) (x : Exponent) : (n.withExponent x).isWhole = false :=
  Bool.and_false _

theorem value_withExponent {n : Numeral} (hn : n.exponent? = none) (x : Exponent) :
    (n.withExponent x).decimal.value = n.decimal.value * 10 ^ x.value := by
  simp only [decimal, Numeral.fraction, withExponent, value, hn, Option.elim_some, Option.elim_none]
  rw [mul_assoc, ← zpow_add₀ (by norm_num), zero_sub, sub_eq_neg_add]

end Numeral

/-! ## The two ways to lay out digits -/

namespace Decimal.Layout

/-- What the formats have in common: a whole number ends in nothing or in `.0`, and an exponent that
is not negative, if there are any, is marked by `e+`. -/
structure IsReadable (l : Layout) : Prop where
  wholeEnding_eq : l.wholeEnding = [] ∨ l.wholeEnding = ['.', '0']
  exponentMark_eq : ∀ lead, l.positional lead = false → l.exponentMark = ['e', '+']

/-- A text is a strict numeral of a value, and shows that it is more than a whole number if the
format gives whole numbers an ending. -/
def Shows (l : Layout) (cs : List Char) (x : ℚ) : Prop :=
  ∃ n : Numeral, cs = n.text ∧ n.decimal.value = x ∧ n.IsStrict ∧
    (l.wholeEnding ≠ [] → n.isWhole = false)

variable {l : Layout} {ds : List Char}

theorem isDigit_of_mem_replicate_zero {k : ℕ} : ∀ c ∈ List.replicate k '0', c.isDigit = true := by
  intro c hc
  rw [List.eq_of_mem_replicate hc]
  rfl

theorem isDigit_of_mem_append {cs ds : List Char} (hcs : ∀ c ∈ cs, c.isDigit = true)
    (hds : ∀ c ∈ ds, c.isDigit = true) : ∀ c ∈ cs ++ ds, c.isDigit = true := by
  intro c hc
  rcases List.mem_append.1 hc with hc | hc
  · exact hcs c hc
  · exact hds c hc

/-- Digits are written out with zeros behind them. -/
theorem shows_wholeText (hl : l.IsReadable) (hds : ∀ c ∈ ds, c.isDigit = true) (hne : ds ≠ [])
    (k : ℕ) (hlead : '0' ∈ ds.head? → ds = ['0'] ∧ k = 0) :
    l.Shows (ds ++ List.replicate k '0' ++ l.wholeEnding) (digitsValue ds * 10 ^ (k : ℤ)) := by
  have hdigits := isDigit_of_mem_append hds (isDigit_of_mem_replicate_zero (k := k))
  have hwhole : '0' ∈ (ds ++ List.replicate k '0').head? → ds ++ List.replicate k '0' = ['0'] := by
    rw [List.head?_append_of_ne_nil _ hne]
    intro hzero
    obtain ⟨rfl, rfl⟩ := hlead hzero
    rfl
  rcases hl.wholeEnding_eq with hending | hending
  · refine ⟨.ofWhole _ hdigits (by simp [hne]), ?_, ?_, Numeral.isStrict_ofWhole hwhole,
      fun h => absurd hending h⟩
    · rw [Numeral.text_ofWhole, hending, List.append_nil]
    · rw [Numeral.decimal_ofWhole, value, digitsValue_append_replicate_zero]
      simp
  · refine ⟨.ofPoint _ ['0'] (isDigit_of_mem_append hdigits (by simp)) (by simp), ?_, ?_,
      Numeral.isStrict_ofPoint (by simp [hne]) hwhole (by simp), fun _ => rfl⟩
    · rw [Numeral.text_ofPoint, hending]
    · rw [Numeral.value_ofPoint, digitsValue_append, digitsValue_append_replicate_zero]
      simp [digitsValue]

/-- Digits are written with the point in front of them or among them, or with zeros behind them. -/
theorem shows_positionalText (hl : l.IsReadable) (hds : ∀ c ∈ ds, c.isDigit = true)
    (hne : ds ≠ []) (point : ℤ) (hlead : '0' ∈ ds.head? → ds = ['0'] ∧ point = 1) :
    l.Shows (l.positionalText ds point) (digitsValue ds * 10 ^ (point - ds.length)) := by
  unfold positionalText
  split
  · rename_i hpoint
    obtain ⟨k, hk⟩ := Int.eq_ofNat_of_zero_le (by omega : 0 ≤ -point)
    have hdigits := isDigit_of_mem_append (isDigit_of_mem_replicate_zero (k := 1))
      (isDigit_of_mem_append (isDigit_of_mem_replicate_zero (k := k)) hds)
    refine ⟨.ofPoint ['0'] (List.replicate k '0' ++ ds) hdigits (by simp), ?_, ?_,
      Numeral.isStrict_ofPoint (by simp) (fun _ => rfl) (by simp [hne]), fun _ => rfl⟩
    · rw [Numeral.text_ofPoint, hk]
      rfl
    · rw [Numeral.value_ofPoint, ← List.append_assoc, ← List.replicate_one,
        List.replicate_append_replicate, digitsValue_replicate_zero_append, List.length_append,
        List.length_replicate]
      congr 2
      push_cast
      omega
  · rename_i hpoint
    obtain ⟨width, rfl⟩ := Int.eq_ofNat_of_zero_le (by omega : 0 ≤ point)
    simp only [Int.toNat_natCast]
    split
    · rename_i hlength
      rw [← Nat.cast_sub hlength]
      refine shows_wholeText hl hds hne _ fun hzero => ?_
      obtain ⟨rfl, hpoint⟩ := hlead hzero
      exact ⟨rfl, by simp; omega⟩
    · rename_i hlength
      have hdigits : ∀ c ∈ ds.take width ++ ds.drop width, c.isDigit = true := by
        rwa [List.take_append_drop]
      have hwidth : width ≠ 0 := by omega
      have hzero : '0' ∉ (ds.take width).head? := by
        rw [List.head?_take, if_neg hwidth]
        intro h
        obtain ⟨rfl, hpoint⟩ := hlead h
        simp at hlength
        omega
      refine ⟨.ofPoint (ds.take width) (ds.drop width) hdigits (by simpa using hne), ?_, ?_,
        Numeral.isStrict_ofPoint (by simp [hwidth, hne]) (fun h => absurd h hzero)
          (by simpa using hlength),
        fun _ => rfl⟩
      · rw [Numeral.text_ofPoint]
      · rw [Numeral.value_ofPoint, List.take_append_drop, List.length_drop]
        congr 2
        omega

/-- The exponent that a power of ten is written as. -/
theorem exists_exponent_eq (hmark : l.exponentMark = ['e', '+']) (lead : ℤ) :
    ∃ x : Exponent, (if 0 ≤ lead then l.exponentMark else ['e', '-']) ++ digitsText lead.natAbs =
      x.text ∧ x.value = lead := by
  have hdigits : ∀ c ∈ digitsText lead.natAbs, c.isDigit = true :=
    fun c hc => isDigit_of_mem_digitsText hc
  split
  · refine ⟨⟨'e', ['+'], _, .inl rfl, by simp, hdigits, digitsText_ne_nil _⟩, by rw [hmark]; rfl, ?_⟩
    rw [Exponent.value, if_neg (by simp), digitsValue_digitsText]
    omega
  · refine ⟨⟨'e', ['-'], _, .inl rfl, by simp, hdigits, digitsText_ne_nil _⟩, rfl, ?_⟩
    rw [Exponent.value, if_pos rfl, digitsValue_digitsText]
    omega

/-- Digits are written with the point after the first of them and an exponent behind them. -/
theorem shows_exponentText (hmark : l.exponentMark = ['e', '+'])
    (hds : ∀ c ∈ ds, c.isDigit = true) (hne : ds ≠ []) (lead : ℤ) :
    l.Shows (l.exponentText ds lead) (digitsValue ds * 10 ^ (lead + 1 - ds.length)) := by
  obtain ⟨x, hx, rfl⟩ := exists_exponent_eq hmark lead
  unfold exponentText
  match ds, hne with
  | [c], hne =>
      have hstrict : (Numeral.ofWhole [c] hds hne).IsStrict :=
        Numeral.isStrict_ofWhole (by simp)
      refine ⟨(Numeral.ofWhole [c] hds hne).withExponent x, ?_, ?_, hstrict.withExponent x,
        fun _ => Numeral.isWhole_withExponent _ x⟩
      · rw [Numeral.text_withExponent rfl, Numeral.text_ofWhole, ← hx, ← List.append_assoc]
      · rw [Numeral.value_withExponent rfl, Numeral.decimal_ofWhole, value]
        simp
  | c :: d :: rest, hne =>
      have hstrict : (Numeral.ofPoint [c] (d :: rest) hds hne).IsStrict :=
        Numeral.isStrict_ofPoint (by simp) (by simp) (by simp)
      refine ⟨(Numeral.ofPoint [c] (d :: rest) hds hne).withExponent x, ?_, ?_,
        hstrict.withExponent x, fun _ => Numeral.isWhole_withExponent _ x⟩
      · rw [Numeral.text_withExponent rfl, Numeral.text_ofPoint, ← hx, ← List.append_assoc]
        rfl
      · rw [Numeral.value_withExponent rfl, Numeral.value_ofPoint, mul_assoc,
          ← zpow_add₀ (by norm_num)]
        congr 2
        simp only [List.length_cons]
        push_cast
        ring

/-- The text of a decimal is a numeral of its value. -/
theorem shows_decimalText (hl : l.IsReadable) (d : Decimal) :
    l.Shows (l.decimalText d) d.value := by
  obtain ⟨hds, hne, hlead, hvalue⟩ := d.stripZeros_eq
  unfold decimalText
  generalize d.stripZeros = stripped at hds hne hlead hvalue
  obtain ⟨ds, exponent⟩ := stripped
  rw [← hvalue]
  simp only
  split
  · have hshows := shows_positionalText hl hds hne (exponent + ds.length) fun hzero => by
      obtain ⟨rfl, rfl⟩ := Prod.mk.inj (hlead hzero)
      exact ⟨rfl, rfl⟩
    rwa [add_sub_cancel_right] at hshows
  · rename_i hpositional
    have hmark := hl.exponentMark_eq _ (Bool.eq_false_iff.2 hpositional)
    have hshows := shows_exponentText hmark hds hne (exponent + ds.length - 1)
    rwa [sub_add_cancel, add_sub_cancel_right] at hshows

/-- The text of a finite number is a numeral of its magnitude, after a minus if it has a sign. -/
theorem exists_text_eq (hl : l.IsReadable) {x : Float} (hx : x.isFinite = true) :
    ∃ n : Numeral, l.text x = (if x.toBits ≥ 0x8000000000000000 then ['-'] else []) ++ n.text ∧
      n.decimal.toFloat = Magnitude.toFloat false (Magnitude.ofFloat x) ∧ n.IsStrict ∧
      (l.wholeEnding ≠ [] → n.isWhole = false) := by
  obtain ⟨n, htext, hvalue, hstrict, hwhole⟩ := shows_decimalText hl
    (if Magnitude.ofFloat x = 0 then ⟨0, 0⟩ else shortest l.tie (Magnitude.ofFloat x))
  refine ⟨n, by rw [← htext]; rfl, ?_, hstrict, hwhole⟩
  rw [toFloat, magnitude_eq_of_value_eq hvalue]
  split
  · rename_i hzero
    rw [hzero]
    rfl
  · rw [magnitude_shortest l.tie ((Magnitude.isFinite_iff x).1 hx)]

end Decimal.Layout

/-! ## The two formats -/

theorem JsonNumber.isReadable_layout : JsonNumber.layout.IsReadable where
  wholeEnding_eq := .inr rfl
  exponentMark_eq _ _ := rfl

theorem Value.isReadable_numberLayout : Value.numberLayout.IsReadable where
  wholeEnding_eq := .inl rfl
  exponentMark_eq := nofun

/-- The digits of a natural number are a numeral. -/
theorem exists_digitsText_eq (m : ℕ) :
    ∃ n : Numeral, Decimal.digitsText m = n.text ∧ n.decimal = ⟨m, 0⟩ ∧ n.IsStrict ∧
      n.isWhole = true := by
  refine ⟨.ofWhole _ (fun _ hc => Decimal.isDigit_of_mem_digitsText hc)
    (Decimal.digitsText_ne_nil m), (Numeral.text_ofWhole ..).symm, ?_,
    Numeral.isStrict_ofWhole fun hzero => ?_, rfl⟩
  · rw [Numeral.decimal_ofWhole, Decimal.digitsValue_digitsText]
  · rw [Decimal.eq_zero_of_head?_digitsText hzero]
    rfl

namespace JsonNumber

/-- Whether a number is written with a minus. -/
def isNegative : JsonNumber → Bool
  | .natural _ => false
  | .negative _ _ => true
  | .float x _ => x.toBits ≥ 0x8000000000000000

/-- The floating-point number that a number counts as if its minus is left out. -/
def unsigned : JsonNumber → Float
  | .natural n => Decimal.toFloat ⟨n.toNat, 0⟩
  | .negative m _ => Decimal.toFloat ⟨m, 0⟩
  | .float x _ => Magnitude.toFloat false (Magnitude.ofFloat x)

theorem toFloat_eq (j : JsonNumber) :
    j.toFloat = if j.isNegative then -j.unsigned else j.unsigned := by
  cases j with
  | natural m => rfl
  | negative m bounds => rfl
  | float x hx => simpa [toFloat, isNegative, unsigned] using Magnitude.eq_toFloat_ofFloat hx

/-- The JSON text of a number is a numeral that reads back as the same kind of number, perhaps after
a minus. -/
theorem exists_text_eq (j : JsonNumber) :
    ∃ n : Numeral, j.text = (if j.isNegative then ['-'] else []) ++ n.text ∧
      n.decimal.toFloat = j.unsigned ∧ n.IsStrict ∧
      ofNumeral? j.isNegative n.isWhole n.decimal = some j := by
  cases j with
  | natural m =>
      obtain ⟨n, htext, hn, hstrict, hwhole⟩ := exists_digitsText_eq m.toNat
      refine ⟨n, htext, by rw [hn]; rfl, hstrict, ?_⟩
      simp [ofNumeral?, isNegative, hwhole, hn, m.toNat_lt_size]
  | negative m bounds =>
      obtain ⟨n, htext, hn, hstrict, hwhole⟩ := exists_digitsText_eq m
      refine ⟨n, congrArg ('-' :: ·) htext, by rw [hn]; rfl, hstrict, ?_⟩
      simp [ofNumeral?, isNegative, hwhole, hn, bounds]
  | float x hx =>
      obtain ⟨n, htext, hn, hstrict, hwhole⟩ := Decimal.Layout.exists_text_eq isReadable_layout hx
      refine ⟨n, ?_, hn, hstrict, ?_⟩
      · simp only [isNegative, decide_eq_true_eq]
        exact htext
      · have heq : x = if (float x hx).isNegative then -n.decimal.toFloat else n.decimal.toFloat := by
          simpa [isNegative, hn] using Magnitude.eq_toFloat_ofFloat hx
        rw [ofNumeral?, hwhole (by decide), ← heq, ofFloat?, dif_pos hx]
        rfl

end JsonNumber

/-- Neither NaN nor an infinite number is finite. -/
theorem isNaN_and_isInf_of_isFinite {x : Float} (hx : x.isFinite = true) :
    x.isNaN = false ∧ x.isInf = false := by
  change x.toModel.unpack.isFinite = true at hx
  change x.toModel.unpack.isNaN = false ∧ x.toModel.unpack.isInf = false
  cases hparts : x.toModel.unpack with
  | notANumber => rw [hparts] at hx; cases hx
  | infinity s => rw [hparts] at hx; cases hx
  | zero s => exact ⟨rfl, rfl⟩
  | finite s m e hm => exact ⟨rfl, rfl⟩

theorem Magnitude.isFinite_toFloat {b : Magnitude} (hb : b < infinity) :
    (toFloat false b).isFinite = true := by
  rw [isFinite_iff, ofFloat, toNat_toBits_toFloat hb.le, Nat.mod_eq_of_lt (hb.trans (by decide))]
  exact hb

/-- Whole numbers of sixty-four bits have a finite number nearest to them. -/
theorem Decimal.isFinite_toFloat {m : ℕ} (hm : m < 2 ^ 64) : (toFloat ⟨m, 0⟩).isFinite = true := by
  refine Magnitude.isFinite_toFloat ?_
  rw [magnitude_eq]
  refine Magnitude.nearestTo_lt_infinity (by unfold value; positivity) ?_
  calc value ⟨m, 0⟩ = m := by simp [value]
    _ < 2 ^ (64 : ℤ) := by exact_mod_cast hm
    _ ≤ 2 ^ (1023 : ℤ) := zpow_le_zpow_right₀ (by norm_num) (by norm_num)

theorem JsonNumber.isFinite_toFloat (j : JsonNumber) : j.toFloat.isFinite = true := by
  cases j with
  | natural m => exact Decimal.isFinite_toFloat m.toNat_lt
  | negative m bounds =>
      exact Magnitude.isFinite_neg (Decimal.isFinite_toFloat (bounds.2.trans_lt (by decide)))
  | float x hx => exact hx

/-- The text of a finite number without a sign is a numeral and reads back as the number. -/
theorem Value.exists_numberText_eq {b : Magnitude} (hb : b < Magnitude.infinity) :
    ∃ n : Numeral, Value.numberText (Magnitude.toFloat false b) = n.text ∧
      n.decimal.toFloat = Magnitude.toFloat false b := by
  have hbits := Magnitude.toNat_toBits_toFloat hb.le
  have hfinite := Magnitude.isFinite_toFloat hb
  generalize Magnitude.toFloat false b = x at hbits hfinite
  have hlt : x.toBits.toNat < Magnitude.signBit := by
    rw [hbits]
    exact hb.trans (by decide)
  obtain ⟨hnan, hinf⟩ := isNaN_and_isInf_of_isFinite hfinite
  unfold Value.numberText
  rw [hnan, hinf, if_neg (by decide), if_neg (by decide)]
  split
  · rename_i hzero
    have hx : x = 0 := by
      obtain ⟨-, -, hx | ⟨hx, -⟩ | ⟨rfl, -⟩⟩ := Float.beq_iff_ne_nan_and_eq.1 hzero
      · exact hx
      · exact hx
      · exact absurd hlt (by decide +kernel)
    obtain ⟨n, htext, hn, -⟩ := exists_digitsText_eq 0
    exact ⟨n, htext, by rw [hn, hx]; decide +kernel⟩
  · obtain ⟨n, htext, hn, -⟩ := Decimal.Layout.exists_text_eq isReadable_numberLayout hfinite
    have hsign : ¬x.toBits ≥ 0x8000000000000000 := fun h =>
      absurd (UInt64.le_iff_toNat_le.1 h) (not_le.2 hlt)
    rw [if_neg hsign] at htext
    exact ⟨n, htext, hn.trans (Magnitude.toFloat_ofFloat hlt)⟩

theorem Value.toFloat_infinity : Magnitude.toFloat false Magnitude.infinity = Value.infinity := by
  decide +kernel

theorem Value.numberText_infinity : Value.numberText Value.infinity = "Infinity".toList := by
  decide +kernel

theorem Value.numberText_nan : Value.numberText Value.nan = "NaN".toList := by
  decide +kernel

end Workflow
