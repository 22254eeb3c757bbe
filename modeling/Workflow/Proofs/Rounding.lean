import Mathlib.Algebra.Order.Field.Power
import Mathlib.Algebra.Order.Floor.Semifield
import Mathlib.Data.Int.Log
import Mathlib.Data.Rat.Floor
import Workflow.Decimal.Shortest

/-!
# Rounding to floating-point numbers

The functions of `Workflow.Decimal.Nearest` compute with numerators and denominators.  Here they are
compared with rounding a rational number, of which nothing but its value matters: so two decimals of
one value have one nearest magnitude, and a magnitude is the one nearest to itself.

* `Decimal.value` and `Magnitude.value` are the numbers that decimals and magnitudes stand for.
* `Magnitude.nearestTo` rounds a number, and `Magnitude.nearest_eq` says that it is what rounding a
  fraction comes to.
* `Decimal.magnitude_eq` says the same of a decimal, whatever its size.
* `Magnitude.nearestTo_value` and `Decimal.magnitude_shortest` say that a magnitude is nearest to
  itself, and to the decimal that is printed for it.
* `Magnitude.nearestTo_lt_infinity` says that below `2 ^ 1023` nothing is rounded to infinity.
-/

namespace Workflow

/-! ## Powers of two around a number -/

/-- The power of two at or below a number is determined by the powers around it. -/
theorem log_eq_of_zpow_le_of_lt {x : ℚ} {e : ℤ} (hle : 2 ^ e ≤ x) (hlt : x < 2 ^ (e + 1)) :
    Int.log 2 x = e := by
  have hx : 0 < x := (zpow_pos (by norm_num) e).trans_le hle
  apply le_antisymm
  · exact Int.lt_add_one_iff.1 ((Int.lt_zpow_iff_log_lt (by norm_num) hx).1 (by exact_mod_cast hlt))
  · exact (Int.zpow_le_iff_le_log (by norm_num) hx).1 (by exact_mod_cast hle)

theorem zpow_log2_le {n : ℕ} (hn : 0 < n) : (2 : ℚ) ^ (n.log2 : ℤ) ≤ n := by
  rw [zpow_natCast]
  exact_mod_cast Nat.log2_self_le hn.ne'

theorem lt_zpow_log2_succ (n : ℕ) : (n : ℚ) < 2 ^ ((n.log2 : ℤ) + 1) := by
  rw [show ((n.log2 : ℤ) + 1) = ((n.log2 + 1 : ℕ) : ℤ) by push_cast; rfl, zpow_natCast]
  exact_mod_cast Nat.lt_log2_self

/-- Powers of two under powers of ten, as close as the limits of the floating-point numbers need. -/
theorem two_pow_le_ten_pow (k : ℕ) : (2 : ℚ) ^ (93 * k) ≤ 10 ^ (28 * k) := by
  rw [pow_mul, pow_mul]
  exact pow_le_pow_left₀ (by norm_num) (by norm_num) k

namespace Magnitude

/-! ## Rounding a fraction is rounding its value -/

/-- A number rounded to the nearest natural number, ties to even. -/
def roundToEven (x : ℚ) : ℕ :=
  if 2 * (x - ⌊x⌋₊) < 1 ∨ (2 * (x - ⌊x⌋₊) = 1 ∧ ⌊x⌋₊ % 2 = 0) then ⌊x⌋₊ else ⌊x⌋₊ + 1

/-- The magnitude nearest to a number that is not negative. -/
def nearestTo (x : ℚ) : Magnitude :=
  if x = 0 then 0
  else
    let q := max (Int.log 2 x - 52) (-1074)
    min ((q + 1074).toNat * implicitOne + roundToEven (x / 2 ^ q)) infinity

theorem roundToEven_natCast (n : ℕ) : roundToEven n = n := by
  simp [roundToEven]

theorem roundEven_eq (num : ℕ) {den : ℕ} (hden : 0 < den) :
    roundEven num den = roundToEven (num / den) := by
  have hden' : (0 : ℚ) < den := by exact_mod_cast hden
  have hrest : (num : ℚ) / den - (num / den : ℕ) = (num % den : ℕ) / den := by
    have hsplit : (num : ℚ) = den * (num / den : ℕ) + (num % den : ℕ) := by
      exact_mod_cast (Nat.div_add_mod num den).symm
    field_simp
    linarith
  have hlt : 2 * ((num % den : ℕ) / den : ℚ) < 1 ↔ 2 * (num % den) < den := by
    rw [← mul_div_assoc, div_lt_one hden']
    exact_mod_cast Iff.rfl
  have heq : 2 * ((num % den : ℕ) / den : ℚ) = 1 ↔ 2 * (num % den) = den := by
    rw [← mul_div_assoc, div_eq_one_iff_eq hden'.ne']
    exact_mod_cast Iff.rfl
  simp only [roundEven, roundToEven, Nat.floor_div_eq_div, hrest, hlt, heq]

theorem scale_snd_pos (num : ℕ) {den : ℕ} (hden : 0 < den) (q : ℤ) : 0 < (scale num den q).2 := by
  unfold scale
  split
  · rw [Nat.shiftLeft_eq]
    positivity
  · exact hden

theorem scale_fst_div_snd (num den : ℕ) (q : ℤ) :
    ((scale num den q).1 : ℚ) / (scale num den q).2 = num / den / 2 ^ q := by
  unfold scale
  split
  · rename_i hq
    obtain ⟨n, rfl⟩ := Int.eq_ofNat_of_zero_le hq
    rw [Int.toNat_natCast, Nat.shiftLeft_eq, zpow_natCast]
    push_cast
    rw [div_div]
  · rename_i hq
    obtain ⟨n, hn⟩ := Int.eq_ofNat_of_zero_le (by omega : 0 ≤ -q)
    rw [hn, Int.toNat_natCast, Nat.shiftLeft_eq, show q = -(n : ℤ) by omega, zpow_neg,
      zpow_natCast]
    push_cast
    rw [div_inv_eq_mul, div_mul_eq_mul_div]

theorem binaryExponent_eq_log {num den : ℕ} (hnum : 0 < num) (hden : 0 < den) :
    binaryExponent num den = Int.log 2 ((num : ℚ) / den) := by
  have hden' : (0 : ℚ) < den := by exact_mod_cast hden
  have hscale : ∀ q : ℤ, (scale num den q).2 ≤ (scale num den q).1 ↔
      (2 : ℚ) ^ q ≤ (num : ℚ) / den := by
    intro q
    have hpos : (0 : ℚ) < (scale num den q).2 := by exact_mod_cast scale_snd_pos num hden q
    have hpow : (0 : ℚ) < 2 ^ q := by positivity
    rw [← one_le_div₀ hpow, ← scale_fst_div_snd, one_le_div₀ hpos, Nat.cast_le]
  -- the lengths of numerator and denominator leave two powers of two
  have hupper : (num : ℚ) / den < 2 ^ ((num.log2 : ℤ) - den.log2 + 1) := by
    rw [div_lt_iff₀ hden', show (num.log2 : ℤ) - den.log2 + 1 = num.log2 + 1 - den.log2 by ring,
      zpow_sub₀ two_ne_zero, div_mul_eq_mul_div, lt_div_iff₀ (by positivity)]
    exact mul_lt_mul (lt_zpow_log2_succ num) (zpow_log2_le hden) (by positivity) (by positivity)
  have hlower : (2 : ℚ) ^ ((num.log2 : ℤ) - den.log2 - 1) ≤ (num : ℚ) / den := by
    rw [le_div_iff₀ hden', show (num.log2 : ℤ) - den.log2 - 1 = num.log2 - (den.log2 + 1) by ring,
      zpow_sub₀ two_ne_zero, div_mul_eq_mul_div, div_le_iff₀ (by positivity)]
    exact mul_le_mul (zpow_log2_le hnum) (lt_zpow_log2_succ den).le (by positivity) (by positivity)
  unfold binaryExponent
  simp only
  split
  · rename_i hle
    exact (log_eq_of_zpow_le_of_lt ((hscale _).1 hle) hupper).symm
  · rename_i hlt
    rw [hscale, not_le] at hlt
    exact (log_eq_of_zpow_le_of_lt hlower (by rwa [sub_add_cancel])).symm

/-- Rounding a fraction is rounding its value. -/
theorem nearest_eq (num : ℕ) {den : ℕ} (hden : 0 < den) :
    nearest num den = nearestTo ((num : ℚ) / den) := by
  rcases Nat.eq_zero_or_pos num with rfl | hnum
  · simp [nearest, nearestTo]
  · have hne : (num : ℚ) / den ≠ 0 := by positivity
    rw [nearest, if_neg hnum.ne', nearestTo, if_neg hne]
    simp only [binaryExponent_eq_log hnum hden, roundEven_eq _ (scale_snd_pos num hden _),
      scale_fst_div_snd]

/-- Beyond the finite magnitudes everything is infinite. -/
theorem nearestTo_of_zpow_le {x : ℚ} (h : 2 ^ (1024 : ℤ) ≤ x) : nearestTo x = infinity := by
  have hx : 0 < x := (zpow_pos (by norm_num) _).trans_le h
  have hlog : 1024 ≤ Int.log 2 x :=
    (Int.zpow_le_iff_le_log (by norm_num) hx).1 (by exact_mod_cast h)
  have hq : max (Int.log 2 x - 52) (-1074) = Int.log 2 x - 52 := by omega
  have hmantissa : 2 ^ 52 ≤ roundToEven (x / 2 ^ (Int.log 2 x - 52)) := by
    have hfloor : 2 ^ 52 ≤ ⌊x / 2 ^ (Int.log 2 x - 52)⌋₊ := by
      apply Nat.le_floor
      rw [le_div_iff₀ (by positivity)]
      have hle : (2 : ℚ) ^ Int.log 2 x ≤ x := by
        exact_mod_cast Int.zpow_log_le_self (b := 2) (by norm_num) hx
      calc ((2 ^ 52 : ℕ) : ℚ) * 2 ^ (Int.log 2 x - 52)
          = 2 ^ Int.log 2 x := by
            rw [zpow_sub₀ two_ne_zero]
            norm_num
            ring
        _ ≤ x := hle
    unfold roundToEven
    split
    · exact hfloor
    · exact hfloor.trans (Nat.le_succ _)
  have hexponent : 2046 ≤ (Int.log 2 x - 52 + 1074).toNat := by omega
  rw [nearestTo, if_neg hx.ne']
  simp only [hq]
  apply min_eq_right
  calc infinity = 2046 * implicitOne + 2 ^ 52 := by decide
    _ ≤ _ := Nat.add_le_add (Nat.mul_le_mul_right implicitOne hexponent) hmantissa

/-- Far enough below infinity nothing is rounded up to it. -/
theorem nearestTo_lt_infinity {x : ℚ} (hx : 0 ≤ x) (h : x < 2 ^ (1023 : ℤ)) :
    nearestTo x < infinity := by
  rcases hx.eq_or_lt with rfl | hx
  · rw [nearestTo, if_pos rfl]
    decide
  · have hlog : Int.log 2 x < 1023 :=
      (Int.lt_zpow_iff_log_lt (by norm_num) hx).1 (by exact_mod_cast h)
    have hexponent : (max (Int.log 2 x - 52) (-1074) + 1074).toNat ≤ 2044 := by omega
    have hmantissa : roundToEven (x / 2 ^ max (Int.log 2 x - 52) (-1074)) ≤ 2 ^ 53 := by
      have hquotient : x / 2 ^ max (Int.log 2 x - 52) (-1074) < ((2 ^ 53 : ℕ) : ℚ) := by
        rw [div_lt_iff₀ (by positivity)]
        calc x < 2 ^ (Int.log 2 x + 1) := by
              exact_mod_cast Int.lt_zpow_succ_log_self (b := 2) (by norm_num) x
          _ ≤ 2 ^ (53 + max (Int.log 2 x - 52) (-1074)) :=
            zpow_le_zpow_right₀ (by norm_num) (by omega)
          _ = ((2 ^ 53 : ℕ) : ℚ) * 2 ^ max (Int.log 2 x - 52) (-1074) := by
            rw [zpow_add₀ (by norm_num)]
            norm_num
      have hfloor : ⌊x / 2 ^ max (Int.log 2 x - 52) (-1074)⌋₊ < 2 ^ 53 :=
        (Nat.floor_lt (by positivity)).2 hquotient
      unfold roundToEven
      split <;> omega
    rw [nearestTo, if_neg hx.ne']
    apply min_lt_of_left_lt
    calc _ ≤ 2044 * implicitOne + 2 ^ 53 :=
          Nat.add_le_add (Nat.mul_le_mul_right implicitOne hexponent) hmantissa
      _ < infinity := by decide

/-- Under half of the least positive magnitude everything is zero. -/
theorem nearestTo_of_lt_zpow {x : ℚ} (hx : 0 ≤ x) (h : x < 2 ^ (-1075 : ℤ)) :
    nearestTo x = 0 := by
  rcases hx.eq_or_lt with rfl | hx
  · simp [nearestTo]
  · have hlog : Int.log 2 x < -1075 :=
      (Int.lt_zpow_iff_log_lt (by norm_num) hx).1 (by exact_mod_cast h)
    have hq : max (Int.log 2 x - 52) (-1074) = -1074 := by omega
    have hsmall : x / 2 ^ (-1074 : ℤ) < 1 / 2 := by
      rw [div_lt_iff₀ (by positivity)]
      calc x < 2 ^ (-1074 - 1 : ℤ) := h
        _ = 1 / 2 * 2 ^ (-1074 : ℤ) := by
          rw [zpow_sub_one₀ two_ne_zero, mul_comm, one_div]
    have hfloor : ⌊x / 2 ^ (-1074 : ℤ)⌋₊ = 0 :=
      Nat.floor_eq_zero.2 (hsmall.trans (by norm_num))
    rw [nearestTo, if_neg hx.ne']
    simp only [hq, roundToEven, hfloor]
    generalize x / 2 ^ (-1074 : ℤ) = y at hsmall
    rw [if_pos (.inl (by push_cast; linarith))]
    simp

end Magnitude

namespace Decimal

/-! ## Decimals -/

/-- The number that a decimal stands for. -/
def value (d : Decimal) : ℚ := d.digits * 10 ^ d.exponent

theorem fraction_snd_pos (d : Decimal) : 0 < d.fraction.2 := by
  unfold fraction
  split
  · exact Nat.one_pos
  · exact Nat.pow_pos (by norm_num)

theorem fraction_fst_div_snd (d : Decimal) : (d.fraction.1 : ℚ) / d.fraction.2 = d.value := by
  unfold fraction value
  split
  · rename_i he
    obtain ⟨n, hn⟩ := Int.eq_ofNat_of_zero_le he
    rw [hn, Int.toNat_natCast, zpow_natCast, Nat.pow_eq]
    push_cast
    rw [div_one]
  · rename_i he
    obtain ⟨n, hn⟩ := Int.eq_ofNat_of_zero_le (by omega : 0 ≤ -d.exponent)
    rw [hn, Int.toNat_natCast, show d.exponent = -(n : ℤ) by omega, zpow_neg, zpow_natCast,
      Nat.pow_eq]
    push_cast
    rw [div_eq_mul_inv]

theorem digits_lt_pow (d : Decimal) : d.digits < 10 ^ (digitsText d.digits).length :=
  (Nat.length_toDigits_le_iff (by norm_num) Nat.length_toDigits_pos).1 le_rfl

/-- The magnitude of a decimal is the nearest to its value, also where its size alone decides. -/
theorem magnitude_eq (d : Decimal) : d.magnitude = Magnitude.nearestTo d.value := by
  unfold magnitude
  split
  · rename_i hzero
    simp [value, hzero, Magnitude.nearestTo]
  split
  · rename_i hpos hlarge
    refine (Magnitude.nearestTo_of_zpow_le ?_).symm
    have hdigits : (1 : ℚ) ≤ d.digits := by exact_mod_cast Nat.one_le_iff_ne_zero.2 hpos
    have hpower : (2 : ℚ) ^ 1024 ≤ 10 ^ 311 := by
      calc (2 : ℚ) ^ 1024 = 2 ^ (93 * 11) * 2 := by rw [← pow_succ]
        _ ≤ 10 ^ (28 * 11) * 10 ^ 3 :=
          mul_le_mul (two_pow_le_ten_pow 11) (by norm_num) (by positivity) (by positivity)
        _ = 10 ^ 311 := by rw [← pow_add]
    calc (2 : ℚ) ^ (1024 : ℤ) ≤ 10 ^ (311 : ℤ) := by exact_mod_cast hpower
      _ ≤ 10 ^ d.exponent := zpow_le_zpow_right₀ (by norm_num) (by omega)
      _ ≤ d.value := le_mul_of_one_le_left (by positivity) hdigits
  split
  · rename_i hsmall
    refine (Magnitude.nearestTo_of_lt_zpow (by unfold value; positivity) ?_).symm
    have hdigits : (d.digits : ℚ) < 10 ^ ((digitsText d.digits).length : ℤ) := by
      rw [zpow_natCast]
      exact_mod_cast d.digits_lt_pow
    have hpower : (2 : ℚ) ^ 1075 ≤ 10 ^ 331 := by
      calc (2 : ℚ) ^ 1075 = 2 ^ (93 * 11) * 2 ^ 52 := by rw [← pow_add]
        _ ≤ 10 ^ (28 * 11) * 10 ^ 23 :=
          mul_le_mul (two_pow_le_ten_pow 11) (by norm_num) (by positivity) (by positivity)
        _ = 10 ^ 331 := by rw [← pow_add]
    calc d.value < 10 ^ ((digitsText d.digits).length : ℤ) * 10 ^ d.exponent :=
          mul_lt_mul_of_pos_right hdigits (by positivity)
      _ = 10 ^ (d.exponent + (digitsText d.digits).length) := by
          rw [← zpow_add₀ (by norm_num), add_comm]
      _ ≤ 10 ^ (-331 : ℤ) := zpow_le_zpow_right₀ (by norm_num) (by omega)
      _ ≤ 2 ^ (-1075 : ℤ) := by
          rw [zpow_neg, zpow_neg]
          exact inv_anti₀ (by positivity) (by exact_mod_cast hpower)
  · rw [Magnitude.nearest_eq _ d.fraction_snd_pos, fraction_fst_div_snd]

/-- Decimals of one value have one magnitude. -/
theorem magnitude_eq_of_value_eq {d other : Decimal} (h : d.value = other.value) :
    d.magnitude = other.magnitude := by
  rw [magnitude_eq, magnitude_eq, h]

end Decimal

namespace Magnitude

/-! ## Magnitudes are nearest to themselves -/

/-- The number that a finite magnitude stands for. -/
def value (b : Magnitude) : ℚ := b.split.1 * 2 ^ b.split.2

theorem nearestTo_value {b : Magnitude} (hb : b < infinity) : nearestTo b.value = b := by
  unfold value split
  split
  · rename_i hsmall
    rcases Nat.eq_zero_or_pos b with rfl | hpos
    · simp [nearestTo]
    · have hlog : Int.log 2 ((b : ℚ) * 2 ^ (-1074 : ℤ)) = b.log2 - 1074 := by
        apply log_eq_of_zpow_le_of_lt
        · rw [sub_eq_add_neg, zpow_add₀ two_ne_zero]
          exact mul_le_mul_of_nonneg_right (zpow_log2_le hpos) (by positivity)
        · rw [show (b.log2 : ℤ) - 1074 + 1 = b.log2 + 1 + -1074 by ring, zpow_add₀ two_ne_zero]
          exact mul_lt_mul_of_pos_right (lt_zpow_log2_succ b) (by positivity)
      have hbits : b.log2 < 52 := (Nat.log2_lt hpos.ne').2 hsmall
      have hq : max ((b.log2 : ℤ) - 1074 - 52) (-1074) = -1074 := by omega
      rw [nearestTo, if_neg (by positivity)]
      simp only [hlog, hq]
      rw [mul_div_cancel_right₀ _ (by positivity), roundToEven_natCast]
      simp only [neg_add_cancel, Int.toNat_zero, zero_mul, zero_add]
      exact min_eq_left hb.le
  · rename_i hlarge
    have hone : 0 < implicitOne := by decide
    have hlow : (2 : ℚ) ^ (52 : ℤ) ≤ (implicitOne + b % implicitOne : ℕ) := by
      exact_mod_cast Nat.le_add_right implicitOne (b % implicitOne)
    have hhigh : ((implicitOne + b % implicitOne : ℕ) : ℚ) < 2 ^ (52 + 1 : ℤ) := by
      exact_mod_cast Nat.add_lt_add_left (Nat.mod_lt b hone) implicitOne
    have hquotient : (1 : ℕ) ≤ (b / implicitOne : ℕ) := (Nat.one_le_div_iff hone).2 (not_lt.1 hlarge)
    have hsum : (b / implicitOne - 1) * implicitOne + (implicitOne + b % implicitOne) = b := by
      rw [← add_assoc, ← Nat.succ_mul, Nat.succ_eq_add_one, Nat.sub_add_cancel hquotient]
      exact Nat.div_add_mod' b implicitOne
    generalize implicitOne + b % implicitOne = m at hlow hhigh hsum ⊢
    generalize (b / implicitOne : ℕ) = k at hquotient hsum ⊢
    have hlog : Int.log 2 ((m : ℚ) * 2 ^ ((k : ℤ) - 1075)) = k - 1023 := by
      apply log_eq_of_zpow_le_of_lt
      · rw [show (k : ℤ) - 1023 = 52 + (k - 1075) by ring, zpow_add₀ two_ne_zero]
        exact mul_le_mul_of_nonneg_right hlow (by positivity)
      · rw [show (k : ℤ) - 1023 + 1 = 52 + 1 + (k - 1075) by ring, zpow_add₀ two_ne_zero]
        exact mul_lt_mul_of_pos_right hhigh (by positivity)
    have hm : (0 : ℚ) < m := (by positivity : (0 : ℚ) < 2 ^ (52 : ℤ)).trans_le hlow
    have hq : max ((k : ℤ) - 1023 - 52) (-1074) = k - 1075 := by omega
    have hshift : ((k : ℤ) - 1075 + 1074).toNat = k - 1 := by omega
    rw [nearestTo, if_neg (by positivity)]
    simp only [hlog, hq, hshift]
    rw [mul_div_cancel_right₀ _ (by positivity), roundToEven_natCast, hsum]
    exact min_eq_left hb.le

end Magnitude

namespace Decimal

/-! ## Decimals that are printed -/

theorem value_exact (b : Magnitude) : (exact b).value = b.value := by
  unfold exact value Magnitude.value
  split
  rename_i m q hsplit
  simp only [hsplit]
  split
  · rename_i hq
    obtain ⟨n, rfl⟩ := Int.eq_ofNat_of_zero_le hq
    rw [Int.toNat_natCast, Nat.shiftLeft_eq, zpow_natCast]
    simp
  · rename_i hq
    obtain ⟨n, hn⟩ := Int.eq_ofNat_of_zero_le (by omega : 0 ≤ -q)
    rw [hn, Int.toNat_natCast, show q = -(n : ℤ) by omega, zpow_neg, zpow_neg, zpow_natCast,
      zpow_natCast, Nat.pow_eq]
    push_cast
    rw [show (10 : ℚ) = 5 * 2 by norm_num, mul_pow]
    field_simp

/-- The decimal that is printed for a finite magnitude reads back as that magnitude. -/
theorem magnitude_shortest (tie : Tie) {b : Magnitude} (hb : b < Magnitude.infinity) :
    (shortest tie b).magnitude = b := by
  unfold shortest
  simp only
  cases hhit : (List.range 17).findSome? _ with
  | none => rw [Option.getD_none, magnitude_eq, value_exact, Magnitude.nearestTo_value hb]
  | some d =>
    obtain ⟨more, -, hfind⟩ := List.exists_of_findSome?_eq_some hhit
    simpa using List.find?_some hfind

end Decimal
end Workflow
