import Mathlib
import Workflow.Decimal.Nearest

/-!
# Floating-point numbers as a sign and a magnitude

A finite floating-point number is taken apart by `Magnitude.ofFloat` and put together again by
`Magnitude.toFloat` and, where it has a sign, by negation.  The sign of zero is kept.

* `Magnitude.exists_components` is the sign, the exponent and the mantissa of a number.
* `Magnitude.isFinite_iff` says which numbers are finite, `Magnitude.isFinite_neg` that their
  opposites are, and `Magnitude.toNat_toBits_lt_signBit` which of them have no sign.
* `Magnitude.toFloat_ofFloat` and `Magnitude.neg_toFloat_ofFloat` give the number back.
-/

namespace Workflow.Magnitude

open Float.Model
open Float.Model.UnpackedFloat hiding pack unpack

/-- A bit pattern as a number. -/
theorem toNat_packComponents (s : Sign) (e : BitVec 11) (m : BitVec 52) :
    (packComponents .binary64 s e m).toNat =
      s.toBitVec.toNat * signBit + (e.toNat * implicitOne + m.toNat) := by
  change (s.toBitVec ++ e ++ m).toNat = _
  rw [BitVec.toNat_append, BitVec.toNat_append, ← Nat.shiftLeft_add_eq_or_of_lt m.isLt,
    ← Nat.shiftLeft_add_eq_or_of_lt e.isLt, Nat.shiftLeft_eq, Nat.shiftLeft_eq]
  simp only [signBit, implicitOne]
  omega

/-- Turning the sign around is what negation does. -/
theorem unpack_packComponents_neg (s : Sign) (e : BitVec 11) (m : BitVec 52) :
    UnpackedFloat.unpack .binary64 (packComponents .binary64 (-s) e m) =
      (UnpackedFloat.unpack .binary64 (packComponents .binary64 s e m)).neg := by
  simp only [UnpackedFloat.unpack, unpackMantissa_packComponents, unpackExponent_packComponents,
    unpackSign_packComponents, Sign.ofBitVec_toBitVec]
  split_ifs <;> rfl

/-- The sign, the exponent and the mantissa of a bit pattern. -/
theorem exists_components (w : BitVec Format.binary64.numBits) :
    ∃ (s : Sign) (e : BitVec 11) (m : BitVec 52), w = packComponents .binary64 s e m :=
  ⟨_, _, _, (packComponents_unpackSign_unpackExponent_unpackMantissa w).symm⟩

/-- A pattern stands for a finite number unless its exponent is the greatest. -/
theorem isFinite_unpack_iff (s : Sign) (e : BitVec 11) (m : BitVec 52) :
    (UnpackedFloat.unpack .binary64 (packComponents .binary64 s e m)).isFinite = true ↔
      e.toNat ≠ 2047 := by
  have hones : e = -1#11 ↔ e.toNat = 2047 := ⟨fun h => h ▸ rfl, fun h => BitVec.eq_of_toNat_eq h⟩
  simp only [UnpackedFloat.unpack, unpackMantissa_packComponents, unpackExponent_packComponents,
    ne_eq, ← hones]
  split_ifs with h <;>
    simp only [UnpackedFloat.isFinite, h, not_true_eq_false, not_false_eq_true, Bool.false_eq_true]

/-- The magnitude is what stands below the sign. -/
theorem ofFloat_eq_of_toBits {x : Float} {s : Sign} {e : BitVec 11} {m : BitVec 52}
    (h : x.toBits.toBitVec = packComponents .binary64 s e m) :
    ofFloat x = e.toNat * implicitOne + m.toNat := by
  have he := e.isLt
  have hm := m.isLt
  change x.toBits.toBitVec.toNat % signBit = _
  rw [h, toNat_packComponents]
  simp only [signBit, implicitOne]
  omega

/-- The sign of a number is its first bit. -/
theorem signBit_le_toNat_toBits_iff {x : Float} {s : Sign} {e : BitVec 11} {m : BitVec 52}
    (h : x.toBits.toBitVec = packComponents .binary64 s e m) :
    signBit ≤ x.toBits.toNat ↔ s = .negative := by
  have he := e.isLt
  have hm := m.isLt
  change signBit ≤ x.toBits.toBitVec.toNat ↔ _
  rw [h, toNat_packComponents]
  cases s
  · simp [Sign.toBitVec, signBit]
  · simp only [Sign.toBitVec, signBit, implicitOne, BitVec.toNat_ofNat, reduceCtorEq, iff_false]
    omega

/-- A finite number has no sign if it is neither negative nor the zero with a sign. -/
theorem toNat_toBits_lt_signBit {x : Float} (hfinite : x.isFinite = true) (hx : 0 ≤ x)
    (hzero : x ≠ -0.0) : x.toBits.toNat < signBit := by
  obtain ⟨s, e, m, hbits⟩ := exists_components x.toBits.toBitVec
  by_contra hsign
  obtain rfl := (signBit_le_toNat_toBits_iff hbits).1 (not_lt.1 hsign)
  have hunpack : x.toModel.unpack =
      UnpackedFloat.unpack .binary64 (packComponents .binary64 .negative e m) :=
    congrArg (UnpackedFloat.unpack .binary64) hbits
  have hnull : (0 : Float).toModel.unpack = .zero .positive := rfl
  have hle : (0 : Float).toModel.unpack.le x.toModel.unpack = true := of_decide_eq_true hx
  change x.toModel.unpack.isFinite = true at hfinite
  rw [hunpack] at hfinite hle
  rw [hnull] at hle
  simp only [UnpackedFloat.unpack, unpackMantissa_packComponents, unpackExponent_packComponents,
    unpackSign_packComponents, Sign.ofBitVec_toBitVec] at hfinite hle
  split_ifs at hfinite hle with hones hmantissa hexponent hmantissa
  · cases hfinite
  · cases hfinite
  · refine hzero (Float.toBits_inj.1 (UInt64.toBitVec_inj.1 ?_))
    rw [hbits, hexponent, hmantissa]
    decide +kernel
  · cases hle
  · cases hle

theorem isFinite_iff (x : Float) : x.isFinite = true ↔ ofFloat x < infinity := by
  obtain ⟨s, e, m, hbits⟩ := exists_components x.toBits.toBitVec
  have he := e.isLt
  have hm := m.isLt
  have hfinite : x.isFinite = true ↔ e.toNat ≠ 2047 := by
    rw [← isFinite_unpack_iff s e m, ← hbits]
    rfl
  have hlt : ofFloat x < infinity ↔ e.toNat * implicitOne + m.toNat < 2047 * implicitOne := by
    rw [ofFloat_eq_of_toBits hbits]
    exact Iff.rfl
  rw [hfinite, hlt]
  simp only [implicitOne]
  omega

/-- A number without a sign is made of its magnitude. -/
theorem toFloat_ofFloat {x : Float} (hx : x.toBits.toNat < signBit) :
    toFloat false (ofFloat x) = x := by
  rw [toFloat, ofFloat, Nat.mod_eq_of_lt hx, if_neg Bool.false_ne_true, UInt64.ofNat_toNat,
    Float.ofBits_toBits]

/-- Up to infinity, magnitudes are bit patterns of numbers. -/
theorem valid_ofNat {b : Magnitude} (hb : b ≤ infinity) :
    Format.binary64.Valid (UInt64.ofNat b).toBitVec := by
  obtain ⟨s, e, m, hbits⟩ := exists_components (UInt64.ofNat b).toBitVec
  have hnat := (congrArg BitVec.toNat hbits).trans (toNat_packComponents s e m)
  have hle := Nat.le_trans hb (Nat.le_refl (2047 * implicitOne))
  refine ⟨fun hones hne => (hne ?_).elim⟩
  rw [hbits, unpackExponent_packComponents] at hones
  rw [hbits, unpackMantissa_packComponents]
  have he : e.toNat = 2047 := hones ▸ rfl
  apply BitVec.eq_of_toNat_eq
  rw [UInt64.toNat_toBitVec, UInt64.toNat_ofNat', he] at hnat
  simp only [implicitOne] at hnat hle
  change m.toNat = 0
  omega

/-- Up to infinity, what is made of a magnitude has this magnitude and no sign. -/
theorem toNat_toBits_toFloat {b : Magnitude} (hb : b ≤ infinity) :
    (toFloat false b).toBits.toNat = b := by
  have hbits : (toFloat false b).toBits = UInt64.ofNat b :=
    UInt64.toBitVec_inj.1 (pack_unpack_of_valid (valid_ofNat hb))
  have hle := Nat.le_trans hb (Nat.le_refl (2047 * implicitOne))
  rw [hbits, UInt64.toNat_ofNat']
  apply Nat.mod_eq_of_lt
  simp only [implicitOne] at hle
  omega

/-- A finite number with a sign is the opposite of the number that is made of its magnitude. -/
theorem neg_toFloat_ofFloat {x : Float} (hx : x.isFinite = true) (hsign : signBit ≤ x.toBits.toNat) :
    -toFloat false (ofFloat x) = x := by
  obtain ⟨s, e, m, hbits⟩ := exists_components x.toBits.toBitVec
  have he := e.isLt
  have hm := m.isLt
  have hs : s = -.positive := (signBit_le_toNat_toBits_iff hbits).1 hsign
  have hpositive : (UInt64.ofNat (ofFloat x)).toBitVec = packComponents .binary64 .positive e m := by
    apply BitVec.eq_of_toNat_eq
    rw [toNat_packComponents, ofFloat_eq_of_toBits hbits, UInt64.toNat_toBitVec,
      UInt64.toNat_ofNat']
    simp only [Sign.toBitVec, signBit, implicitOne, BitVec.toNat_ofNat]
    omega
  apply Float.toBits_inj.1
  apply UInt64.toBitVec_inj.1
  change UnpackedFloat.pack .binary64 (UnpackedFloat.unpack .binary64 (UnpackedFloat.pack .binary64
    (UnpackedFloat.unpack .binary64 (UInt64.ofNat (ofFloat x)).toBitVec))).neg = _
  rw [pack_unpack_of_valid (valid_ofNat ((isFinite_iff x).1 hx).le), hpositive,
    ← unpack_packComponents_neg, ← hs, ← hbits]
  exact pack_unpack_of_valid x.toModel.valid

/-- The opposite of a finite number is finite. -/
theorem isFinite_neg {x : Float} (hx : x.isFinite = true) : (-x).isFinite = true := by
  obtain ⟨s, e, m, hbits⟩ := exists_components x.toBits.toBitVec
  have he : e.toNat ≠ 2047 := by
    rw [← isFinite_unpack_iff s e m, ← hbits]
    exact hx
  have hvalid : Format.binary64.Valid (packComponents .binary64 (-s) e m) := by
    refine ⟨fun hones => (he ?_).elim⟩
    rw [unpackExponent_packComponents] at hones
    exact hones ▸ rfl
  have hneg : (-x).toBits.toBitVec = packComponents .binary64 (-s) e m := by
    change UnpackedFloat.pack .binary64
      (UnpackedFloat.unpack .binary64 x.toBits.toBitVec).neg = _
    rw [hbits, ← unpack_packComponents_neg]
    exact pack_unpack_of_valid hvalid
  rw [isFinite_iff, ofFloat_eq_of_toBits hneg, ← ofFloat_eq_of_toBits hbits, ← isFinite_iff]
  exact hx
/-- A finite number is its magnitude with its sign. -/
theorem eq_toFloat_ofFloat {x : Float} (hx : x.isFinite = true) :
    x = if x.toBits ≥ 0x8000000000000000 then -toFloat false (ofFloat x)
      else toFloat false (ofFloat x) := by
  have hsign : x.toBits ≥ 0x8000000000000000 ↔ signBit ≤ x.toBits.toNat := UInt64.le_iff_toNat_le
  split
  · rename_i h
    exact (neg_toFloat_ofFloat hx (hsign.1 h)).symm
  · rename_i h
    exact (toFloat_ofFloat (not_le.1 (mt hsign.2 h))).symm

end Workflow.Magnitude
