import Workflow.Proofs.Evaluation

/-!
# Comparing values

Eight operators compare values of any types, some by coercing them.  Read as relations they fit
together: each has a converse or a negation among the others, and what could go wrong with the
coercions does not.

* `BinaryOp.Holds` is when a comparison comes to true.
* `Value.exists_compares_iff` says which values compare at all, and `Value.Compares.unique` that
  they compare in one way.
* `Value.LooselyEqual.symm` says that coercion does not care for the order of the operands.
* `Value.looseEqWithin` is equality with coercion, cut off after some calls, and
  `Value.looseEqWithin_eq` says after how many it has come to its answer.
* `comparisons_cohere` are the laws.
-/

namespace Workflow

/-! ## Comparing numbers -/

section Numbers

open Float.Model (UnpackedFloat)

/-- Only NaN compares with nothing. -/
theorem compare_eq_none_iff (a b : UnpackedFloat) :
    a.compare b = none ↔ a.isNaN = true ∨ b.isNaN = true := by
  rcases a with (_ | _) | _ | (_ | _) | ⟨_ | _, m, e, _⟩ <;>
    rcases b with (_ | _) | _ | (_ | _) | ⟨_ | _, n, f, _⟩ <;>
    simp [UnpackedFloat.compare, UnpackedFloat.isNaN]

end Numbers

namespace Value

variable {a b : Value}

/-! ## One way or none -/

/-- Two values compare in one way only. -/
theorem Compares.unique {o o' : Ordering} (h : a.Compares b o) (h' : a.Compares b o') : o = o' :=
  Option.some_inj.1 ((compare?_eq_some_iff.2 h).symm.trans (compare?_eq_some_iff.2 h'))

/-- Two strings compare, and so do all values that count as numbers other than NaN. -/
theorem exists_compares_iff : (∃ o, a.Compares b o) ↔
    a.IsString ∧ b.IsString ∨ a.toNumber.isNaN = Bool.false ∧ b.toNumber.isNaN = Bool.false := by
  simp only [← compare?_eq_some_iff, ← Option.isSome_iff_exists]
  by_cases hab : a.IsString ∧ b.IsString
  · obtain ⟨⟨s, rfl⟩, t, rfl⟩ := hab
    exact iff_of_true rfl (.inl ⟨⟨s, rfl⟩, t, rfl⟩)
  · have hnone := compare_eq_none_iff a.toNumber.toModel.unpack b.toNumber.toModel.unpack
    rw [or_iff_right hab, compare?_of_not_strings hab, compareNumbers?_eq,
      ← Option.ne_none_iff_isSome, Ne, hnone, not_or, Bool.not_eq_true, Bool.not_eq_true]
    rfl

/-! ## Equality -/

theorem StrictlyEqual.symm (h : a.StrictlyEqual b) : b.StrictlyEqual a := by
  cases h with
  | number h => exact .number (by rwa [float_beq_comm])
  | bool p => exact .bool p
  | string s => exact .string s
  | null => exact .null

/-- Equality with coercion does not care for the order of its operands: what is coerced on the one
side is coerced on the other. -/
theorem LooselyEqual.symm (h : a.LooselyEqual b) : b.LooselyEqual a := by
  induction h with
  | strictly h => exact .strictly h.symm
  | boolLeft hx _ ih => exact .boolRight hx ih
  | boolRight hy _ ih => exact .boolLeft hy ih
  | numberString hy h => exact .stringNumber hy (by rwa [float_beq_comm])
  | stringNumber hx h => exact .numberString hx (by rwa [float_beq_comm])

/-- Equality with coercion, cut off after `n` calls: what has not come to an answer by then has
none. -/
def looseEqWithin : Nat → Value → Value → Option Bool
  | 0, _, _ => none
  | _ + 1, .null, .null => some true
  | _ + 1, .null, _ => some false
  | _ + 1, _, .null => some false
  | n + 1, .bool p, b => looseEqWithin n (.number (toNumber (.bool p))) b
  | n + 1, a, .bool q => looseEqWithin n a (.number (toNumber (.bool q)))
  | _ + 1, .number x, .string s => some (x == toNumber (.string s))
  | _ + 1, .string s, .number y => some (toNumber (.string s) == y)
  | _ + 1, a, b => some (strictEq a b)

/-- A call for each boolean and one more are enough. -/
theorem looseEqWithin_eq {n : Nat} (h : a.boolCount + b.boolCount < n) :
    looseEqWithin n a b = some (a.looseEq b) := by
  fun_induction looseEqWithin n a b with
  | case1 => omega
  | case5 n p b hb ih =>
      rw [looseEq_bool_left]
      exact ih (by simp only [boolCount] at h ⊢; omega)
  | case6 n a q ha hbool ih =>
      rw [looseEq_bool_right]
      exact ih (by simp only [boolCount] at h ⊢; omega)
  | _ => simp [looseEq, *]

theorem boolCount_le_one (v : Value) : v.boolCount ≤ 1 := by
  cases v <;> simp [boolCount]

end Value

/-! ## The laws -/

namespace BinaryOp

/-- Whether a comparison of two values comes to true. -/
def Holds (op : BinaryOp) (a b : Value) : Prop :=
  (Expr.binary op (.literal a) (.literal b)).value = .bool true

theorem holds_iff_of_orderings? (op : BinaryOp) {orderings : List Ordering}
    (h : op.orderings? = some orderings) (a b : Value) :
    op.Holds a b ↔ ∃ o ∈ orderings, a.Compares b o := by
  obtain ⟨result, happly, hresult⟩ := apply_of_orderings? h a b
  rw [Holds, value_binary_of_ne (by rintro rfl; cases h) (by rintro rfl; cases h), ← hresult]
  simp [Expr.value, happly]

theorem holds_iff_of_equality? (op : BinaryOp) {equal : Value → Value → Prop} {whenEqual : Bool}
    (h : op.equality? = some (equal, whenEqual)) (a b : Value) :
    op.Holds a b ↔ (equal a b ↔ whenEqual = true) := by
  obtain ⟨result, happly, hresult⟩ := apply_of_equality? h a b
  rw [Holds, value_binary_of_ne (by rintro rfl; cases h) (by rintro rfl; cases h), ← hresult]
  cases result <;> cases whenEqual <;> simp [Expr.value, happly]

/-- The operators that compare are those of two levels, and they come to true or to false. -/
theorem exists_value_eq_bool {op : BinaryOp} (h : op.level = 3 ∨ op.level = 4) (a b : Value) :
    ∃ result, (Expr.binary op (.literal a) (.literal b)).value = .bool result := by
  cases op <;> simp [level] at h <;> exact ⟨_, rfl⟩

variable {a b : Value}

theorem holds_less_iff : less.Holds a b ↔ a.Compares b .lt := by
  simp [holds_iff_of_orderings? .less rfl]

theorem holds_greater_iff : greater.Holds a b ↔ a.Compares b .gt := by
  simp [holds_iff_of_orderings? .greater rfl]

theorem holds_lessEqual_iff : lessEqual.Holds a b ↔ a.Compares b .lt ∨ a.Compares b .eq := by
  simp [holds_iff_of_orderings? .lessEqual rfl]

theorem holds_greaterEqual_iff : greaterEqual.Holds a b ↔ a.Compares b .gt ∨ a.Compares b .eq := by
  simp [holds_iff_of_orderings? .greaterEqual rfl]

theorem holds_equal_iff : equal.Holds a b ↔ a.LooselyEqual b := by
  simp [holds_iff_of_equality? .equal rfl]

theorem holds_strictEqual_iff : strictEqual.Holds a b ↔ a.StrictlyEqual b := by
  simp [holds_iff_of_equality? .strictEqual rfl]

theorem holds_notEqual_iff : notEqual.Holds a b ↔ ¬equal.Holds a b := by
  simp [holds_iff_of_equality? .notEqual rfl, holds_equal_iff]

theorem holds_strictNotEqual_iff : strictNotEqual.Holds a b ↔ ¬strictEqual.Holds a b := by
  simp [holds_iff_of_equality? .strictNotEqual rfl, holds_strictEqual_iff]

theorem holds_equal_comm : equal.Holds a b ↔ equal.Holds b a := by
  rw [holds_equal_iff, holds_equal_iff]
  exact ⟨.symm, .symm⟩

theorem holds_strictEqual_comm : strictEqual.Holds a b ↔ strictEqual.Holds b a := by
  rw [holds_strictEqual_iff, holds_strictEqual_iff]
  exact ⟨.symm, .symm⟩

theorem holds_less_iff_greater : less.Holds a b ↔ greater.Holds b a := by
  rw [holds_less_iff, holds_greater_iff]
  exact (a.compares_swap_iff b .lt).symm

theorem holds_lessEqual_iff_greaterEqual : lessEqual.Holds a b ↔ greaterEqual.Holds b a := by
  rw [holds_lessEqual_iff, holds_greaterEqual_iff]
  exact or_congr (a.compares_swap_iff b .lt).symm (a.compares_swap_iff b .eq).symm

/-- What is less compares in this way and in no other. -/
theorem not_greater_of_less (h : less.Holds a b) :
    ¬greater.Holds a b ∧ ¬greaterEqual.Holds a b ∧ lessEqual.Holds a b := by
  rw [holds_less_iff] at h
  rw [holds_greater_iff, holds_greaterEqual_iff, holds_lessEqual_iff]
  refine ⟨fun hgt => ?_, ?_, .inl h⟩
  · exact absurd (h.unique hgt) (by decide)
  · rintro (hgt | heq)
    · exact absurd (h.unique hgt) (by decide)
    · exact absurd (h.unique heq) (by decide)

/-- Of values that compare, the one is less than the other or not less. -/
theorem less_or_greaterEqual (h : ∃ o, a.Compares b o) :
    less.Holds a b ∨ greaterEqual.Holds a b := by
  rw [holds_less_iff, holds_greaterEqual_iff]
  obtain ⟨_ | _ | _, h⟩ := h
  · exact .inl h
  · exact .inr (.inr h)
  · exact .inr (.inl h)

/-- Of values that do not compare no order holds. -/
theorem not_holds_of_not_compares (h : ¬∃ o, a.Compares b o) :
    ∀ op ∈ [less, greater, lessEqual, greaterEqual], ¬op.Holds a b := by
  have hsome : ∀ op ∈ [less, greater, lessEqual, greaterEqual], op.orderings?.isSome := by decide
  intro op hop hholds
  obtain ⟨orderings, horderings⟩ := Option.isSome_iff_exists.1 (hsome op hop)
  obtain ⟨o, -, ho⟩ := (op.holds_iff_of_orderings? horderings a b).1 hholds
  exact h ⟨o, ho⟩

end BinaryOp

open BinaryOp

/-- **Comparisons cohere.**  The two equalities are symmetric, the strict one implies the loose one,
and their negations are just that.  Each order is the converse of another one; less excludes greater
and not less, and implies not greater.  Of two strings, and of two values that do not count as NaN,
the one is less than the other or not less; of all others no order holds.  Each comparison comes to
true or to false; and where booleans have to give way to numbers before two values are equal or not,
there is an answer after three calls. -/
theorem comparisons_cohere (a b : Value) :
    ((equal.Holds a b ↔ equal.Holds b a) ∧ (strictEqual.Holds a b ↔ strictEqual.Holds b a) ∧
      (strictEqual.Holds a b → equal.Holds a b) ∧ (notEqual.Holds a b ↔ ¬equal.Holds a b) ∧
      (strictNotEqual.Holds a b ↔ ¬strictEqual.Holds a b)) ∧
    ((less.Holds a b ↔ greater.Holds b a) ∧ (lessEqual.Holds a b ↔ greaterEqual.Holds b a) ∧
      (less.Holds a b → ¬greater.Holds a b ∧ ¬greaterEqual.Holds a b ∧ lessEqual.Holds a b)) ∧
    ((a.IsString ∧ b.IsString ∨ a.toNumber.isNaN = false ∧ b.toNumber.isNaN = false →
        (less.Holds a b ∨ greaterEqual.Holds a b) ∧
          ¬(less.Holds a b ∧ greaterEqual.Holds a b)) ∧
      (¬(a.IsString ∧ b.IsString ∨ a.toNumber.isNaN = false ∧ b.toNumber.isNaN = false) →
        ∀ op ∈ [less, greater, lessEqual, greaterEqual], ¬op.Holds a b)) ∧
    (∀ op : BinaryOp, op.level = 3 ∨ op.level = 4 →
      ∃ result, (Expr.binary op (.literal a) (.literal b)).value = .bool result) ∧
    Value.looseEqWithin 3 a b = some (a.looseEq b) := by
  rw [← Value.exists_compares_iff]
  refine ⟨⟨holds_equal_comm, holds_strictEqual_comm, ?_, holds_notEqual_iff,
      holds_strictNotEqual_iff⟩,
    ⟨holds_less_iff_greater, holds_lessEqual_iff_greaterEqual, not_greater_of_less⟩,
    ⟨fun h => ⟨less_or_greaterEqual h, ?_⟩, not_holds_of_not_compares⟩,
    fun op hop => exists_value_eq_bool hop a b, Value.looseEqWithin_eq ?_⟩
  · rw [holds_strictEqual_iff, holds_equal_iff]
    exact .strictly
  · rintro ⟨hless, hge⟩
    exact (not_greater_of_less hless).2.1 hge
  · have ha := a.boolCount_le_one
    have hb := b.boolCount_le_one
    omega

/-- A boolean beside a string that counts as a number, and beside one that does not. -/
theorem comparisons_cohere_bool_string :
    let yes : Value := .bool true
    less.Holds yes (.string " 2 ") ∧ ¬greaterEqual.Holds yes (.string " 2 ") ∧
      greater.Holds (.string " 2 ") yes ∧
      ∀ op ∈ [less, greater, lessEqual, greaterEqual], ¬op.Holds yes (.string "two") := by
  intro yes
  have hless : less.Holds yes (.string " 2 ") := by
    rw [Holds]
    decide +kernel
  have hword : (Value.string "two").toNumber.isNaN = true := by decide +kernel
  obtain ⟨-, ⟨hconverse, -, hexcludes⟩, -⟩ := comparisons_cohere yes (.string " 2 ")
  refine ⟨hless, (hexcludes hless).2.1, hconverse.1 hless,
    (comparisons_cohere yes (.string "two")).2.2.1.2 ?_⟩
  rintro (⟨⟨s, hs⟩, -⟩ | ⟨-, hnumber⟩)
  · exact absurd hs (by simp [yes])
  · exact absurd (hword.symm.trans hnumber) (by decide)

end Workflow
