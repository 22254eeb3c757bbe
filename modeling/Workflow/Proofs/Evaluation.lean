import Mathlib
import Workflow.Proofs.Notifications

/-!
# What a condition comes to

Evaluation as a relation: one rule for each way in which an expression comes to a value, with the
coercions as relations of their own.  A condition is false exactly when nothing went wrong and the
rules give it a value that counts as false.

* `Value.Falsy`, `Value.CountsAs`, `Value.Compares`, `Value.StrictlyEqual` and
  `Value.LooselyEqual` are what the operators ask of their operands.
* `Evaluates` are the rules, and `evaluates_iff` says that they give every expression its value.
* `evaluateCondition_fails_open` says what becomes of a condition, and what a step does with it.
-/

namespace Workflow

/-! ## Comparing numbers -/

open Float.Model (UnpackedFloat) in
/-- Comparing the other way round gives the opposite. -/
theorem compare_swap (a b : UnpackedFloat) : b.compare a = (a.compare b).map Ordering.swap := by
  rcases a with (_ | _) | _ | (_ | _) | ⟨_ | _, m, e, _⟩ <;>
    rcases b with (_ | _) | _ | (_ | _) | ⟨_ | _, n, f, _⟩ <;> try rfl
  all_goals
    have hexponent : compare f e = (compare e f).swap := Std.OrientedCmp.eq_swap
    have hmantissa : compare n m = (compare m n).swap := Std.OrientedCmp.eq_swap
    simp [UnpackedFloat.compare, Ordering.swap_then, hexponent, hmantissa]

theorem float_lt_iff (x y : Float) :
    x < y ↔ x.toModel.unpack.compare y.toModel.unpack = some .lt := by
  change decide ((x.toModel.unpack.compare y.toModel.unpack == some .lt) = true) = true ↔ _
  simp

theorem float_beq_iff (x y : Float) :
    (x == y) = true ↔ x.toModel.unpack.compare y.toModel.unpack = some .eq := by
  change (x.toModel.unpack.compare y.toModel.unpack == some .eq) = true ↔ _
  simp

theorem float_beq_comm (x y : Float) : (x == y) = (y == x) := by
  rw [Bool.eq_iff_iff, float_beq_iff, float_beq_iff, compare_swap x.toModel.unpack]
  rcases x.toModel.unpack.compare y.toModel.unpack with _ | (_ | _ | _) <;> decide

/-! ## Coercions -/

namespace Value

/-- The values that count as false. -/
inductive Falsy : Value → Prop
  | zero {x : Float} : (x == 0) = true → Falsy (.number x)
  | nan {x : Float} : x.isNaN = true → Falsy (.number x)
  | false : Falsy (.bool false)
  | emptyString : Falsy (.string "")
  | null : Falsy .null

/-- The number that a value counts as. -/
inductive CountsAs : Value → Float → Prop
  | number (x : Float) : CountsAs (.number x) x
  | true : CountsAs (.bool true) 1
  | false : CountsAs (.bool false) 0
  | null : CountsAs .null 0
  | blank {s : String} : (∀ c ∈ s.toList, Text.isBlank c = Bool.true) → CountsAs (.string s) 0
  | numeral {s : String} {x : Float} :
      numberOfText? (Text.trim s.toList) = some x → CountsAs (.string s) x
  /-- A text that is neither blank nor a number. -/
  | other {s : String} : ¬(∀ c ∈ s.toList, Text.isBlank c = Bool.true) →
      numberOfText? (Text.trim s.toList) = none → CountsAs (.string s) Value.nan

/-- Whether a value is a string. -/
def IsString (v : Value) : Prop := ∃ s, v = .string s

/-- How two values compare: strings by their characters, all else by number.  Beside NaN nothing
compares. -/
inductive Compares : Value → Value → Ordering → Prop
  | stringLess {s t : String} : s < t → Compares (.string s) (.string t) .lt
  | stringEqual (s : String) : Compares (.string s) (.string s) .eq
  | stringGreater {s t : String} : t < s → Compares (.string s) (.string t) .gt
  | less {a b : Value} {x y : Float} : ¬(a.IsString ∧ b.IsString) → a.CountsAs x → b.CountsAs y →
      x < y → Compares a b .lt
  | equal {a b : Value} {x y : Float} : ¬(a.IsString ∧ b.IsString) → a.CountsAs x →
      b.CountsAs y → (x == y) = true → Compares a b .eq
  | greater {a b : Value} {x y : Float} : ¬(a.IsString ∧ b.IsString) → a.CountsAs x →
      b.CountsAs y → y < x → Compares a b .gt

/-- Equality without coercion. -/
inductive StrictlyEqual : Value → Value → Prop
  | number {x y : Float} : (x == y) = true → StrictlyEqual (.number x) (.number y)
  | bool (b : Bool) : StrictlyEqual (.bool b) (.bool b)
  | string (s : String) : StrictlyEqual (.string s) (.string s)
  | null : StrictlyEqual .null .null

/-- Equality with coercion: a boolean is taken for the number it counts as, and so is a string
beside a number. -/
inductive LooselyEqual : Value → Value → Prop
  | strictly {a b : Value} : a.StrictlyEqual b → LooselyEqual a b
  | boolLeft {p : Bool} {x : Float} {b : Value} :
      (Value.bool p).CountsAs x → LooselyEqual (.number x) b → LooselyEqual (.bool p) b
  | boolRight {p : Bool} {y : Float} {a : Value} :
      (Value.bool p).CountsAs y → LooselyEqual a (.number y) → LooselyEqual a (.bool p)
  | numberString {x y : Float} {s : String} :
      (Value.string s).CountsAs y → (x == y) = true → LooselyEqual (.number x) (.string s)
  | stringNumber {x y : Float} {s : String} :
      (Value.string s).CountsAs x → (x == y) = true → LooselyEqual (.string s) (.number y)

theorem falsy_iff {v : Value} : v.Falsy ↔ v.isTruthy = Bool.false := by
  constructor
  · intro h
    cases h with
    | zero h => simp [isTruthy, bne, h]
    | nan h => rw [isTruthy, h, Bool.not_true, Bool.and_false]
    | _ => rfl
  · intro h
    cases v with
    | number x =>
        simp only [isTruthy, bne, Bool.and_eq_false_iff, Bool.not_eq_false'] at h
        exact h.elim .zero .nan
    | bool b =>
        obtain rfl : b = Bool.false := h
        exact .false
    | string s =>
        obtain rfl : s = "" := by simpa [isTruthy] using h
        exact .emptyString
    | null => exact .null

theorem countsAs_iff {v : Value} {x : Float} : v.CountsAs x ↔ v.toNumber = x := by
  constructor
  · intro h
    cases h with
    | blank h => simp [toNumber, (Text.trim_eq_nil_iff _).2 h]
    | @numeral s _ h =>
        rw [toNumber]
        split
        · rename_i hnil
          rw [hnil] at h
          cases h
        · rw [h, Option.getD_some]
    | @other s h hnone =>
        rw [toNumber]
        split
        · rename_i hnil
          exact absurd ((Text.trim_eq_nil_iff _).1 hnil) h
        · rw [hnone, Option.getD_none]
    | _ => rfl
  · rintro rfl
    cases v with
    | number x => exact .number x
    | bool b => cases b <;> constructor
    | null => exact .null
    | string s =>
        rw [toNumber]
        split
        · rename_i hnil
          exact .blank ((Text.trim_eq_nil_iff _).1 hnil)
        · rename_i hne
          cases h : numberOfText? (Text.trim s.toList) with
          | some x => exact .numeral h
          | none =>
              exact .other (fun hblank => hne ((Text.trim_eq_nil_iff _).2 hblank)) h

theorem compares_string_iff {s t : String} {o : Ordering} :
    Compares (.string s) (.string t) o ↔
      (o = .lt ∧ s < t) ∨ (o = .eq ∧ s = t) ∨ (o = .gt ∧ t < s) := by
  constructor
  · intro h
    cases h with
    | stringLess h => exact .inl ⟨rfl, h⟩
    | stringEqual => exact .inr (.inl ⟨rfl, rfl⟩)
    | stringGreater h => exact .inr (.inr ⟨rfl, h⟩)
    | less h | equal h | greater h => exact absurd ⟨⟨s, rfl⟩, t, rfl⟩ h
  · rintro (⟨rfl, h⟩ | ⟨rfl, rfl⟩ | ⟨rfl, h⟩)
    · exact .stringLess h
    · exact .stringEqual s
    · exact .stringGreater h

theorem compares_number_iff {a b : Value} {o : Ordering} (hab : ¬(a.IsString ∧ b.IsString)) :
    Compares a b o ↔
      (o = .lt ∧ a.toNumber < b.toNumber) ∨ (o = .eq ∧ (a.toNumber == b.toNumber) = Bool.true) ∨
        (o = .gt ∧ b.toNumber < a.toNumber) := by
  constructor
  · intro h
    cases h with
    | stringLess _ | stringEqual | stringGreater _ => exact absurd ⟨⟨_, rfl⟩, _, rfl⟩ hab
    | less _ ha hb h =>
        rw [countsAs_iff.1 ha, countsAs_iff.1 hb]
        exact .inl ⟨rfl, h⟩
    | equal _ ha hb h =>
        rw [countsAs_iff.1 ha, countsAs_iff.1 hb]
        exact .inr (.inl ⟨rfl, h⟩)
    | greater _ ha hb h =>
        rw [countsAs_iff.1 ha, countsAs_iff.1 hb]
        exact .inr (.inr ⟨rfl, h⟩)
  · have ha : a.CountsAs a.toNumber := countsAs_iff.2 rfl
    have hb : b.CountsAs b.toNumber := countsAs_iff.2 rfl
    rintro (⟨rfl, h⟩ | ⟨rfl, h⟩ | ⟨rfl, h⟩)
    · exact .less hab ha hb h
    · exact .equal hab ha hb h
    · exact .greater hab ha hb h

/-- Of less, equal and greater at most one holds of two numbers. -/
theorem compareNumbers?_eq (x y : Float) :
    compareNumbers? x y = x.toModel.unpack.compare y.toModel.unpack := by
  simp only [compareNumbers?, float_lt_iff, float_beq_iff, compare_swap x.toModel.unpack]
  rcases x.toModel.unpack.compare y.toModel.unpack with _ | (_ | _ | _) <;> decide

theorem compareNumbers?_eq_some_iff {x y : Float} {o : Ordering} :
    compareNumbers? x y = some o ↔
      (o = .lt ∧ x < y) ∨ (o = .eq ∧ (x == y) = Bool.true) ∨ (o = .gt ∧ y < x) := by
  rw [compareNumbers?_eq, float_lt_iff, float_lt_iff, float_beq_iff, compare_swap x.toModel.unpack]
  rcases x.toModel.unpack.compare y.toModel.unpack with _ | (_ | _ | _) <;> cases o <;> decide

/-- Values of which not both are strings compare by number. -/
theorem compare?_of_not_strings {a b : Value} (hab : ¬(a.IsString ∧ b.IsString)) :
    a.compare? b = compareNumbers? a.toNumber b.toNumber := by
  cases a with
  | string s =>
      cases b with
      | string t => exact absurd ⟨⟨s, rfl⟩, t, rfl⟩ hab
      | _ => rfl
  | _ => rfl

theorem compare?_eq_some_iff {a b : Value} {o : Ordering} :
    a.compare? b = some o ↔ a.Compares b o := by
  by_cases hab : a.IsString ∧ b.IsString
  · obtain ⟨⟨s, rfl⟩, t, rfl⟩ := hab
    rw [compares_string_iff, compare?, Option.some_inj]
    cases o <;> simp only [true_and, reduceCtorEq, false_and, or_false, false_or]
    · exact compare_lt_iff_lt
    · exact compare_eq_iff_eq
    · exact compare_gt_iff_gt
  · rw [compare?_of_not_strings hab, compareNumbers?_eq_some_iff, compares_number_iff hab]

/-- An order holds if the two values compare in a way that it allows. -/
theorem any_compare?_iff (a b : Value) (test : Ordering → Bool) :
    (a.compare? b).any test = Bool.true ↔ ∃ o, a.Compares b o ∧ test o = Bool.true := by
  rw [Option.any_eq_true]
  simp only [compare?_eq_some_iff]

/-- Comparing the other way round gives the opposite. -/
theorem compares_swap_iff (a b : Value) (o : Ordering) :
    b.Compares a o.swap ↔ a.Compares b o := by
  by_cases hab : a.IsString ∧ b.IsString
  · obtain ⟨⟨s, rfl⟩, t, rfl⟩ := hab
    cases o <;> simp only [Ordering.swap, compares_string_iff, true_and, reduceCtorEq, false_and,
      or_false, false_or]
    exact eq_comm
  · have hba : ¬(b.IsString ∧ a.IsString) := fun h => hab h.symm
    cases o <;> simp [compares_number_iff hab, compares_number_iff hba, float_beq_comm]

theorem strictEq_iff {a b : Value} : a.strictEq b = Bool.true ↔ a.StrictlyEqual b := by
  constructor
  · intro h
    cases a <;> cases b <;> simp only [strictEq, beq_iff_eq, Bool.false_eq_true] at h
    · exact .number h
    · exact h ▸ .bool _
    · exact h ▸ .string _
    · exact .null
  · intro h
    cases h <;> simp_all [strictEq]

theorem looseEq_bool_left (p : Bool) (b : Value) :
    looseEq (.bool p) b = looseEq (.number (Value.bool p).toNumber) b := by
  cases b <;> simp [looseEq]

theorem looseEq_bool_right (p : Bool) (a : Value) :
    looseEq a (.bool p) = looseEq a (.number (Value.bool p).toNumber) := by
  cases a <;> simp [looseEq]

theorem LooselyEqual.looseEq {a b : Value} (h : a.LooselyEqual b) :
    a.looseEq b = Bool.true := by
  induction h with
  | strictly h =>
      cases h with
      | number h => simpa [Value.looseEq, strictEq] using h
      | bool b => cases b <;> decide +kernel
      | string s => simp [Value.looseEq, strictEq]
      | null => rw [Value.looseEq]
  | boolLeft hx _ ih => rw [looseEq_bool_left, countsAs_iff.1 hx, ih]
  | boolRight hy _ ih => rw [looseEq_bool_right, countsAs_iff.1 hy, ih]
  | numberString hy h => rwa [Value.looseEq, countsAs_iff.1 hy]
  | stringNumber hx h => rwa [Value.looseEq, countsAs_iff.1 hx]

theorem looselyEqual_of_looseEq {a b : Value} (h : a.looseEq b = Bool.true) :
    a.LooselyEqual b := by
  fun_induction looseEq a b with
  | case1 => exact .strictly .null
  | case2 | case3 => cases h
  | case4 p b _ ih => exact .boolLeft (countsAs_iff.2 rfl) (ih h)
  | case5 a q _ _ ih => exact .boolRight (countsAs_iff.2 rfl) (ih h)
  | case6 x s => exact .numberString (countsAs_iff.2 rfl) h
  | case7 s y => exact .stringNumber (countsAs_iff.2 rfl) h
  | case8 => exact .strictly (strictEq_iff.1 h)

theorem looseEq_iff {a b : Value} : a.looseEq b = Bool.true ↔ a.LooselyEqual b :=
  ⟨looselyEqual_of_looseEq, LooselyEqual.looseEq⟩

end Value

/-! ## Evaluation -/

/-- The operators that compute with numbers alone. -/
def BinaryOp.arithmetic? : BinaryOp → Option (Float → Float → Float)
  | .subtract => some (· - ·)
  | .multiply => some (· * ·)
  | .divide => some (· / ·)
  | _ => none

/-- The ways of comparing for which a relation holds. -/
def BinaryOp.orderings? : BinaryOp → Option (List Ordering)
  | .less => some [.lt]
  | .greater => some [.gt]
  | .lessEqual => some [.lt, .eq]
  | .greaterEqual => some [.gt, .eq]
  | _ => none

/-- The two equalities and their negations: whether coercion is allowed, and what equal operands
give. -/
def BinaryOp.equality? : BinaryOp → Option ((Value → Value → Prop) × Bool)
  | .equal => some (Value.LooselyEqual, true)
  | .notEqual => some (Value.LooselyEqual, false)
  | .strictEqual => some (Value.StrictlyEqual, true)
  | .strictNotEqual => some (Value.StrictlyEqual, false)
  | _ => none

/-- The rules of evaluation. -/
inductive Evaluates : Expr → Value → Prop
  | literal (v : Value) : Evaluates (.literal v) v
  | notFalsy {e : Expr} {v : Value} :
      Evaluates e v → v.Falsy → Evaluates (.unary .not e) (.bool true)
  | notTruthy {e : Expr} {v : Value} :
      Evaluates e v → ¬v.Falsy → Evaluates (.unary .not e) (.bool false)
  | minus {e : Expr} {v : Value} {x : Float} :
      Evaluates e v → v.CountsAs x → Evaluates (.unary .minus e) (.number (-x))
  | plus {e : Expr} {v : Value} {x : Float} :
      Evaluates e v → v.CountsAs x → Evaluates (.unary .plus e) (.number x)
  | sequence {l r : Expr} {a b : Value} :
      Evaluates l a → Evaluates r b → Evaluates (.binary .sequence l r) b
  /-- What counts as false decides a conjunction. -/
  | andLeft {l r : Expr} {a : Value} :
      Evaluates l a → a.Falsy → Evaluates (.binary .and l r) a
  | andRight {l r : Expr} {a b : Value} :
      Evaluates l a → ¬a.Falsy → Evaluates r b → Evaluates (.binary .and l r) b
  /-- What does not count as false decides a disjunction. -/
  | orLeft {l r : Expr} {a : Value} :
      Evaluates l a → ¬a.Falsy → Evaluates (.binary .or l r) a
  | orRight {l r : Expr} {a b : Value} :
      Evaluates l a → a.Falsy → Evaluates r b → Evaluates (.binary .or l r) b
  | concatenate {l r : Expr} {a b : Value} :
      Evaluates l a → Evaluates r b → a.IsString ∨ b.IsString →
      Evaluates (.binary .add l r) (.string (String.ofList (a.display ++ b.display)))
  | add {l r : Expr} {a b : Value} {x y : Float} :
      Evaluates l a → Evaluates r b → ¬(a.IsString ∨ b.IsString) → a.CountsAs x → b.CountsAs y →
      Evaluates (.binary .add l r) (.number (x + y))
  | arithmetic {op : BinaryOp} {f : Float → Float → Float} {l r : Expr} {a b : Value}
      {x y : Float} :
      op.arithmetic? = some f → Evaluates l a → Evaluates r b → a.CountsAs x → b.CountsAs y →
      Evaluates (.binary op l r) (.number (f x y))
  | relation {op : BinaryOp} {orderings : List Ordering} {l r : Expr} {a b : Value}
      {result : Bool} :
      op.orderings? = some orderings → Evaluates l a → Evaluates r b →
      (result = true ↔ ∃ o ∈ orderings, a.Compares b o) → Evaluates (.binary op l r) (.bool result)
  | equality {op : BinaryOp} {equal : Value → Value → Prop} {whenEqual : Bool} {l r : Expr}
      {a b : Value} {result : Bool} :
      op.equality? = some (equal, whenEqual) → Evaluates l a → Evaluates r b →
      (result = whenEqual ↔ equal a b) → Evaluates (.binary op l r) (.bool result)

theorem apply_of_orderings? {op : BinaryOp} {orderings : List Ordering}
    (h : op.orderings? = some orderings) (a b : Value) :
    ∃ result, op.apply a b = .bool result ∧
      (result = true ↔ ∃ o ∈ orderings, a.Compares b o) := by
  have hallows : ∀ test : Ordering → Bool, (∀ o, test o = true ↔ o ∈ orderings) →
      ((a.compare? b).any test = true ↔ ∃ o ∈ orderings, a.Compares b o) := by
    intro test htest
    simp only [Value.any_compare?_iff, htest, and_comm]
  cases op <;> cases h <;> refine ⟨_, rfl, hallows _ ?_⟩ <;> decide

theorem apply_of_equality? {op : BinaryOp} {equal : Value → Value → Prop} {whenEqual : Bool}
    (h : op.equality? = some (equal, whenEqual)) (a b : Value) :
    ∃ result, op.apply a b = .bool result ∧ (result = whenEqual ↔ equal a b) := by
  cases op <;> cases h
  · exact ⟨a.looseEq b, rfl, Value.looseEq_iff⟩
  · exact ⟨!a.looseEq b, rfl, by simp [← Value.looseEq_iff]⟩
  · exact ⟨a.strictEq b, rfl, Value.strictEq_iff⟩
  · exact ⟨!a.strictEq b, rfl, by simp [← Value.strictEq_iff]⟩

theorem apply_of_arithmetic? {op : BinaryOp} {f : Float → Float → Float}
    (h : op.arithmetic? = some f) (a b : Value) :
    op.apply a b = .number (f a.toNumber b.toNumber) := by
  cases op <;> cases h <;> rfl

theorem apply_add_of_isString {a b : Value} (h : a.IsString ∨ b.IsString) :
    BinaryOp.add.apply a b = .string (String.ofList (a.display ++ b.display)) := by
  have htext : ∀ s, String.ofList (Value.string s).display = s := fun s => String.ofList_toList
  rw [String.ofList_append]
  rcases h with ⟨s, rfl⟩ | ⟨t, rfl⟩
  · rw [htext]
    rfl
  · rw [htext]
    cases a with
    | string s => rw [BinaryOp.apply, Value.add, htext, htext]
    | _ => rfl

theorem apply_add_of_not_isString {a b : Value} (h : ¬(a.IsString ∨ b.IsString)) :
    BinaryOp.add.apply a b = .number (a.toNumber + b.toNumber) := by
  cases a with
  | string s => exact absurd (.inl ⟨s, rfl⟩) h
  | _ =>
      cases b with
      | string t => exact absurd (.inr ⟨t, rfl⟩) h
      | _ => rfl

/-- Only a connective can be decided by its left operand. -/
theorem isDecidedBy_eq_false {op : BinaryOp} (hand : op ≠ .and) (hor : op ≠ .or) (a : Value) :
    op.isDecidedBy a = false := by
  cases op <;> first | rfl | contradiction

theorem value_binary_of_ne {op : BinaryOp} (hand : op ≠ .and) (hor : op ≠ .or) (l r : Expr) :
    (Expr.binary op l r).value = op.apply l.value r.value := by
  simp only [Expr.value, isDecidedBy_eq_false hand hor, Bool.false_eq_true, if_false]

/-- The rules give no value but the value of the expression. -/
theorem Evaluates.value_eq {e : Expr} {v : Value} (h : Evaluates e v) : e.value = v := by
  induction h with
  | literal v => rfl
  | notFalsy _ hv ih => simp [Expr.value, UnaryOp.apply, ih, Value.falsy_iff.1 hv]
  | notTruthy _ hv ih =>
      rw [Value.falsy_iff, Bool.not_eq_false] at hv
      simp [Expr.value, UnaryOp.apply, ih, hv]
  | minus _ hx ih | plus _ hx ih =>
      simp [Expr.value, UnaryOp.apply, ih, Value.countsAs_iff.1 hx]
  | sequence _ _ ihl ihr =>
      rw [value_binary_of_ne (by decide) (by decide), ihl, ihr]
      rfl
  | andLeft _ ha ih => simp [Expr.value, BinaryOp.isDecidedBy, ih, Value.falsy_iff.1 ha]
  | andRight _ ha _ ihl ihr =>
      rw [Value.falsy_iff, Bool.not_eq_false] at ha
      simp [Expr.value, BinaryOp.isDecidedBy, BinaryOp.apply, ihl, ihr, ha]
  | orLeft _ ha ih =>
      rw [Value.falsy_iff, Bool.not_eq_false] at ha
      simp [Expr.value, BinaryOp.isDecidedBy, ih, ha]
  | orRight _ ha _ ihl ihr =>
      simp [Expr.value, BinaryOp.isDecidedBy, BinaryOp.apply, ihl, ihr, Value.falsy_iff.1 ha]
  | concatenate _ _ hstring ihl ihr =>
      rw [value_binary_of_ne (by decide) (by decide), ihl, ihr, apply_add_of_isString hstring]
  | add _ _ hstring hx hy ihl ihr =>
      rw [value_binary_of_ne (by decide) (by decide), ihl, ihr, apply_add_of_not_isString hstring,
        Value.countsAs_iff.1 hx, Value.countsAs_iff.1 hy]
  | arithmetic hop _ _ hx hy ihl ihr =>
      rw [value_binary_of_ne (by rintro rfl; cases hop) (by rintro rfl; cases hop), ihl, ihr,
        apply_of_arithmetic? hop, Value.countsAs_iff.1 hx, Value.countsAs_iff.1 hy]
  | @relation _ _ _ _ a b result hop _ _ hresult ihl ihr =>
      obtain ⟨found, happly, hfound⟩ := apply_of_orderings? hop a b
      rw [value_binary_of_ne (by rintro rfl; cases hop) (by rintro rfl; cases hop), ihl, ihr,
        happly, Bool.eq_iff_iff.2 (hfound.trans hresult.symm)]
  | @equality _ _ whenEqual _ _ a b result hop _ _ hresult ihl ihr =>
      obtain ⟨found, happly, hfound⟩ := apply_of_equality? hop a b
      have hsame : found = result := by
        have hiff := hfound.trans hresult.symm
        revert hiff
        cases found <;> cases result <;> cases whenEqual <;> simp
      rw [value_binary_of_ne (by rintro rfl; cases hop) (by rintro rfl; cases hop), ihl, ihr,
        happly, hsame]

theorem exists_evaluates_relation {op : BinaryOp} {orderings : List Ordering} {l r : Expr}
    {a b : Value} (h : op.orderings? = some orderings) (ha : Evaluates l a) (hb : Evaluates r b) :
    ∃ v, Evaluates (.binary op l r) v := by
  obtain ⟨result, -, hresult⟩ := apply_of_orderings? h a b
  exact ⟨_, .relation h ha hb hresult⟩

theorem exists_evaluates_equality {op : BinaryOp} {equal : Value → Value → Prop}
    {whenEqual : Bool} {l r : Expr} {a b : Value} (h : op.equality? = some (equal, whenEqual))
    (ha : Evaluates l a) (hb : Evaluates r b) : ∃ v, Evaluates (.binary op l r) v := by
  obtain ⟨result, -, hresult⟩ := apply_of_equality? h a b
  exact ⟨_, .equality h ha hb hresult⟩

/-- The rules give every expression a value. -/
theorem evaluates_value (e : Expr) : Evaluates e e.value := by
  have hcount : ∀ v : Value, v.CountsAs v.toNumber := fun v => Value.countsAs_iff.2 rfl
  suffices h : ∃ v, Evaluates e v by
    obtain ⟨v, hv⟩ := h
    rwa [hv.value_eq]
  induction e with
  | literal v => exact ⟨_, .literal v⟩
  | unary op e ih =>
      obtain ⟨v, hv⟩ := ih
      cases op with
      | not =>
          by_cases hf : v.Falsy
          · exact ⟨_, .notFalsy hv hf⟩
          · exact ⟨_, .notTruthy hv hf⟩
      | minus => exact ⟨_, .minus hv (hcount v)⟩
      | plus => exact ⟨_, .plus hv (hcount v)⟩
  | binary op l r ihl ihr =>
      obtain ⟨a, ha⟩ := ihl
      obtain ⟨b, hb⟩ := ihr
      cases op with
      | sequence => exact ⟨_, .sequence ha hb⟩
      | and =>
          by_cases hf : a.Falsy
          · exact ⟨_, .andLeft ha hf⟩
          · exact ⟨_, .andRight ha hf hb⟩
      | or =>
          by_cases hf : a.Falsy
          · exact ⟨_, .orRight ha hf hb⟩
          · exact ⟨_, .orLeft ha hf⟩
      | add =>
          by_cases hs : a.IsString ∨ b.IsString
          · exact ⟨_, .concatenate ha hb hs⟩
          · exact ⟨_, .add ha hb hs (hcount a) (hcount b)⟩
      | subtract | multiply | divide =>
          exact ⟨_, .arithmetic rfl ha hb (hcount a) (hcount b)⟩
      | less | greater | lessEqual | greaterEqual => exact exists_evaluates_relation rfl ha hb
      | equal | notEqual | strictEqual | strictNotEqual =>
          exact exists_evaluates_equality rfl ha hb

/-- An expression has one value by the rules. -/
theorem evaluates_iff {e : Expr} {v : Value} : Evaluates e v ↔ e.value = v := by
  constructor
  · exact Evaluates.value_eq
  · rintro rfl
    exact evaluates_value e

/-! ## Conditions -/

theorem isPermitted_iff {source : String} :
    isPermitted source = true ↔ ∀ c ∈ source.toList, isPermittedChar c = true :=
  List.all_eq_true

/-- How a condition comes to its result: by the first of four tests that fails, or else by its
value. -/
inductive Resolves (source : String) (c : Context) : Resolution → Prop
  | empty : (∀ ch ∈ source.toList, Text.isBlank ch = true) → Resolves source c .empty
  | rejected : ¬(∀ ch ∈ source.toList, Text.isBlank ch = true) →
      ¬(∀ ch ∈ (c.substitute source).toList, isPermittedChar ch = true) →
      Resolves source c (.rejected (c.substitute source))
  | failed {fault : ExprError} : ¬(∀ ch ∈ source.toList, Text.isBlank ch = true) →
      (∀ ch ∈ (c.substitute source).toList, isPermittedChar ch = true) →
      parseExpr (c.substitute source) = .error fault →
      Resolves source c (.failed (c.substitute source) fault)
  | evaluated {e : Expr} : ¬(∀ ch ∈ source.toList, Text.isBlank ch = true) →
      (∀ ch ∈ (c.substitute source).toList, isPermittedChar ch = true) →
      parseExpr (c.substitute source) = .ok e →
      Resolves source c (.evaluated (c.substitute source) e.trace)

theorem resolves_evaluateCondition (source : String) (c : Context) :
    Resolves source c (evaluateCondition source c) := by
  unfold evaluateCondition
  split
  · rename_i hblank
    exact .empty ((Text.trim_eq_nil_iff _).1 hblank)
  · rename_i hblank
    rw [Text.trim_eq_nil_iff] at hblank
    simp only
    split
    · rename_i hpermitted
      rw [isPermitted_iff] at hpermitted
      split
      · rename_i e hparse
        exact .evaluated hblank hpermitted hparse
      · rename_i fault hparse
        exact .failed hblank hpermitted hparse
    · rename_i hpermitted
      rw [isPermitted_iff] at hpermitted
      exact .rejected hblank hpermitted

/-- A condition comes to its result in the one way that the tests leave. -/
theorem resolves_iff {source : String} {c : Context} {resolution : Resolution} :
    Resolves source c resolution ↔ evaluateCondition source c = resolution := by
  constructor
  · intro h
    cases h with
    | empty hblank => rw [evaluateCondition, if_pos ((Text.trim_eq_nil_iff _).2 hblank)]
    | rejected hblank hpermitted =>
        rw [← Text.trim_eq_nil_iff] at hblank
        rw [← isPermitted_iff] at hpermitted
        simp only [evaluateCondition, if_neg hblank, if_neg hpermitted]
    | failed hblank hpermitted hparse | evaluated hblank hpermitted hparse =>
        rw [← Text.trim_eq_nil_iff] at hblank
        rw [← isPermitted_iff] at hpermitted
        simp only [evaluateCondition, if_neg hblank, if_pos hpermitted, hparse]
  · rintro rfl
    exact resolves_evaluateCondition source c

/-- A condition comes out false only by its value. -/
theorem result_eq_false_iff (source : String) (c : Context) :
    (evaluateCondition source c).result = false ↔
      ¬(∀ ch ∈ source.toList, Text.isBlank ch = true) ∧
        (∀ ch ∈ (c.substitute source).toList, isPermittedChar ch = true) ∧
        ∃ e v, parseExpr (c.substitute source) = .ok e ∧ Evaluates e v ∧ v.Falsy := by
  have h := resolves_evaluateCondition source c
  generalize evaluateCondition source c = resolution at h
  cases h with
  | empty hblank => exact iff_of_false Bool.true_eq_false_eq_False fun h => h.1 hblank
  | rejected hblank hpermitted => simp [Resolution.result, hpermitted]
  | failed hblank hpermitted hparse => simp [Resolution.result, hparse]
  | @evaluated e hblank hpermitted hparse =>
      simp only [Resolution.result, Expr.outcome_trace, ← Value.falsy_iff, hparse, evaluates_iff,
        Except.ok.injEq]
      constructor
      · intro hfalsy
        exact ⟨hblank, hpermitted, e, e.value, rfl, rfl, hfalsy⟩
      · rintro ⟨-, -, _, _, rfl, rfl, hfalsy⟩
        exact hfalsy

theorem Transition.admits_eq_decide (t : Transition) (result : Bool) :
    t.admits result =
      decide (t.branch = none ∨ t.branch = some (if result then .whenTrue else .whenFalse)) := by
  obtain ⟨_, _, _ | (_ | _)⟩ := t <;> cases result <;> rfl

namespace Setup

/-- What a run says at a condition and where it goes from there. -/
theorem blockEvents_and_followed_condition (r : Setup) (id label source : String) (result : Bool)
    (h : conditionResult r.context source = result) :
    r.blockEvents ⟨id, label, .condition source⟩ =
      [.enter id,
        .log ⟨id, "condition", label,
          "Evaluating: \"" ++ (if source = "" then "empty" else source) ++
            (if result then "\" → TRUE" else "\" → FALSE"),
          if result then .success else .warning⟩,
        .exit id] ∧
    r.graph.followed r.context ⟨id, label, .condition source⟩ =
      (((r.graph.outgoing id).find? fun t =>
        decide (t.branch = none ∨ t.branch = some (if result then .whenTrue else .whenFalse)) &&
          (r.graph.target? t).isSome).bind r.graph.target?).toList := by
  constructor
  · cases result
    · simp [blockEvents, StepKind.utterances, h, LogLine.ofStep, StepKind.name,
        conditionMessage_false]
    · simp [blockEvents, StepKind.utterances, h, LogLine.ofStep, StepKind.name,
        conditionMessage_true]
  · simp only [Graph.followed, h, Transition.admits_eq_decide]

end Setup

/-- **Conditions fail open.**  A condition is false exactly when its text is not blank, holds
permitted characters only once its variables are put in, is an expression, and has a value that
counts as false.  The first of these that fails decides how the condition came to its result.  At a
step whose condition is not false a run says so, and takes the first transition that is open for a
true result and leads somewhere. -/
theorem evaluateCondition_fails_open (source : String) (c : Context) :
    ((evaluateCondition source c).result = false ↔
      ¬(∀ ch ∈ source.toList, Text.isBlank ch = true) ∧
        (∀ ch ∈ (c.substitute source).toList, isPermittedChar ch = true) ∧
        ∃ e v, parseExpr (c.substitute source) = .ok e ∧ Evaluates e v ∧ v.Falsy) ∧
    (∀ resolution, evaluateCondition source c = resolution ↔ Resolves source c resolution) ∧
    ∀ (graph : Graph) (timings : Timings) (id label : String),
      (evaluateCondition source c).result = false ∨
        (Setup.mk graph c timings).blockEvents ⟨id, label, .condition source⟩ =
            [.enter id,
              .log ⟨id, "condition", label,
                "Evaluating: \"" ++ (if source = "" then "empty" else source) ++ "\" → TRUE",
                .success⟩,
              .exit id] ∧
          graph.followed c ⟨id, label, .condition source⟩ =
            (((graph.outgoing id).find? fun t =>
              decide (t.branch = none ∨ t.branch = some .whenTrue) &&
                (graph.target? t).isSome).bind graph.target?).toList := by
  refine ⟨result_eq_false_iff source c, fun resolution => resolves_iff.symm, ?_⟩
  intro graph timings id label
  cases h : (evaluateCondition source c).result with
  | false => exact .inl rfl
  | true =>
      exact .inr ((Setup.mk graph c timings).blockEvents_and_followed_condition id label source
        true h)

end Workflow
