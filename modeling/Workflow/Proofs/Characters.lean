import Mathlib
import Workflow.Condition

/-!
# Classes of characters

The classes that the reader of expressions, the substitution and the screen work with, as ranges of
code points, so that what they have in common is arithmetic.

* `isDigit_iff`, `isAlpha_iff`, `isIdentStart_iff`, `isIdentContinue_iff` and `Text.isBlank_iff` are
  the ranges.
* `takeWhile_append_eq` and `dropWhile_append_eq` split a text after a run of a class.
* `Text.isWord_iff_of_lt` says what a word character is within ASCII.
* `Text.isWord_eq_false_of_isBlank` says that blanks stand between words, and
  `isWord_iff_of_isIdentContinue` what an identifier has that no word has.
-/

namespace Workflow

/-! ## Runs of a class -/

section Runs

variable {p : Char → Bool} {run rest : List Char}

theorem takeWhile_append_eq (hrun : ∀ c ∈ run, p c = true) (hrest : ∀ c ∈ rest.head?, p c = false) :
    (run ++ rest).takeWhile p = run := by
  rw [List.takeWhile_append_of_pos hrun]
  cases rest with
  | nil => simp
  | cons c rest => simp [hrest c rfl]

theorem dropWhile_append_eq (hrun : ∀ c ∈ run, p c = true) (hrest : ∀ c ∈ rest.head?, p c = false) :
    (run ++ rest).dropWhile p = rest := by
  rw [List.dropWhile_append_of_pos hrun]
  cases rest with
  | nil => simp
  | cons c rest => simp [hrest c rfl]

theorem eq_true_of_mem_takeWhile {cs : List Char} : ∀ c ∈ cs.takeWhile p, p c = true :=
  List.all_eq_true.1 List.all_takeWhile

/-- What is left after a longest run of a class does not go on with it. -/
theorem head?_dropWhile_eq_false {cs : List Char} : ∀ c ∈ (cs.dropWhile p).head?, p c = false := by
  intro c hc
  have := List.head?_dropWhile_not p cs
  rwa [Option.mem_def.1 hc] at this

end Runs

variable {c : Char}

/-! ## Ranges -/

theorem isDigit_iff : c.isDigit = true ↔ 48 ≤ c.toNat ∧ c.toNat ≤ 57 :=
  Char.isDigit_iff_toNat

theorem isAlpha_iff : c.isAlpha = true ↔
    (65 ≤ c.toNat ∧ c.toNat ≤ 90) ∨ (97 ≤ c.toNat ∧ c.toNat ≤ 122) := by
  simp only [Char.isAlpha, Char.isUpper, Char.isLower, Bool.or_eq_true, Bool.and_eq_true,
    decide_eq_true_eq, ge_iff_le, UInt32.le_iff_toNat_le]
  exact Iff.rfl

theorem eq_iff_toNat_eq {d : Char} : c = d ↔ c.toNat = d.toNat :=
  ⟨fun h => h ▸ rfl, fun h => Char.ext (UInt32.toNat_inj.1 h)⟩

theorem isIdentStart_iff : isIdentStart c = true ↔
    (65 ≤ c.toNat ∧ c.toNat ≤ 90) ∨ (97 ≤ c.toNat ∧ c.toNat ≤ 122) ∨ c.toNat = 95 ∨
      c.toNat = 36 := by
  rw [isIdentStart, Bool.or_eq_true, Bool.or_eq_true, isAlpha_iff, beq_iff_eq, beq_iff_eq,
    eq_iff_toNat_eq, eq_iff_toNat_eq, or_assoc, or_assoc]
  exact Iff.rfl

theorem isIdentContinue_iff : isIdentContinue c = true ↔
    isIdentStart c = true ∨ c.isDigit = true := by
  rw [isIdentContinue, Bool.or_eq_true]

namespace Text

theorem isBlank_iff : isBlank c = true ↔
    (9 ≤ c.toNat ∧ c.toNat ≤ 13) ∨ c.toNat = 0x20 ∨ c.toNat = 0x85 ∨ c.toNat = 0xA0 ∨
      c.toNat = 0x1680 ∨ (0x2000 ≤ c.toNat ∧ c.toNat ≤ 0x200A) ∨ c.toNat = 0x2028 ∨
        c.toNat = 0x2029 ∨ c.toNat = 0x202F ∨ c.toNat = 0x205F ∨ c.toNat = 0x3000 := by
  simp only [isBlank, Bool.or_eq_true, Bool.and_eq_true, decide_eq_true_eq, beq_iff_eq, or_assoc]

theorem isWord_iff_of_lt (h : c.toNat < 0x80) : isWord c = true ↔
    (48 ≤ c.toNat ∧ c.toNat ≤ 57) ∨ (65 ≤ c.toNat ∧ c.toNat ≤ 90) ∨
      (97 ≤ c.toNat ∧ c.toNat ≤ 122) ∨ c.toNat = 95 := by
  have hascii : decide (0x80 ≤ c.toNat) = false := decide_eq_false (by omega)
  rw [isWord, hascii, Bool.false_and, Bool.or_false, Char.isAlphanum, Bool.or_eq_true,
    Bool.or_eq_true, isAlpha_iff, isDigit_iff, beq_iff_eq, eq_iff_toNat_eq]
  change _ ∨ c.toNat = 95 ↔ _
  omega

/-! ## What the classes have to do with each other -/

/-- The code points of blanks beyond ASCII are in none of the ranges of word characters. -/
theorem not_mem_wordRanges {n : Nat} (h : n = 0x85 ∨ n = 0xA0 ∨ n = 0x1680 ∨
    (0x2000 ≤ n ∧ n ≤ 0x200A) ∨ n = 0x2028 ∨ n = 0x2029 ∨ n = 0x202F ∨ n = 0x205F ∨ n = 0x3000) :
    (wordRanges.any fun (first, last) => first ≤ n && n ≤ last) = false := by
  have hall : ∀ m ∈ [0x85, 0xA0, 0x1680, 0x2000, 0x2001, 0x2002, 0x2003, 0x2004, 0x2005, 0x2006,
      0x2007, 0x2008, 0x2009, 0x200A, 0x2028, 0x2029, 0x202F, 0x205F, 0x3000],
      (wordRanges.any fun (first, last) => first ≤ m && m ≤ last) = false := by
    decide +kernel
  apply hall
  simp only [List.mem_cons, List.not_mem_nil, or_false]
  omega

theorem isWord_eq_false_of_isBlank (h : isBlank c = true) : isWord c = false := by
  rw [isBlank_iff] at h
  by_cases hascii : c.toNat < 0x80
  · rw [← Bool.not_eq_true, isWord_iff_of_lt hascii]
    omega
  · have hranges := not_mem_wordRanges (n := c.toNat) (by omega)
    have hdigit : c.isDigit = false := by
      rw [← Bool.not_eq_true, isDigit_iff]
      omega
    have halpha : c.isAlpha = false := by
      rw [← Bool.not_eq_true, isAlpha_iff]
      omega
    have hscore : (c == '_') = false := by
      rw [← Bool.not_eq_true, beq_iff_eq, eq_iff_toNat_eq]
      change ¬c.toNat = 95
      omega
    rw [isWord, Char.isAlphanum, halpha, hdigit, hscore, hranges, Bool.and_false]
    rfl

end Text

theorem isIdentStart_eq_false_of_isIdentContinue (h : isIdentContinue c = false) :
    isIdentStart c = false := by
  rw [isIdentContinue, Bool.or_eq_false_iff] at h
  exact h.1

theorem isIdentStart_eq_false_of_isDigit (h : c.isDigit = true) : isIdentStart c = false := by
  rw [← Bool.not_eq_true, isIdentStart_iff]
  rw [isDigit_iff] at h
  omega

theorem isIdentContinue_eq_false_of_isBlank (h : Text.isBlank c = true) :
    isIdentContinue c = false := by
  rw [← Bool.not_eq_true, isIdentContinue_iff, isIdentStart_iff, isDigit_iff]
  rw [Text.isBlank_iff] at h
  omega

theorem ne_point_of_isIdentContinue (h : isIdentContinue c = true) : c ≠ '.' := by
  rintro rfl
  exact absurd h (by decide)

/-- Of the characters of identifiers only the dollar sign is no word character. -/
theorem isWord_iff_of_isIdentContinue (h : isIdentContinue c = true) :
    Text.isWord c = true ↔ c ≠ '$' := by
  rw [isIdentContinue_iff, isIdentStart_iff, isDigit_iff] at h
  rw [Text.isWord_iff_of_lt (by omega), Ne, eq_iff_toNat_eq]
  change _ ↔ ¬c.toNat = 36
  omega

end Workflow
