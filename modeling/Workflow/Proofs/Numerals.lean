import Workflow.Proofs.Characters

/-!
# Numerals

What the reader of numbers accepts, said as a structure instead of a scan: digits, perhaps a point
and more digits, perhaps an exponent.

* `Numeral` are the texts with their parts, `Numeral.text` is what they are written as and
  `Numeral.decimal` the decimal they stand for.
* `Numeral.Ends` says that a numeral does not go on in the text that follows it.
* `Numeral.ofText?_text` and `Numeral.Ends.numberText_append` read a numeral.
* `numberLexeme_eq_ok_iff` says that numerals are all that is read as a number.
-/

namespace Workflow

/-! ## Digits -/

namespace Decimal

theorem digitsValue_eq_ofDigitChars (cs : List Char) : digitsValue cs = Nat.ofDigitChars 10 cs 0 :=
  rfl

theorem digitsValue_append (cs ds : List Char) :
    digitsValue (cs ++ ds) = digitsValue cs * 10 ^ ds.length + digitsValue ds := by
  induction ds using List.reverseRecOn with
  | nil => simp [digitsValue]
  | append_singleton ds d ih =>
      have hlast : ∀ es : List Char,
          digitsValue (es ++ [d]) = 10 * digitsValue es + (d.toNat - '0'.toNat) := fun es => by
        simp [digitsValue]
      rw [← List.append_assoc, hlast, ih, hlast, List.length_append, List.length_singleton,
        pow_succ]
      ring

theorem digitsValue_digitsText (n : Nat) : digitsValue (digitsText n) = n :=
  Nat.ofDigitChars_toDigits (by decide) le_rfl

theorem digitsValue_replicate_zero (n : Nat) : digitsValue (List.replicate n '0') = 0 := by
  rw [digitsValue_eq_ofDigitChars, Nat.ofDigitChars_replicate_zero, Nat.mul_zero]

theorem isDigit_of_mem_digitsText {n : Nat} {c : Char} (h : c ∈ digitsText n) :
    c.isDigit = true :=
  Nat.isDigit_of_mem_toDigits (by decide) le_rfl h

theorem digitsText_ne_nil (n : Nat) : digitsText n ≠ [] :=
  Nat.toDigits_ne_nil

/-- Digits are split off up to where they end. -/
theorem spanDigits_append {ds rest : List Char} (hds : ∀ c ∈ ds, c.isDigit = true)
    (hrest : ∀ c ∈ rest.head?, c.isDigit = false) : spanDigits (ds ++ rest) = (ds, rest) := by
  rw [spanDigits, takeWhile_append_eq hds hrest, dropWhile_append_eq hds hrest]

end Decimal

/-! ## Numerals -/

/-- The exponent of a numeral. -/
structure Exponent where
  /-- `e` or `E`. -/
  mark : Char
  /-- Nothing, `+` or `-`. -/
  sign : List Char
  digits : List Char
  mark_eq : mark = 'e' ∨ mark = 'E'
  sign_eq : sign = [] ∨ sign = ['+'] ∨ sign = ['-']
  isDigit_of_mem : ∀ c ∈ digits, c.isDigit = true
  digits_ne_nil : digits ≠ []

namespace Exponent

/-- What an exponent is written as. -/
def text (x : Exponent) : List Char :=
  x.mark :: (x.sign ++ x.digits)

/-- The power of ten that an exponent stands for. -/
def value (x : Exponent) : Int :=
  if x.sign = ['-'] then -Decimal.digitsValue x.digits else Decimal.digitsValue x.digits

theorem exponentOf?_text (x : Exponent) : Decimal.exponentOf? x.text = some x.value := by
  obtain ⟨mark, sign, digits, hmark, hsign, hdigits, hne⟩ := x
  have hunsigned : Decimal.exponentOf?.unsigned? digits = some (Decimal.digitsValue digits : ℤ) := by
    rw [Decimal.exponentOf?.unsigned?, if_pos ⟨hne, List.all_eq_true.2 hdigits⟩]
  unfold Decimal.exponentOf? text value
  simp only [if_pos hmark]
  rcases hsign with rfl | rfl | rfl
  · rw [if_neg (by decide), ← hunsigned, List.nil_append]
    split
    · exact absurd (hdigits '+' List.mem_cons_self) (by decide)
    · exact absurd (hdigits '-' List.mem_cons_self) (by decide)
    · rfl
  · exact hunsigned
  · simp only [List.singleton_append, hunsigned, Option.map_some, if_true]

/-- The characters of an exponent are its mark, its sign and digits. -/
theorem mem_text {x : Exponent} {c : Char} (h : c ∈ x.text) :
    c = 'e' ∨ c = 'E' ∨ c = '+' ∨ c = '-' ∨ c.isDigit = true := by
  rw [text, List.mem_cons, List.mem_append] at h
  rcases h with rfl | hsign | hdigit
  · rcases x.mark_eq with hmark | hmark <;> simp [hmark]
  · rcases x.sign_eq with heq | heq | heq <;> rw [heq] at hsign
    · cases hsign
    · simp [List.mem_singleton.1 hsign]
    · simp [List.mem_singleton.1 hsign]
  · simp [x.isDigit_of_mem c hdigit]

end Exponent

/-- An unsigned number as it is written.  There is a digit before the point or after it. -/
structure Numeral where
  whole : List Char
  /-- The digits after the point, if there is a point. -/
  fraction? : Option (List Char)
  exponent? : Option Exponent
  isDigit_whole : ∀ c ∈ whole, c.isDigit = true
  isDigit_fraction : ∀ ds ∈ fraction?, ∀ c ∈ ds, c.isDigit = true
  digits_ne_nil : whole ++ fraction?.getD [] ≠ []

namespace Numeral

/-- The digits after the point. -/
def fraction (n : Numeral) : List Char :=
  n.fraction?.getD []

/-- The digits and the point. -/
def mantissa (n : Numeral) : List Char :=
  n.whole ++ n.fraction?.elim [] ('.' :: ·)

/-- What a numeral is written as. -/
def text (n : Numeral) : List Char :=
  n.mantissa ++ n.exponent?.elim [] Exponent.text

/-- The decimal that a numeral stands for. -/
def decimal (n : Numeral) : Decimal where
  digits := Decimal.digitsValue (n.whole ++ n.fraction)
  exponent := n.exponent?.elim 0 Exponent.value - n.fraction.length

/-- Whether a numeral ends where a text goes on: neither a digit nor a letter follows, and a point
only if the numeral can have none any more. -/
def Ends (n : Numeral) (rest : List Char) : Prop :=
  ∀ c ∈ rest.head?, c.isDigit = false ∧ isIdentStart c = false ∧
    (c = '.' → n.fraction?.isSome ∨ n.exponent?.isSome)

/-- The characters of a numeral are digits, the point and those of an exponent. -/
theorem mem_text {n : Numeral} {c : Char} (h : c ∈ n.text) :
    c.isDigit = true ∨ c ∈ ['.', 'e', 'E', '+', '-'] := by
  rw [text, mantissa, List.mem_append, List.mem_append] at h
  rcases h with (h | h) | h
  · exact .inl (n.isDigit_whole c h)
  · cases hfraction : n.fraction? with
    | none => simp [hfraction] at h
    | some ds =>
        rw [hfraction, Option.elim_some, List.mem_cons] at h
        rcases h with rfl | h
        · exact .inr List.mem_cons_self
        · exact .inl (n.isDigit_fraction ds hfraction c h)
  · cases hexponent : n.exponent? with
    | none => simp [hexponent] at h
    | some x =>
        rw [hexponent, Option.elim_some] at h
        rcases x.mem_text h with rfl | rfl | rfl | rfl | h
        iterate 4 exact .inr (by decide)
        exact .inl h

/-! ## Reading a numeral -/

/-- No digit and no point starts an exponent. -/
theorem head?_exponent (x? : Option Exponent) :
    ∀ c ∈ (x?.elim [] Exponent.text).head?, c = 'e' ∨ c = 'E' := by
  cases x? with
  | none => simp
  | some x =>
      intro c hc
      obtain rfl : x.mark = c := Option.some.inj hc
      exact x.mark_eq

theorem isDigit_head?_exponent (x? : Option Exponent) :
    ∀ c ∈ (x?.elim [] Exponent.text).head?, c.isDigit = false := by
  intro c hc
  rcases head?_exponent x? c hc with rfl | rfl <;> rfl

theorem exponentOf?_exponent {x? : Option Exponent} :
    Decimal.exponentOf? (x?.elim [] Exponent.text) = some (x?.elim 0 Exponent.value) := by
  cases x? with
  | none => rfl
  | some x => exact x.exponentOf?_text

/-- What is read after the digits of a numeral is its exponent. -/
theorem ofText?_append {whole tail : List Char} {fraction? : Option (List Char)}
    (hwhole : ∀ c ∈ whole, c.isDigit = true) (hfraction : ∀ ds ∈ fraction?, ∀ c ∈ ds, c.isDigit = true)
    (htail : ∀ c ∈ tail.head?, c = 'e' ∨ c = 'E') :
    Decimal.ofText? (whole ++ fraction?.elim [] ('.' :: ·) ++ tail) =
      if whole ++ fraction?.getD [] = [] then none
      else (Decimal.exponentOf? tail).map fun e =>
        ⟨Decimal.digitsValue (whole ++ fraction?.getD []), e - (fraction?.getD []).length⟩ := by
  have hdigit : ∀ c ∈ tail.head?, c.isDigit = false := by
    intro c hc
    rcases htail c hc with rfl | rfl <;> rfl
  unfold Decimal.ofText?
  rw [List.append_assoc]
  cases fraction? with
  | none =>
      have hpoint : ∀ after, tail ≠ '.' :: after := by
        rintro after rfl
        simpa using htail '.' rfl
      simp only [Option.elim_none, List.nil_append, Decimal.spanDigits_append hwhole hdigit, and_true,
        Option.getD_none, List.append_nil]
  | some ds =>
      have hspan : Decimal.spanDigits (whole ++ '.' :: (ds ++ tail)) = (whole, '.' :: (ds ++ tail)) :=
        Decimal.spanDigits_append hwhole (by simp)
      simp only [Option.elim_some, List.cons_append, hspan,
        Decimal.spanDigits_append (hfraction ds rfl) hdigit, Option.getD_some, List.append_eq_nil_iff]

theorem ofText?_text (n : Numeral) : Decimal.ofText? n.text = some n.decimal := by
  rw [text, mantissa, ofText?_append n.isDigit_whole n.isDigit_fraction (head?_exponent _),
    if_neg n.digits_ne_nil, exponentOf?_exponent, Option.map_some]
  rfl

/-! ## Finding a numeral -/

/-- The point and the digits after it, if a text starts with a point. -/
def pointText : List Char → List Char
  | '.' :: after => '.' :: after.takeWhile Char.isDigit
  | _ => []

theorem numberText_eq (cs : List Char) :
    numberText cs =
      if ((Decimal.spanDigits cs).1 ++ pointText (Decimal.spanDigits cs).2).any Char.isDigit then
        (Decimal.spanDigits cs).1 ++ pointText (Decimal.spanDigits cs).2 ++ exponentText
          (cs.drop ((Decimal.spanDigits cs).1 ++ pointText (Decimal.spanDigits cs).2).length)
      else (Decimal.spanDigits cs).1 ++ pointText (Decimal.spanDigits cs).2 :=
  rfl

theorem exponentText_text_append (x : Exponent) {rest : List Char}
    (hrest : ∀ c ∈ rest.head?, c.isDigit = false) : exponentText (x.text ++ rest) = x.text := by
  obtain ⟨mark, sign, digits, hmark, hsign, hdigits, hne⟩ := x
  have htake := takeWhile_append_eq hdigits hrest
  unfold exponentText Exponent.text
  simp only [List.cons_append, List.append_assoc, if_pos hmark]
  rcases hsign with rfl | rfl | rfl
  · obtain ⟨d, ds, rfl⟩ := List.exists_cons_of_ne_nil hne
    have hd := hdigits d List.mem_cons_self
    rw [List.nil_append, List.nil_append]
    split
    · rename_i h
      exact absurd ((List.cons.inj h).1 ▸ hd) (by decide)
    · rename_i h
      exact absurd ((List.cons.inj h).1 ▸ hd) (by decide)
    · rw [htake]
  · simp [htake]
  · simp [htake]

variable {n : Numeral} {rest : List Char}

theorem Ends.isDigit_head? (h : n.Ends rest) : ∀ c ∈ rest.head?, c.isDigit = false :=
  fun c hc => (h c hc).1

theorem Ends.isDigit_head?_append (h : n.Ends rest) :
    ∀ c ∈ (n.exponent?.elim [] Exponent.text ++ rest).head?, c.isDigit = false := by
  cases n.exponent? with
  | none => exact h.isDigit_head?
  | some x => exact isDigit_head?_exponent (some x)

/-- After the digits and the point comes the exponent, or what follows a numeral without one. -/
theorem Ends.exponentText_append (h : n.Ends rest) :
    exponentText (n.exponent?.elim [] Exponent.text ++ rest) =
      n.exponent?.elim [] Exponent.text := by
  cases n.exponent? with
  | some x => exact exponentText_text_append x h.isDigit_head?
  | none =>
      cases rest with
      | nil => rfl
      | cons c rest =>
          have hc := (h c rfl).2.1
          have hmark : ¬(c = 'e' ∨ c = 'E') := by
            rintro (rfl | rfl) <;> exact absurd hc (by decide)
          simp only [Option.elim_none, List.nil_append, exponentText, if_neg hmark]

/-- Behind the whole digits comes the point with its digits, or what follows a numeral without
one. -/
theorem Ends.pointText_append (h : n.Ends rest) :
    pointText (n.fraction?.elim [] ('.' :: ·) ++ (n.exponent?.elim [] Exponent.text ++ rest)) =
      n.fraction?.elim [] ('.' :: ·) := by
  cases hfraction : n.fraction? with
  | some ds =>
      simp only [Option.elim_some, List.cons_append, pointText]
      rw [takeWhile_append_eq (n.isDigit_fraction ds hfraction) h.isDigit_head?_append]
  | none =>
      have hpoint : ∀ c ∈ (n.exponent?.elim [] Exponent.text ++ rest).head?, c ≠ '.' := by
        cases hexponent : n.exponent? with
        | none =>
            intro c hc hpoint
            simpa [hfraction, hexponent] using (h c hc).2.2 hpoint
        | some x =>
            rintro c hc rfl
            simpa using head?_exponent (some x) '.' hc
      rw [Option.elim_none, List.nil_append]
      unfold pointText
      split
      · rename_i after heq
        exact absurd rfl (hpoint '.' (by rw [heq]; rfl))
      · rfl

/-- There is a digit unless there is nothing before the point and nothing after it. -/
theorem any_isDigit_append {whole : List Char} {fraction? : Option (List Char)}
    (hwhole : ∀ c ∈ whole, c.isDigit = true) (hfraction : ∀ ds ∈ fraction?, ∀ c ∈ ds, c.isDigit = true)
    (hne : whole ++ fraction?.getD [] ≠ []) :
    (whole ++ fraction?.elim [] ('.' :: ·)).any Char.isDigit = true := by
  obtain ⟨c, hc⟩ := List.exists_mem_of_ne_nil _ hne
  rw [List.any_eq_true]
  rcases List.mem_append.1 hc with hc | hc
  · exact ⟨c, List.mem_append_left _ hc, hwhole c hc⟩
  · cases fraction? with
    | none => cases hc
    | some ds =>
        exact ⟨c, List.mem_append_right _ (List.mem_cons_of_mem _ hc), hfraction ds rfl c hc⟩

theorem Ends.numberText_append (h : n.Ends rest) : numberText (n.text ++ rest) = n.text := by
  have hspan : Decimal.spanDigits (n.text ++ rest) =
      (n.whole, n.fraction?.elim [] ('.' :: ·) ++ (n.exponent?.elim [] Exponent.text ++ rest)) := by
    rw [text, mantissa, List.append_assoc, List.append_assoc]
    apply Decimal.spanDigits_append n.isDigit_whole
    cases n.fraction? with
    | none => exact h.isDigit_head?_append
    | some ds => simp
  have hmantissa : n.whole ++ pointText
      (n.fraction?.elim [] ('.' :: ·) ++ (n.exponent?.elim [] Exponent.text ++ rest)) =
        n.mantissa := by
    rw [h.pointText_append, mantissa]
  have hdrop : (n.text ++ rest).drop n.mantissa.length =
      n.exponent?.elim [] Exponent.text ++ rest := by
    rw [text, List.append_assoc, List.drop_left]
  have hany : n.mantissa.any Char.isDigit = true :=
    any_isDigit_append n.isDigit_whole n.isDigit_fraction n.digits_ne_nil
  rw [numberText_eq, hspan, hmantissa, if_pos hany, hdrop, h.exponentText_append, text]

/-! ## Every number is a numeral -/

/-- A text that starts with a point and digits, or with neither. -/
theorem exists_fraction (cs : List Char) (hdigit : ∀ c ∈ cs.head?, c.isDigit = false) :
    ∃ (fraction? : Option (List Char)) (rest : List Char),
      cs = fraction?.elim [] ('.' :: ·) ++ rest ∧ pointText cs = fraction?.elim [] ('.' :: ·) ∧
        (∀ ds ∈ fraction?, ∀ c ∈ ds, c.isDigit = true) ∧
        ∀ c ∈ rest.head?, c.isDigit = false ∧ (c = '.' → fraction?.isSome) := by
  by_cases hpoint : ∃ after, cs = '.' :: after
  · obtain ⟨after, rfl⟩ := hpoint
    refine ⟨some (after.takeWhile Char.isDigit), after.dropWhile Char.isDigit, ?_, rfl, ?_, ?_⟩
    · rw [Option.elim_some, List.cons_append, List.takeWhile_append_dropWhile]
    · rintro ds hds c hc
      cases hds
      exact eq_true_of_mem_takeWhile c hc
    · exact fun c hc => ⟨head?_dropWhile_eq_false c hc, fun _ => rfl⟩
  · refine ⟨none, cs, rfl, ?_, nofun, fun c hc => ⟨hdigit c hc, ?_⟩⟩
    · unfold pointText
      split
      · rename_i after
        exact absurd ⟨after, rfl⟩ hpoint
      · rfl
    · rintro rfl
      cases cs with
      | nil => cases hc
      | cons c rest =>
          cases hc
          exact absurd ⟨rest, rfl⟩ hpoint

/-- The sign of an exponent that is read. -/
theorem exists_sign {mark : Char} (hmark : mark = 'e' ∨ mark = 'E') (rest : List Char) :
    ∃ sign after : List Char, rest = sign ++ after ∧ (sign = [] ∨ sign = ['+'] ∨ sign = ['-']) ∧
      exponentText (mark :: rest) = mark :: (sign ++ after.takeWhile Char.isDigit) := by
  unfold exponentText
  simp only [if_pos hmark]
  split
  · rename_i after
    exact ⟨['+'], after, rfl, by simp, rfl⟩
  · rename_i after
    exact ⟨['-'], after, rfl, by simp, rfl⟩
  · exact ⟨[], rest, rfl, by simp, rfl⟩

/-- An exponent that can be read has a digit. -/
theorem digits_ne_nil_of_isSome {mark : Char} {sign digits : List Char}
    (hmark : mark = 'e' ∨ mark = 'E') (hsign : sign = [] ∨ sign = ['+'] ∨ sign = ['-'])
    (h : (Decimal.exponentOf? (mark :: (sign ++ digits))).isSome) : digits ≠ [] := by
  rintro rfl
  unfold Decimal.exponentOf? at h
  simp only [if_pos hmark] at h
  rcases hsign with rfl | rfl | rfl <;> cases h

theorem head?_exponentText (cs : List Char) :
    ∀ c ∈ (exponentText cs).head?, c = 'e' ∨ c = 'E' := by
  intro c hc
  cases cs with
  | nil => cases hc
  | cons mark rest =>
      by_cases hmark : mark = 'e' ∨ mark = 'E'
      · obtain ⟨sign, after, -, -, htext⟩ := exists_sign hmark rest
        rw [htext] at hc
        cases hc
        exact hmark
      · have hnone : exponentText (mark :: rest) = [] := if_neg hmark
        rw [hnone] at hc
        cases hc

/-- A text that starts with an exponent, or with no letter for one. -/
theorem exists_exponent {cs : List Char}
    (hexponent : (Decimal.exponentOf? (exponentText cs)).isSome)
    (hends : ∀ c ∈ cs.head?, c.isDigit = false) :
    ∃ (x? : Option Exponent) (rest : List Char), cs = x?.elim [] Exponent.text ++ rest ∧
      exponentText cs = x?.elim [] Exponent.text ∧ (∀ c ∈ rest.head?, c.isDigit = false) ∧
        (x? = none → rest = cs) := by
  cases cs with
  | nil => exact ⟨none, [], rfl, rfl, nofun, fun _ => rfl⟩
  | cons mark rest =>
      by_cases hmark : mark = 'e' ∨ mark = 'E'
      · obtain ⟨sign, after, rfl, hsign, htext⟩ := exists_sign hmark rest
        rw [htext] at hexponent
        let x : Exponent := ⟨mark, sign, after.takeWhile Char.isDigit, hmark, hsign,
          eq_true_of_mem_takeWhile, digits_ne_nil_of_isSome hmark hsign hexponent⟩
        refine ⟨some x, after.dropWhile Char.isDigit, ?_, htext, head?_dropWhile_eq_false, nofun⟩
        change _ = mark :: (sign ++ after.takeWhile Char.isDigit) ++ _
        rw [List.cons_append, List.append_assoc, List.takeWhile_append_dropWhile]
      · exact ⟨none, mark :: rest, rfl, if_neg hmark, hends, fun _ => rfl⟩

theorem exists_numeral {cs : List Char} {d : Decimal} (hd : Decimal.ofText? (numberText cs) = some d)
    (hletter : ∀ c ∈ (cs.drop (numberText cs).length).head?, isIdentStart c = false) :
    ∃ (n : Numeral) (rest : List Char), cs = n.text ++ rest ∧ n.Ends rest := by
  have hwhole : ∀ c ∈ cs.takeWhile Char.isDigit, c.isDigit = true :=
    eq_true_of_mem_takeWhile
  have hcs : cs = cs.takeWhile Char.isDigit ++ cs.dropWhile Char.isDigit :=
    List.takeWhile_append_dropWhile.symm
  obtain ⟨fraction?, tail, htail, hpoint, hfraction, hends⟩ :=
    exists_fraction (cs.dropWhile Char.isDigit) head?_dropWhile_eq_false
  have htext := numberText_eq cs
  rw [Decimal.spanDigits, hpoint] at htext
  generalize cs.takeWhile Char.isDigit = whole at hwhole hcs htext
  rw [htail, ← List.append_assoc] at hcs
  by_cases hne : whole ++ fraction?.getD [] = []
  · -- then nothing that could be an exponent makes it a number
    have hread : ∃ x : List Char, (∀ c ∈ x.head?, c = 'e' ∨ c = 'E') ∧
        numberText cs = whole ++ fraction?.elim [] ('.' :: ·) ++ x := by
      split at htext
      · exact ⟨_, head?_exponentText _, htext⟩
      · exact ⟨[], nofun, by rw [htext, List.append_nil]⟩
    obtain ⟨x, hx, hread⟩ := hread
    rw [hread, ofText?_append hwhole hfraction hx, if_pos hne] at hd
    cases hd
  · rw [if_pos (any_isDigit_append hwhole hfraction hne), hcs, List.drop_left, ← hcs] at htext
    rw [htext, ofText?_append hwhole hfraction (head?_exponentText tail), if_neg hne,
      Option.map_eq_some_iff] at hd
    obtain ⟨e, he, -⟩ := hd
    obtain ⟨x?, rest, htail, hexponent, hdigit, hnone⟩ :=
      exists_exponent (Option.isSome_of_eq_some he) fun c hc => (hends c hc).1
    have hsplit : cs = whole ++ fraction?.elim [] ('.' :: ·) ++ x?.elim [] Exponent.text ++ rest := by
      rw [hcs, htail, List.append_assoc _ _ rest]
    refine ⟨⟨whole, fraction?, x?, hwhole, hfraction, hne⟩, rest, hsplit, fun c hc => ?_⟩
    rw [htext, hexponent, hsplit, List.drop_left] at hletter
    refine ⟨hdigit c hc, hletter c hc, fun hpoint => ?_⟩
    cases x? with
    | some x => exact .inr rfl
    | none => exact .inl ((hends c (hnone rfl ▸ hc)).2 hpoint)

end Numeral

/-- Numerals that end where the text goes on are all that is read as a number. -/
theorem numberLexeme_eq_ok_iff {offset : Nat} {cs : List Char} {token : Token} {width : Nat} :
    numberLexeme offset cs = .ok (token, width) ↔
      ∃ (n : Numeral) (rest : List Char), cs = n.text ++ rest ∧ n.Ends rest ∧
        token = .number n.decimal.toFloat ∧ width = n.text.length := by
  constructor
  · intro h
    simp only [numberLexeme] at h
    split at h
    · cases h
    · rename_i hletter
      split at h
      · cases h
      · split at h
        · rename_i d hd
          obtain ⟨n, rest, rfl, hends⟩ := Numeral.exists_numeral hd fun c hc => by
            simpa using Option.filter_eq_none_iff.1 hletter c hc
          rw [hends.numberText_append, n.ofText?_text] at hd
          cases hd
          obtain ⟨rfl, rfl⟩ := Prod.mk.inj (Except.ok.inj h)
          exact ⟨n, rest, rfl, hends, rfl, by rw [hends.numberText_append]⟩
        · cases h
  · rintro ⟨n, rest, rfl, hends, rfl, rfl⟩
    have hletter : rest.head?.filter isIdentStart = none := by
      rw [Option.filter_eq_none_iff]
      exact fun c hc => by simp [(hends c hc).2.1]
    have hpoint : n.text ≠ ['.'] := by
      intro h
      have := n.ofText?_text
      rw [h] at this
      cases this
    rw [numberLexeme, hends.numberText_append, List.drop_left, hletter]
    simp only [hpoint, if_false, n.ofText?_text]

end Workflow
