import Workflow.Json.Reader
import Workflow.Proofs.NumberText

/-!
# JSON texts are read back

Every value that can be taken is read back from its text, whatever follows the text that does not
make a number of it longer.

* `Json.Ends` is what follows a value within a text.
* `Json.numberAt?_text` and `Json.stringAt?_append` read the two leaves that need work.
* `Json.parse?_text` reads a whole text.
-/

namespace Workflow

namespace Json

/-- What may follow a value: nothing, or what separates and ends values. -/
def Ends (rest : List Char) : Prop :=
  ∀ c ∈ rest.head?, c = ',' ∨ c = ']' ∨ c = '\x7d'

theorem Ends.not_number {rest : List Char} (h : Ends rest) :
    ∀ c ∈ rest.head?, c.isDigit = false ∧ c ≠ '.' ∧ c ≠ 'e' ∧ c ≠ 'E' := by
  intro c hc
  rcases h c hc with rfl | rfl | rfl <;> decide

/-! ## Numbers -/

section Numbers

variable {n : Numeral} {rest : List Char}

theorem wholeAt?_append (hn : n.IsStrict) (hrest : ∀ c ∈ rest.head?, c.isDigit = false) :
    wholeAt? (n.whole ++ rest) = some (n.whole, rest) := by
  obtain ⟨c, cs, hcs⟩ := List.exists_cons_of_ne_nil hn.whole_ne_nil
  have hspan := Decimal.spanDigits_append n.isDigit_whole hrest
  by_cases hc : c = '0'
  · rw [hn.whole_eq (by simp [hcs, hc])]
    rfl
  · rw [hcs] at hspan ⊢
    unfold wholeAt?
    split
    · rename_i heq
      exact absurd (List.cons.inj heq).1 hc
    · rw [hspan]

theorem fractionAt?_append (hn : n.IsStrict)
    (hrest : ∀ c ∈ rest.head?, c.isDigit = false ∧ c ≠ '.') :
    fractionAt? (n.fraction?.elim [] ('.' :: ·) ++ rest) =
      some (n.fraction?.elim [] ('.' :: ·), rest) := by
  cases hfraction : n.fraction? with
  | none =>
    rw [Option.elim_none, List.nil_append]
    unfold fractionAt?
    split
    · exact absurd rfl (hrest '.' rfl).2
    · rfl
  | some ds =>
    obtain ⟨d, ds', rfl⟩ := List.exists_cons_of_ne_nil fun h => hn.fraction_ne_nil (h ▸ hfraction)
    rw [Option.elim_some, List.cons_append, fractionAt?,
      Decimal.spanDigits_append (n.isDigit_fraction _ hfraction) fun c hc => (hrest c hc).1]

theorem exponentAt?_append (x? : Option Exponent)
    (hrest : ∀ c ∈ rest.head?, c.isDigit = false ∧ c ≠ 'e' ∧ c ≠ 'E') :
    exponentAt? (x?.elim [] Exponent.text ++ rest) = some (x?.elim [] Exponent.text, rest) := by
  cases x? with
  | none =>
    rw [Option.elim_none, List.nil_append]
    cases rest with
    | nil => rfl
    | cons c rest =>
      have hc : ¬(c = 'e' ∨ c = 'E') := not_or.2 (hrest c rfl).2
      unfold exponentAt?
      simp only [if_neg hc]
  | some x =>
    obtain ⟨mark, sign, digits, hmark, hsign, hdigits, hne⟩ := x
    have hspan := Decimal.spanDigits_append hdigits fun c hc => (hrest c hc).1
    obtain ⟨d, ds, rfl⟩ := List.exists_cons_of_ne_nil hne
    have hd := hdigits d List.mem_cons_self
    rw [List.cons_append] at hspan
    unfold exponentAt? Exponent.text
    simp only [Option.elim_some, List.cons_append, List.append_assoc, if_pos hmark]
    rcases hsign with rfl | rfl | rfl
    · -- the first digit is no sign
      have hplus : d ≠ '+' := by rintro rfl; cases hd
      have hminus : d ≠ '-' := by rintro rfl; cases hd
      simp [hplus, hminus, hspan]
    · simp [hspan]
    · simp [hspan]

/-- What follows the fraction of a numeral is no digit and no point. -/
theorem head?_exponent_append (hrest : Ends rest) (x? : Option Exponent) :
    ∀ c ∈ (x?.elim [] Exponent.text ++ rest).head?, c.isDigit = false ∧ c ≠ '.' := by
  intro c hc
  cases x? with
  | none =>
    obtain ⟨hdigit, hpoint, -⟩ := hrest.not_number c hc
    exact ⟨hdigit, hpoint⟩
  | some x =>
    cases hc
    rcases x.mark_eq with hmark | hmark <;> rw [hmark] <;> decide

/-- What follows the whole digits of a numeral is no digit. -/
theorem head?_fraction_append (hrest : Ends rest) (n : Numeral) :
    ∀ c ∈ (n.fraction?.elim [] ('.' :: ·) ++ (n.exponent?.elim [] Exponent.text ++ rest)).head?,
      c.isDigit = false := by
  cases n.fraction? with
  | none => exact fun c hc => (head?_exponent_append hrest n.exponent? c hc).1
  | some ds =>
    rintro c ⟨⟩
    rfl

/-- A number is read from its parts. -/
theorem numberAt?_of_parts {cs afterWhole afterFraction whole fraction exponent : List Char}
    {d : Decimal} (isNegative : Bool) (hsign : '-' ∉ cs.head?)
    (hwhole : wholeAt? cs = some (whole, afterWhole))
    (hfraction : fractionAt? afterWhole = some (fraction, afterFraction))
    (hexponent : exponentAt? afterFraction = some (exponent, rest))
    (hd : Decimal.ofText? (whole ++ fraction ++ exponent) = some d) :
    numberAt? ((if isNegative then ['-'] else []) ++ cs) =
      some ((JsonNumber.ofNumeral? isNegative (fraction.isEmpty && exponent.isEmpty) d).elim
        .unusable .number, rest) := by
  unfold numberAt?
  cases isNegative with
  | true =>
    simp only [if_true, List.singleton_append, hwhole, hfraction, hexponent, hd, bind, pure,
      Option.bind_some]
  | false =>
    obtain ⟨c, cs, rfl⟩ : ∃ c cs', cs = c :: cs' := by
      cases cs with
      | nil => cases hwhole
      | cons c cs => exact ⟨c, cs, rfl⟩
    have hc : c ≠ '-' := by
      rintro rfl
      exact hsign rfl
    rw [List.append_assoc] at hd
    simp [hc, hwhole, hfraction, hexponent, hd]

/-- A strict numeral is read as the kind of number that its form says. -/
theorem numberAt?_append (hn : n.IsStrict) (isNegative : Bool) (hrest : Ends rest) :
    numberAt? ((if isNegative then ['-'] else []) ++ (n.text ++ rest)) =
      some ((JsonNumber.ofNumeral? isNegative n.isWhole n.decimal).elim .unusable .number, rest) := by
  have hsplit : n.text ++ rest = n.whole ++ (n.fraction?.elim [] ('.' :: ·) ++
      (n.exponent?.elim [] Exponent.text ++ rest)) := by
    simp only [Numeral.text, Numeral.mantissa, List.append_assoc]
  have hsign : '-' ∉ (n.text ++ rest).head? := by
    obtain ⟨c, cs, hcs⟩ := List.exists_cons_of_ne_nil hn.whole_ne_nil
    have hdigit := n.isDigit_whole c (hcs ▸ List.mem_cons_self)
    rw [hsplit, hcs]
    rintro ⟨⟩
    cases hdigit
  have hkind : n.isWhole = ((n.fraction?.elim [] ('.' :: ·)).isEmpty &&
      (n.exponent?.elim [] Exponent.text).isEmpty) := by
    rw [Numeral.isWhole]
    cases n.fraction? <;> cases n.exponent? <;> rfl
  rw [hkind]
  rw [hsplit] at hsign ⊢
  have hmark : ∀ c ∈ rest.head?, c.isDigit = false ∧ c ≠ 'e' ∧ c ≠ 'E' := fun c hc =>
    ⟨(hrest.not_number c hc).1, (hrest.not_number c hc).2.2⟩
  exact numberAt?_of_parts isNegative hsign (wholeAt?_append hn (head?_fraction_append hrest n))
    (fractionAt?_append hn (head?_exponent_append hrest n.exponent?))
    (exponentAt?_append n.exponent? hmark) n.ofText?_text

theorem numberAt?_text (j : JsonNumber) (hrest : Ends rest) :
    numberAt? (j.text ++ rest) = some (.number j, rest) := by
  obtain ⟨n, htext, -, hstrict, hkind⟩ := j.exists_text_eq
  rw [htext, List.append_assoc, numberAt?_append hstrict _ hrest, hkind]
  rfl

end Numbers

/-! ## Strings -/

theorem hexQuad?_of_lt : ∀ code < 0x20,
    hexQuad? '0' '0' (Nat.digitChar (code / 16)) (Nat.digitChar (code % 16)) = some code := by
  decide

/-- A short escape is read as the code that it stands for. -/
theorem codesAt?_backslash {e : Char} {code : Nat} (he : shortEscape? e = some code)
    (rest : List Char) :
    codesAt? ('\\' :: e :: rest) =
      (codesAt? rest).map fun (codes, rest) => (code :: codes, rest) := by
  have hu : e ≠ 'u' := by
    rintro rfl
    cases he
  rw [codesAt?, he]
  · cases codesAt? rest <;> rfl
  · simp [hu]

/-- A character that stands for itself is read as its code. -/
theorem codesAt?_plain {c : Char} (hquote : c ≠ '"') (hbackslash : c ≠ '\\') (hle : 0x20 ≤ c.toNat)
    (rest : List Char) :
    codesAt? (c :: rest) = (codesAt? rest).map fun (codes, rest) => (c.toNat :: codes, rest) := by
  have hplain : ¬(c.toNat < 0x20 ∨ c = '\\') := not_or.2 ⟨not_lt.2 hle, hbackslash⟩
  rw [codesAt?, if_neg hplain] <;> simp [hquote, hbackslash]

/-- A character is read back as its code, and the text after it is read as before. -/
theorem codesAt?_escape (c : Char) (rest : List Char) :
    codesAt? (escape c ++ rest) =
      (codesAt? rest).map fun (codes, rest) => (c.toNat :: codes, rest) := by
  unfold escape
  iterate 7
    split
    · subst_vars
      exact codesAt?_backslash rfl rest
  rename_i hquote hbackslash _ _ _ _ _
  split
  · rename_i hlt
    cases h : codesAt? rest <;> simp [codesAt?, hexQuad?_of_lt c.toNat hlt, h]
  · rename_i hle
    exact codesAt?_plain hquote hbackslash (not_lt.1 hle) rest

theorem codesAt?_append (cs rest : List Char) :
    codesAt? (cs.flatMap escape ++ '"' :: rest) = some (cs.map Char.toNat, rest) := by
  induction cs with
  | nil => rfl
  | cons c cs ih =>
    rw [List.flatMap_cons, List.append_assoc, codesAt?_escape, ih]
    rfl

/-- The code of a character is no half of a surrogate pair. -/
theorem isHalf_toNat (c : Char) : isHighHalf c.toNat = false ∧ isLowHalf c.toNat = false := by
  have hvalid : c.toNat < 0xD800 ∨ 0xDFFF < c.toNat ∧ c.toNat < 0x110000 := c.valid
  simp only [isHighHalf, isLowHalf, Bool.and_eq_false_iff, decide_eq_false_iff_not]
  omega

theorem charsOfCodes?_map_toNat (cs : List Char) : charsOfCodes? (cs.map Char.toNat) = some cs := by
  induction cs with
  | nil => rfl
  | cons c cs ih =>
    obtain ⟨hhigh, hlow⟩ := isHalf_toNat c
    cases cs with
    | nil => simp [charsOfCodes?, hhigh, hlow]
    | cons d ds =>
      rw [List.map_cons] at ih
      simp [charsOfCodes?, hhigh, hlow, ih]

/-- A string is read back from what stands between its quotes. -/
theorem stringAt?_append (s : String) (rest : List Char) :
    stringAt? (s.toList.flatMap escape ++ '"' :: rest) = some (some s, rest) := by
  rw [stringAt?, codesAt?_append, Option.map_some]
  simp only [charsOfCodes?_map_toNat, Option.map_some, String.ofList_toList]

/-! ## Values -/

theorem skipBlanks_cons {c : Char} (hc : isBlank c = false) (cs : List Char) :
    skipBlanks (c :: cs) = c :: cs := by
  rw [skipBlanks, List.dropWhile_cons_of_neg (by simp [hc])]

/-- A number starts with a digit or a minus. -/
theorem exists_numberText_eq (n : JsonNumber) :
    ∃ c cs, n.text = c :: cs ∧ (c.isDigit = true ∨ c = '-') := by
  obtain ⟨numeral, htext, -, hstrict, -⟩ := n.exists_text_eq
  obtain ⟨c, cs, hcs⟩ := List.exists_cons_of_ne_nil hstrict.whole_ne_nil
  have hdigit := numeral.isDigit_whole c (hcs ▸ List.mem_cons_self)
  rw [htext, Numeral.text, Numeral.mantissa, hcs]
  cases n.isNegative with
  | true => exact ⟨_, _, rfl, .inr rfl⟩
  | false => exact ⟨_, _, rfl, .inl hdigit⟩

/-- A value starts with a character that is no blank and ends nothing. -/
theorem exists_write_eq (j : Json) :
    ∃ c cs, j.write = c :: cs ∧ isBlank c = false ∧ c ≠ ']' ∧ c ≠ '\x7d' := by
  cases j with
  | bool b => cases b <;> exact ⟨_, _, rfl, by decide⟩
  | number n =>
    obtain ⟨c, cs, htext, hc⟩ := exists_numberText_eq n
    refine ⟨c, cs, htext, ?_⟩
    rcases hc with hc | rfl
    · rw [isDigit_iff] at hc
      have hne : ∀ d : Char, (d.toNat < 48 ∨ 57 < d.toNat) → c ≠ d := by
        rintro d hd rfl
        omega
      simp [isBlank, hne ' ' (by decide), hne '\n' (by decide), hne '\r' (by decide),
        hne '\t' (by decide), hne ']' (by decide), hne '\x7d' (by decide)]
    · decide
  | _ => exact ⟨_, _, rfl, by decide⟩

/-- Members whose names are texts are all taken. -/
theorem mapM_map_some (members : List (String × Json)) :
    (members.map fun (name, item) => (some name, item)).mapM
      (fun (name, item) => name.map (·, item)) = some members := by
  induction members with
  | nil => rfl
  | cons m rest ih => simp [ih]

/-- The members that are read of an object whose names are texts. -/
theorem objectOfMembers_eq (members : List (String × Json)) :
    objectOfMembers (members.map fun (name, item) => (some name, item)) = .object members := by
  rw [objectOfMembers, mapM_map_some]

/-- What starts with a digit or a minus is read as a number. -/
theorem valueAt?_number {cs : List Char} (h : ∀ c ∈ cs.head?, c.isDigit = true ∨ c = '-')
    (fuel : Nat) : valueAt? (fuel + 1) cs = numberAt? cs := by
  unfold valueAt?
  split <;> first | rfl | simp at h

theorem valueAt?_string (fuel : Nat) (rest : List Char) :
    valueAt? (fuel + 1) ('"' :: rest) =
      (stringAt? rest).map fun (s, rest) => (s.elim .unusable .string, rest) :=
  rfl

theorem valueAt?_array {fuel : Nat} {cs : List Char} (h : ∀ rest, skipBlanks cs ≠ ']' :: rest) :
    valueAt? (fuel + 1) ('[' :: cs) =
      (itemsAt? fuel (skipBlanks cs)).map fun (items, rest) => (.array items, rest) := by
  rw [valueAt?]
  split
  · exact absurd ‹_› (h _)
  · rfl

theorem valueAt?_object {fuel : Nat} {cs : List Char} (h : ∀ rest, skipBlanks cs ≠ '\x7d' :: rest) :
    valueAt? (fuel + 1) ('\x7b' :: cs) = (membersAt? fuel (skipBlanks cs)).map
      fun (members, rest) => (objectOfMembers members, rest) := by
  rw [valueAt?]
  split
  · exact absurd ‹_› (h _)
  · rfl

theorem ends_cons {c : Char} (hc : c = ',' ∨ c = ']' ∨ c = '\x7d') (rest : List Char) :
    Ends (c :: rest) := by
  rintro d ⟨⟩
  exact hc

theorem skipBlanks_write (j : Json) (rest : List Char) :
    skipBlanks (j.write ++ rest) = j.write ++ rest := by
  obtain ⟨c, cs, hwrite, hblank, -⟩ := j.exists_write_eq
  rw [hwrite, List.cons_append, skipBlanks_cons hblank]

theorem writeItems_cons_cons (item item' : Json) (items : List Json) :
    writeItems (item :: item' :: items) = item.write ++ ',' :: writeItems (item' :: items) :=
  rfl

theorem writeMembers_cons_cons (name : String) (item : Json) (member : String × Json)
    (members : List (String × Json)) :
    writeMembers ((name, item) :: member :: members) =
      quote name ++ ':' :: item.write ++ ',' :: writeMembers (member :: members) :=
  rfl

theorem exists_writeItems_eq (item : Json) (items : List Json) :
    ∃ c cs, writeItems (item :: items) = c :: cs ∧ isBlank c = false ∧ c ≠ ']' := by
  obtain ⟨c, cs, hwrite, hblank, hend, -⟩ := item.exists_write_eq
  cases items with
  | nil => exact ⟨c, cs, hwrite, hblank, hend⟩
  | cons item' items => exact ⟨c, _, by rw [writeItems_cons_cons, hwrite]; rfl, hblank, hend⟩

theorem exists_writeMembers_eq (member : String × Json) (members : List (String × Json)) :
    ∃ cs, writeMembers (member :: members) = '"' :: cs := by
  cases members with
  | nil => exact ⟨_, rfl⟩
  | cons member' members => exact ⟨_, rfl⟩

/-- A member is read back if its value is. -/
theorem memberAt?_write {name : String} {item : Json} {fuel : Nat} {rest : List Char}
    (h : valueAt? fuel (item.write ++ rest) = some (item, rest)) :
    memberAt? (fuel + 1) (quote name ++ ':' :: (item.write ++ rest)) =
      some ((some name, item), rest) := by
  have hquote : quote name ++ ':' :: (item.write ++ rest) =
      '"' :: (name.toList.flatMap escape ++ '"' :: ':' :: (item.write ++ rest)) := by
    simp [quote]
  have hcolon : skipBlanks (':' :: (item.write ++ rest)) = ':' :: (item.write ++ rest) :=
    skipBlanks_cons rfl _
  rw [hquote, memberAt?]
  simp only [stringAt?_append, hcolon, skipBlanks_write, h, Option.map_some]

mutual

/-- A value is read back from its text. -/
theorem valueAt?_write : ∀ (j : Json) (depth fuel : Nat) (rest : List Char),
    j.isUsableAt depth = true → 3 * j.write.length ≤ fuel → Ends rest →
      valueAt? fuel (j.write ++ rest) = some (j, rest)
  | j, _, 0, rest, _, hfuel, _ => by
    obtain ⟨c, cs, hwrite, -⟩ := j.exists_write_eq
    rw [hwrite, List.length_cons] at hfuel
    omega
  | .null, _, fuel + 1, rest, _, _, _ => rfl
  | .bool true, _, fuel + 1, rest, _, _, _ => rfl
  | .bool false, _, fuel + 1, rest, _, _, _ => rfl
  | .number n, _, fuel + 1, rest, _, _, hrest => by
    obtain ⟨c, cs, htext, hc⟩ := exists_numberText_eq n
    rw [write, valueAt?_number (by rw [htext]; simpa using hc), numberAt?_text n hrest]
  | .string s, _, fuel + 1, rest, _, _, _ => by
    have hquote : quote s ++ rest = '"' :: (s.toList.flatMap escape ++ '"' :: rest) := by
      simp [quote]
    rw [write, hquote, valueAt?_string, stringAt?_append]
    rfl
  | .array [], _, fuel + 1, rest, _, _, _ => rfl
  | .array (item :: items), depth, fuel + 1, rest, hitems, hfuel, _ => by
    rw [isUsableAt, Bool.and_eq_true] at hitems
    rw [write, List.length_append, List.length_cons] at hfuel
    have hread := itemsAt?_write (item :: items) (depth - 1) fuel rest (by simp) hitems.2 (by omega)
    obtain ⟨c, cs, hwrite, hblank, hend⟩ := exists_writeItems_eq item items
    have hskip : skipBlanks (writeItems (item :: items) ++ ']' :: rest) =
        writeItems (item :: items) ++ ']' :: rest := by
      rw [hwrite]
      exact skipBlanks_cons hblank _
    have hsplit : '[' :: writeItems (item :: items) ++ [']'] ++ rest =
        '[' :: (writeItems (item :: items) ++ ']' :: rest) := by simp
    rw [write, hsplit, valueAt?_array, hskip, hread]
    · rfl
    · rw [hskip, hwrite]
      exact fun _ heq => hend (List.cons.inj heq).1
  | .object [], _, fuel + 1, rest, _, _, _ => rfl
  | .object (member :: members), depth, fuel + 1, rest, hmembers, hfuel, _ => by
    rw [isUsableAt, Bool.and_eq_true] at hmembers
    rw [write, List.length_append, List.length_cons] at hfuel
    have hread := membersAt?_write (member :: members) (depth - 1) fuel rest (by simp) hmembers.2
      (by omega)
    obtain ⟨cs, hwrite⟩ := exists_writeMembers_eq member members
    have hskip : skipBlanks (writeMembers (member :: members) ++ '\x7d' :: rest) =
        writeMembers (member :: members) ++ '\x7d' :: rest := by
      rw [hwrite]
      exact skipBlanks_cons rfl _
    have hsplit : '\x7b' :: writeMembers (member :: members) ++ ['\x7d'] ++ rest =
        '\x7b' :: (writeMembers (member :: members) ++ '\x7d' :: rest) := by simp
    rw [write, hsplit, valueAt?_object, hskip, hread, Option.map_some, ← objectOfMembers_eq]
    rw [hskip, hwrite]
    simp
  | .unusable, _, _, _, husable, _, _ => by cases husable

/-- The items of an array are read back from their text. -/
theorem itemsAt?_write : ∀ (items : List Json) (depth fuel : Nat) (rest : List Char),
    items ≠ [] → areUsableItems depth items = true → 3 * (writeItems items).length < fuel →
      itemsAt? fuel (writeItems items ++ ']' :: rest) = some (items, rest)
  | [], _, _, _, hne, _, _ => absurd rfl hne
  | [item], depth, fuel + 1, rest, _, hitems, hfuel => by
    rw [areUsableItems, Bool.and_eq_true] at hitems
    rw [writeItems] at hfuel
    have hitem := valueAt?_write item depth fuel (']' :: rest) hitems.1 (by omega)
      (ends_cons (by simp) rest)
    have hend : skipBlanks (']' :: rest) = ']' :: rest := skipBlanks_cons rfl _
    rw [writeItems, itemsAt?, hitem]
    simp only [hend]
  | item :: item' :: items, depth, fuel + 1, rest, _, hitems, hfuel => by
    rw [areUsableItems, Bool.and_eq_true] at hitems
    rw [writeItems_cons_cons, List.length_append, List.length_cons] at hfuel
    have hitem := valueAt?_write item depth fuel (',' :: (writeItems (item' :: items) ++ ']' :: rest))
      hitems.1 (by omega) (ends_cons (by simp) _)
    have hrest := itemsAt?_write (item' :: items) depth fuel rest (by simp) hitems.2 (by omega)
    obtain ⟨c, cs, hwrite, hblank, -⟩ := exists_writeItems_eq item' items
    have hcomma : isBlank ',' = false := rfl
    rw [writeItems_cons_cons, List.append_assoc, List.cons_append, itemsAt?, hitem]
    rw [hwrite] at hrest ⊢
    rw [List.cons_append] at hrest
    simp [skipBlanks_cons hcomma, skipBlanks_cons hblank, hrest]

/-- The members of an object are read back from their text. -/
theorem membersAt?_write : ∀ (members : List (String × Json)) (depth fuel : Nat)
    (rest : List Char), members ≠ [] → areUsableMembers depth members = true →
      3 * (writeMembers members).length < fuel →
        membersAt? fuel (writeMembers members ++ '\x7d' :: rest) =
          some (members.map fun (name, item) => (some name, item), rest)
  | [], _, _, _, hne, _, _ => absurd rfl hne
  | [(name, item)], depth, fuel + 2, rest, _, hmembers, hfuel => by
    rw [areUsableMembers, Bool.and_eq_true] at hmembers
    rw [writeMembers, List.length_append, List.length_cons] at hfuel
    have hitem := valueAt?_write item depth fuel ('\x7d' :: rest) hmembers.1 (by omega)
      (ends_cons (by simp) rest)
    have hend : skipBlanks ('\x7d' :: rest) = '\x7d' :: rest := skipBlanks_cons rfl _
    rw [writeMembers, List.append_assoc, List.cons_append, membersAt?, memberAt?_write hitem]
    simp only [hend]
    rfl
  | (name, item) :: member :: members, depth, fuel + 2, rest, _, hmembers, hfuel => by
    rw [areUsableMembers, Bool.and_eq_true] at hmembers
    rw [writeMembers_cons_cons, List.length_append, List.length_append, List.length_cons,
      List.length_cons] at hfuel
    have hitem := valueAt?_write item depth fuel
      (',' :: (writeMembers (member :: members) ++ '\x7d' :: rest)) hmembers.1 (by omega)
      (ends_cons (by simp) _)
    have hrest := membersAt?_write (member :: members) depth (fuel + 1) rest (by simp) hmembers.2
      (by omega)
    obtain ⟨cs, hwrite⟩ := exists_writeMembers_eq member members
    have hcomma : isBlank ',' = false := rfl
    have hquote : isBlank '"' = false := rfl
    have hsplit : quote name ++ ':' :: item.write ++ ',' :: writeMembers (member :: members) ++
        '\x7d' :: rest = quote name ++ ':' :: (item.write ++
          ',' :: (writeMembers (member :: members) ++ '\x7d' :: rest)) := by simp
    rw [writeMembers_cons_cons, hsplit, membersAt?, memberAt?_write hitem]
    rw [hwrite] at hrest ⊢
    rw [List.cons_append] at hrest
    simp [skipBlanks_cons hcomma, skipBlanks_cons hquote, hrest]

end

/-- **Values are read back from their texts.** -/
theorem parse?_text {depth : Nat} {j : Json} (h : j.isUsableAt depth = true) :
    parse? j.text = some j := by
  have hskip : skipBlanks j.write = j.write := by
    simpa using skipBlanks_write j []
  have hread : valueAt? (3 * j.write.length + 1) j.write = some (j, []) := by
    simpa using valueAt?_write j depth (3 * j.write.length + 1) [] h (by omega) nofun
  rw [parse?, text, String.toList_ofList, hskip]
  simp only [hread]
  rfl

end Json
end Workflow
