import Workflow.Proofs.Scanning

/-!
# Texts in a row and faults of lexemes

What is read at one place of a text has nothing to do with what was read before it.  So two texts
with a blank between them are read as each by itself, and of a text that cannot be read the part
before the fault can.

* `ExprError.shift` is a fault of a text that comes to stand behind another one, and
  `tokenizeFrom_add` says that nothing else changes.
* `Lexes.tokenizeFrom_append_blank` reads what follows a text and a blank.
* `FaultAt` says what can be wrong with the lexeme at a place, and `exists_lexeme_eq_error` finds
  the place.
* `tokenize_is_local` says both of whole texts.
-/

namespace Workflow

/-! ## Places in a longer text -/

/-- A fault of a text that comes to stand behind some bytes. -/
def ExprError.shift (bytes : Nat) : ExprError → ExprError
  | .unexpectedCharacter found offset => .unexpectedCharacter found (bytes + offset)
  | .unterminatedString offset => .unterminatedString (bytes + offset)
  | fault => fault

theorem mapError_map {α β : Type} (f : α → β) (g : ExprError → ExprError) (x : Except ExprError α) :
    (x.map f).mapError g = (x.mapError g).map f := by
  cases x <;> rfl

theorem numberLexeme_add (bytes offset : Nat) (cs : List Char) :
    numberLexeme (bytes + offset) cs = (numberLexeme offset cs).mapError (·.shift bytes) := by
  simp only [numberLexeme]
  split
  · rfl
  · split
    · rfl
    · split <;> rfl

theorem lexeme_add (bytes offset : Nat) (c : Char) (cs : List Char) :
    lexeme (bytes + offset) c cs = (lexeme offset c cs).mapError (·.shift bytes) := by
  unfold lexeme
  split
  · exact numberLexeme_add bytes offset (c :: cs)
  · split
    · split <;> rfl
    · split
      · rfl
      · split <;> rfl

/-- Where a text starts matters for the places of its faults and for nothing else. -/
theorem tokenizeFrom_add (bytes offset : Nat) (cs : List Char) :
    tokenizeFrom (bytes + offset) cs = (tokenizeFrom offset cs).mapError (·.shift bytes) := by
  induction cs using lexemeInduction generalizing offset with
  | nil =>
      rw [tokenizeFrom_nil, tokenizeFrom_nil]
      rfl
  | blank c cs hblank ih =>
      rw [tokenizeFrom_blank hblank, tokenizeFrom_blank hblank, Nat.add_assoc, ih]
  | token chars token rest hlexeme ih =>
      rw [hlexeme.tokenizeFrom_append, hlexeme.tokenizeFrom_append, Nat.add_assoc, ih, mapError_map]
  | fault c cs hblank hfaults =>
      obtain ⟨fault, hfault⟩ := hfaults offset
      have hshift : lexeme (bytes + offset) c cs = .error (fault.shift bytes) := by
        rw [lexeme_add, hfault]
        rfl
      rw [tokenizeFrom_of_lexeme_eq_error hblank hfault,
        tokenizeFrom_of_lexeme_eq_error hblank hshift]
      rfl

/-! ## Texts in a row -/

/-- Behind a text that can be read and a blank everything is read as it is by itself. -/
theorem Lexes.tokenizeFrom_append_blank {as : List Char} {tokens : List Token} (h : Lexes as tokens)
    {c : Char} (hc : Text.isBlank c = true) (offset : Nat) (bs : List Char) :
    tokenizeFrom offset (as ++ c :: bs) =
      (tokenizeFrom (offset + Text.byteLength as + c.utf8Size) bs).map (tokens ++ ·) := by
  induction h generalizing offset with
  | nil =>
      rw [List.nil_append, tokenizeFrom_blank hc, Text.byteLength, Nat.add_zero]
      cases tokenizeFrom _ bs <;> rfl
  | blank hblank _ ih =>
      rw [List.cons_append, tokenizeFrom_blank hblank, ih, Text.byteLength, Nat.add_assoc offset]
  | @token chars rest token tokens hlexeme _ ih =>
      have hbefore : Lexeme chars token (rest ++ c :: bs) := by
        cases rest with
        | nil => exact hlexeme.spells.lexeme fun d hd => Option.some.inj hd ▸ hc
        | cons d rest => exact hlexeme.of_head? fun _ hd => hd
      rw [List.append_assoc, hbefore.tokenizeFrom_append, ih, Text.byteLength_append,
        ← Nat.add_assoc]
      cases tokenizeFrom _ bs <;> rfl

/-! ## Faults -/

/-- What can be wrong with the lexeme that starts with a character at an offset. -/
inductive FaultAt (offset : Nat) (c : Char) : ExprError → Prop
  | character : FaultAt offset c (.unexpectedCharacter c offset)
  | string : c = '"' ∨ c = '\'' → FaultAt offset c (.unterminatedString offset)
  | number {text : String} : (c.isDigit || c == '.') = true → FaultAt offset c (.invalidNumber text)

/-- What is tried as a number starts with its first character. -/
theorem exists_numberText_eq_cons {c : Char} (hc : (c.isDigit || c == '.') = true)
    (rest : List Char) : ∃ more, numberText (c :: rest) = c :: more := by
  have hmantissa : ∃ more, (Decimal.spanDigits (c :: rest)).1 ++
      Numeral.pointText (Decimal.spanDigits (c :: rest)).2 = c :: more := by
    by_cases hdigit : c.isDigit = true
    · exact ⟨rest.takeWhile Char.isDigit ++ Numeral.pointText (rest.dropWhile Char.isDigit), by
        simp [Decimal.spanDigits, hdigit]⟩
    · obtain rfl : c = '.' := by simpa [hdigit] using hc
      exact ⟨rest.takeWhile Char.isDigit, by simp [Decimal.spanDigits, Numeral.pointText]⟩
  obtain ⟨more, hmore⟩ := hmantissa
  rw [Numeral.numberText_eq, hmore]
  split
  · exact ⟨_, List.cons_append⟩
  · exact ⟨more, rfl⟩

theorem faultAt_of_numberLexeme {offset : Nat} {c : Char} {rest : List Char} {fault : ExprError}
    (hc : (c.isDigit || c == '.') = true) (h : numberLexeme offset (c :: rest) = .error fault) :
    FaultAt offset c fault := by
  simp only [numberLexeme] at h
  split at h
  · cases h
    exact .number hc
  · split at h
    · rename_i hpoint
      cases h
      obtain ⟨more, htext⟩ := exists_numberText_eq_cons hc rest
      rw [htext, List.cons.injEq] at hpoint
      rw [← hpoint.1]
      exact .character
    · split at h
      · cases h
      · cases h
        exact .number hc

theorem faultAt_of_lexeme {offset : Nat} {c : Char} {rest : List Char} {fault : ExprError}
    (h : lexeme offset c rest = .error fault) : FaultAt offset c fault := by
  unfold lexeme at h
  split at h
  · rename_i hc
    exact faultAt_of_numberLexeme hc h
  · split at h
    · rename_i hclose
      rw [Bool.or_eq_true, beq_iff_eq, beq_iff_eq] at hclose
      split at h
      · cases h
      · cases h
        exact .string hclose
    · split at h
      · cases h
      · split at h
        · cases h
        · cases h
          exact .character

/-- A text that cannot be read can be read up to some character, at which there is no lexeme. -/
theorem exists_lexeme_eq_error {offset : Nat} {cs : List Char} {fault : ExprError}
    (h : tokenizeFrom offset cs = .error fault) :
    ∃ front c back tokens, cs = front ++ c :: back ∧ Lexes front tokens ∧
      Text.isBlank c = false ∧ lexeme (offset + Text.byteLength front) c back = .error fault := by
  induction cs using lexemeInduction generalizing offset with
  | nil =>
      rw [tokenizeFrom_nil] at h
      cases h
  | blank c cs hblank ih =>
      rw [tokenizeFrom_blank hblank] at h
      obtain ⟨front, d, back, tokens, rfl, hfront, hd, hfault⟩ := ih h
      rw [Nat.add_assoc] at hfault
      exact ⟨c :: front, d, back, tokens, rfl, .blank hblank hfront, hd, hfault⟩
  | token chars token rest hlexeme ih =>
      rw [hlexeme.tokenizeFrom_append] at h
      cases hrest : tokenizeFrom (offset + Text.byteLength chars) rest with
      | ok tokens =>
          rw [hrest] at h
          cases h
      | error found =>
          rw [hrest] at h
          cases h
          obtain ⟨front, d, back, tokens, rfl, hfront, hd, hfault⟩ := ih hrest
          have hbefore : Lexeme chars token front := hlexeme.of_head? fun e he => by
            rw [List.head?_append, Option.mem_def.1 he]
            rfl
          rw [Nat.add_assoc, ← Text.byteLength_append] at hfault
          exact ⟨chars ++ front, d, back, token :: tokens, (List.append_assoc ..).symm,
            .token hbefore hfront, hd, hfault⟩
  | fault c cs hblank hfaults =>
      obtain ⟨found, hfault⟩ := hfaults offset
      rw [tokenizeFrom_of_lexeme_eq_error hblank hfault] at h
      cases h
      exact ⟨[], c, cs, [], rfl, .nil, hblank, hfault⟩

/-- At that character something is wrong. -/
theorem exists_of_tokenizeFrom_eq_error {offset : Nat} {cs : List Char} {fault : ExprError}
    (h : tokenizeFrom offset cs = .error fault) :
    ∃ front c back tokens, cs = front ++ c :: back ∧ Lexes front tokens ∧
      FaultAt (offset + Text.byteLength front) c fault := by
  obtain ⟨front, c, back, tokens, hcs, hfront, -, hfault⟩ := exists_lexeme_eq_error h
  exact ⟨front, c, back, tokens, hcs, hfront, faultAt_of_lexeme hfault⟩

/-! ## Whole texts -/

/-- Whether a character stands in a text behind `offset` bytes that are a text by themselves, and one
that can be read. -/
def StandsBehind (source : String) (found : Char) (offset : Nat) : Prop :=
  ∃ before after tokens, source = before ++ String.singleton found ++ after ∧
    before.utf8ByteSize = offset ∧ tokenize before = .ok tokens

theorem exists_of_tokenize_eq_error {source : String} {fault : ExprError}
    (h : tokenize source = .error fault) :
    ∃ c offset, StandsBehind source c offset ∧ FaultAt offset c fault := by
  obtain ⟨front, c, back, tokens, hsource, hfront, hfault⟩ := exists_of_tokenizeFrom_eq_error h
  refine ⟨c, _, ⟨String.ofList front, String.ofList back, tokens, ?_, rfl, ?_⟩, ?_⟩
  · rw [← String.toList_inj, hsource]
    simp
  · rwa [tokenize_eq_ok_iff, String.toList_ofList]
  · rwa [Nat.zero_add, Text.byteLength_eq_utf8ByteSize] at hfault

/-- A text, a space and another text. -/
theorem tokenize_append_space {a b : String} {tokens : List Token} (h : tokenize a = .ok tokens) :
    tokenize (a ++ " " ++ b) =
      ((tokenize b).mapError (·.shift (a.utf8ByteSize + 1))).map (tokens ++ ·) := by
  have hchars : (a ++ " " ++ b).toList = a.toList ++ ' ' :: b.toList := by
    simp [String.toList_append]
  rw [tokenize, hchars, (tokenize_eq_ok_iff.1 h).tokenizeFrom_append_blank (by decide),
    Text.byteLength_toList, Nat.zero_add]
  exact congrArg (Except.map _) (tokenizeFrom_add (a.utf8ByteSize + 1) 0 b.toList)

/-- **Reading is local.**  If a text can be read, then with a space and another text behind it the
tokens are those of the one and those of the other; and if the other cannot be read, its fault is
that of the whole, at a place that lies further back by the bytes of the first and the space.  And
where a text holds an unexpected character or opens a string that does not end, there stands that
character or a quote, and what comes before it can be read by itself. -/
theorem tokenize_is_local :
    (∀ (a b : String) (tokens : List Token), tokenize a = .ok tokens →
      (∀ more, tokenize b = .ok more → tokenize (a ++ " " ++ b) = .ok (tokens ++ more)) ∧
      ∀ fault, tokenize b = .error fault →
        tokenize (a ++ " " ++ b) = .error (fault.shift (a.utf8ByteSize + 1))) ∧
    (∀ (source : String) (found : Char) (offset : Nat),
      tokenize source = .error (.unexpectedCharacter found offset) →
        StandsBehind source found offset) ∧
    ∀ (source : String) (offset : Nat), tokenize source = .error (.unterminatedString offset) →
      StandsBehind source '"' offset ∨ StandsBehind source '\'' offset := by
  refine ⟨fun a b tokens ha => ⟨fun more hb => ?_, fun fault hb => ?_⟩,
    fun source found offset h => ?_, fun source offset h => ?_⟩
  · rw [tokenize_append_space ha, hb]
    rfl
  · rw [tokenize_append_space ha, hb]
    rfl
  · obtain ⟨c, place, hplace, hfault⟩ := exists_of_tokenize_eq_error h
    cases hfault with
    | character => exact hplace
  · obtain ⟨c, place, hplace, hfault⟩ := exists_of_tokenize_eq_error h
    cases hfault with
    | string hclose =>
        rcases hclose with rfl | rfl
        · exact .inl hplace
        · exact .inr hplace

/-- A fault behind a character of two bytes. -/
theorem tokenize_is_local_behind_string :
    tokenize "'é' +" = .ok [.string "é", .symbol .plus] ∧
      tokenize "x & y" = .error (.unexpectedCharacter '&' 2) ∧
      tokenize "'é' + x & y" = .error (.unexpectedCharacter '&' 9) ∧
      StandsBehind "'é' + x & y" '&' 9 := by
  have ha : tokenize "'é' +" = .ok [.string "é", .symbol .plus] := by decide +kernel
  have hb : tokenize "x & y" = .error (.unexpectedCharacter '&' 2) := by decide +kernel
  obtain ⟨hrow, hcharacter, -⟩ := tokenize_is_local
  have hjoined : tokenize "'é' + x & y" = .error (.unexpectedCharacter '&' 9) :=
    (hrow "'é' +" "x & y" _ ha).2 _ hb
  exact ⟨ha, hb, hjoined, hcharacter _ _ _ hjoined⟩

end Workflow
