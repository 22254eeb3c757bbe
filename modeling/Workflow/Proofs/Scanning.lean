import Workflow.Proofs.Lexemes

/-!
# Longest lexemes

The reader of tokens takes the longest lexeme wherever it stands.  Said without the reader: a text is
split into blanks and lexemes, of which none could be longer at its place.

* `Spells` says what a token is written as, whatever follows it.
* `IsLongest` says that nothing longer at the front of a text is written as a token, and
  `lexeme_iff_isLongest` that the longest are what is read.
* `Splits` relates a text to the tokens it is split into, and `tokenize_eq_ok_iff_splits` says that
  these are its tokens.
-/

namespace Workflow

variable {chars rest : List Char} {token : Token}

/-! ## What tokens are written as -/

/-- The characters that a token may be written as, whatever follows them. -/
inductive Spells : List Char → Token → Prop
  | number (n : Numeral) : Spells n.text (.number n.decimal.toFloat)
  | string {close : Char} {body s : List Char} :
      close = '"' ∨ close = '\'' → Quoted close body s →
        Spells (close :: (body ++ [close])) (.string (String.ofList s))
  | ident {c : Char} {cs : List Char} :
      isIdentStart c = true → (∀ d ∈ cs, isIdentContinue d = true) →
        Spells (c :: cs) (.ident (String.ofList (c :: cs)))
  | symbol (s : Symbol) : Spells s.text.toList (.symbol s)

theorem Lexeme.spells (h : Lexeme chars token rest) : Spells chars token := by
  cases h with
  | number _ => exact .number _
  | string hclose hquoted => exact .string hclose hquoted
  | ident hstart hcontinue _ => exact .ident hstart hcontinue
  | symbol _ => exact .symbol _

/-- Of what follows a lexeme only the next character matters. -/
theorem Lexeme.of_head? (h : Lexeme chars token rest) {other : List Char}
    (hother : ∀ c ∈ other.head?, c ∈ rest.head?) : Lexeme chars token other := by
  cases h with
  | number hends => exact .number fun c hc => hends c (hother c hc)
  | string hclose hquoted => exact .string hclose hquoted
  | ident hstart hcontinue hends =>
      exact .ident hstart hcontinue fun c hc => hends c (hother c hc)
  | symbol hends => exact .symbol fun hmem hequals => hends hmem (hother _ hequals)

/-- Before a blank, or at the end of a text, everything that is written as a token is a lexeme. -/
theorem Spells.lexeme (h : Spells chars token)
    (hrest : ∀ c ∈ rest.head?, Text.isBlank c = true) : Lexeme chars token rest := by
  have hcontinue : ∀ c ∈ rest.head?, isIdentContinue c = false :=
    fun c hc => isIdentContinue_eq_false_of_isBlank (hrest c hc)
  cases h with
  | number n =>
      refine .number fun c hc => ?_
      have hc' := hcontinue c hc
      rw [isIdentContinue, Bool.or_eq_false_iff] at hc'
      refine ⟨hc'.2, hc'.1, ?_⟩
      rintro rfl
      exact absurd (hrest _ hc) (by decide)
  | string hclose hquoted => exact .string hclose hquoted
  | ident hstart hmore => exact .ident hstart hmore hcontinue
  | symbol s => exact .symbol fun _ hequals => absurd (hrest _ hequals) (by decide)

/-! ## Longer spellings -/

/-- A digit makes a numeral longer. -/
theorem Numeral.exists_text_eq_concat_digit (n : Numeral) {c : Char} (hc : c.isDigit = true) :
    ∃ m : Numeral, m.text = n.text ++ [c] := by
  obtain ⟨whole, fraction?, exponent?, hwhole, hfraction, hne⟩ := n
  have hconcat : ∀ {ds : List Char}, (∀ d ∈ ds, d.isDigit = true) →
      ∀ d ∈ ds ++ [c], d.isDigit = true := by
    intro ds hds d hd
    rcases List.mem_append.1 hd with hd | hd
    · exact hds d hd
    · rwa [List.mem_singleton.1 hd]
  cases exponent? with
  | some x =>
      let y : Exponent := { x with
        digits := x.digits ++ [c]
        isDigit_of_mem := hconcat x.isDigit_of_mem
        digits_ne_nil := by simp }
      refine ⟨⟨whole, fraction?, some y, hwhole, hfraction, hne⟩, ?_⟩
      simp [text, mantissa, Exponent.text, y]
  | none =>
      cases fraction? with
      | some ds =>
          refine ⟨⟨whole, some (ds ++ [c]), none, hwhole, ?_, by simp⟩, ?_⟩
          · rintro _ ⟨⟩
            exact hconcat (hfraction ds rfl)
          · simp [text, mantissa]
      | none =>
          exact ⟨⟨whole ++ [c], none, none, hconcat hwhole, by simp, by simp⟩, by
            simp [text, mantissa]⟩

/-- A point makes a numeral longer that has neither a point nor an exponent. -/
theorem Numeral.exists_text_eq_concat_point (n : Numeral) (hfraction : n.fraction? = none)
    (hexponent : n.exponent? = none) : ∃ m : Numeral, m.text = n.text ++ ['.'] := by
  have hne : n.whole ++ [] ≠ [] := by simpa [hfraction] using n.digits_ne_nil
  refine ⟨⟨n.whole, some [], none, n.isDigit_whole, ?_, hne⟩, ?_⟩
  · rintro _ ⟨⟩
    exact nofun
  · simp [text, mantissa, hfraction, hexponent]

/-- The symbols that an equals sign makes longer. -/
theorem Symbol.exists_text_eq_concat {s : Symbol}
    (h : s ∈ [less, greater, bang, equal, notEqual]) :
    ∃ t : Symbol, t.text.toList = s.text.toList ++ ['='] := by
  simp only [List.mem_cons, List.not_mem_nil, or_false] at h
  rcases h with rfl | rfl | rfl | rfl | rfl
  · exact ⟨.lessEqual, rfl⟩
  · exact ⟨.greaterEqual, rfl⟩
  · exact ⟨.notEqual, rfl⟩
  · exact ⟨.strictEqual, rfl⟩
  · exact ⟨.strictNotEqual, rfl⟩

/-! ## The longest lexeme -/

/-- What is taken for a token at the front of a text: nothing longer that stands there is written as
a token.  A number that runs into an identifier is none, and is not cut short to become one. -/
structure IsLongest (chars : List Char) (token : Token) (rest : List Char) : Prop where
  spells : Spells chars token
  length_le : ∀ longer other, longer <+: chars ++ rest → Spells longer other →
    longer.length ≤ chars.length
  isIdentStart_eq_false : ∀ x, token = .number x → ∀ c ∈ rest.head?, isIdentStart c = false

/-- With the next character the longest is not written as a token any more. -/
theorem IsLongest.ne_concat {c : Char} {after longer : List Char} {other : Token}
    (h : IsLongest chars token (c :: after)) (hspells : Spells longer other) :
    longer ≠ chars ++ [c] := by
  rintro rfl
  have hprefix : chars ++ [c] <+: chars ++ c :: after := ⟨after, by simp⟩
  have hle := h.length_le _ _ hprefix hspells
  simp at hle

theorem Lexeme.isLongest (h : Lexeme chars token rest) : IsLongest chars token rest where
  spells := h.spells
  length_le := by
    intro longer other hlonger hspells
    rcases List.prefix_or_prefix_of_prefix hlonger (List.prefix_append chars rest) with hle | hle
    · exact hle.length_le
    · obtain ⟨more, rfl⟩ := hle
      obtain ⟨after, rfl⟩ := (List.prefix_append_right_inj chars).1 hlonger
      -- both are read at the front of one text, so they have one length
      have hmore : Lexeme chars token more := h.of_head? fun c hc => by
        rw [List.head?_append, Option.mem_def.1 hc]
        rfl
      have hwhole : Lexeme (chars ++ more) other [] := hspells.lexeme nofun
      obtain ⟨c, cs, rfl, -⟩ := hmore.exists_eq_cons
      have hread := hmore.lexeme_eq 0 rfl
      rw [hwhole.lexeme_eq 0 (List.append_nil _).symm] at hread
      exact (Prod.mk.inj (Except.ok.inj hread)).2.le
  isIdentStart_eq_false := by
    rintro x rfl c hc
    cases h with
    | number hends => exact (hends c hc).2.1

theorem IsLongest.lexeme (h : IsLongest chars token rest) : Lexeme chars token rest := by
  cases rest with
  | nil => exact h.spells.lexeme nofun
  | cons c after =>
      have hletter := h.isIdentStart_eq_false
      cases h.spells with
      | number n =>
          refine .number ?_
          rintro _ ⟨⟩
          refine ⟨?_, hletter _ rfl c rfl, ?_⟩
          · rw [← Bool.not_eq_true]
            intro hdigit
            obtain ⟨m, hm⟩ := n.exists_text_eq_concat_digit hdigit
            exact h.ne_concat (.number m) hm
          · rintro rfl
            by_contra hnone
            rw [not_or, Option.not_isSome_iff_eq_none, Option.not_isSome_iff_eq_none] at hnone
            obtain ⟨m, hm⟩ := n.exists_text_eq_concat_point hnone.1 hnone.2
            exact h.ne_concat (.number m) hm
      | string hclose hquoted => exact .string hclose hquoted
      | ident hstart hmore =>
          refine .ident hstart hmore ?_
          rintro _ ⟨⟩
          rw [← Bool.not_eq_true]
          intro hcontinue
          refine h.ne_concat (.ident hstart fun d hd => ?_) rfl
          rcases List.mem_append.1 hd with hd | hd
          · exact hmore d hd
          · rwa [List.mem_singleton.1 hd]
      | symbol s =>
          refine .symbol ?_
          rintro hmem ⟨⟩
          obtain ⟨t, ht⟩ := Symbol.exists_text_eq_concat hmem
          exact h.ne_concat (.symbol t) ht

/-- What is read at the front of a text is the longest that stands there. -/
theorem lexeme_iff_isLongest : Lexeme chars token rest ↔ IsLongest chars token rest :=
  ⟨Lexeme.isLongest, IsLongest.lexeme⟩

/-! ## Splitting a text -/

/-- A text that is split into blanks and lexemes, each the longest at its place, and the tokens of the
lexemes. -/
inductive Splits : List Char → List Token → Prop
  | nil : Splits [] []
  | blank {c : Char} {cs : List Char} {tokens : List Token} :
      Text.isBlank c = true → Splits cs tokens → Splits (c :: cs) tokens
  | lexeme {chars rest : List Char} {token : Token} {tokens : List Token} :
      IsLongest chars token rest → Splits rest tokens → Splits (chars ++ rest) (token :: tokens)

theorem lexes_iff_splits {cs : List Char} {tokens : List Token} :
    Lexes cs tokens ↔ Splits cs tokens := by
  constructor
  · intro h
    induction h with
    | nil => exact .nil
    | blank hblank _ ih => exact .blank hblank ih
    | token hlexeme _ ih => exact .lexeme hlexeme.isLongest ih
  · intro h
    induction h with
    | nil => exact .nil
    | blank hblank _ ih => exact .blank hblank ih
    | lexeme hlongest _ ih => exact .token hlongest.lexeme ih

/-- **The longest lexemes.**  A text has tokens exactly if it can be split into blanks and lexemes, of
which each is the longest that stands at its place, and then its tokens are theirs. -/
theorem tokenize_eq_ok_iff_splits {source : String} {tokens : List Token} :
    tokenize source = .ok tokens ↔ Splits source.toList tokens := by
  rw [tokenize_eq_ok_iff, lexes_iff_splits]

end Workflow
