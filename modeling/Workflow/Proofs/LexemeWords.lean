import Workflow.Proofs.Lexemes
import Workflow.Proofs.Words

/-!
# The words of lexemes

How words and lexemes lie in one text: a lexeme that is no identifier has no word but those that
start with a digit, and where an identifier may end a word ends, too.

* `Lexes.stops` says that no word goes on where no identifier does.
* `Numeral.mapWords_text` says that a numeral stays as it is when the words that start with a digit
  do.
* `IsName.isWhole` says that a name is a word.
-/

namespace Workflow

open Text (IsWhole Stops isWord)

variable {σ : List Char → List Char} {cs rest : List Char} {tokens : List Token}

/-- Where no word character stands there is nothing to change. -/
theorem mapWords_append_of_not_isWord (h : ∀ c ∈ cs, isWord c = false) :
    Text.mapWords σ (cs ++ rest) = cs ++ Text.mapWords σ rest := by
  induction cs with
  | nil => rfl
  | cons c cs ih =>
      rw [List.cons_append, Text.mapWords_cons (h c List.mem_cons_self),
        ih fun d hd => h d (List.mem_cons_of_mem _ hd), List.cons_append]

theorem Symbol.isWord_eq_false (s : Symbol) : ∀ c ∈ s.text.toList, isWord c = false := by
  cases s <;> simp only [text, String.reduceToList, List.mem_cons, List.not_mem_nil, or_false,
    forall_eq_or_imp, forall_eq] <;> decide

theorem Token.StartsAt.isWord_eq_false {token : Token} {c : Char} (h : token.StartsAt c)
    (hcontinue : isIdentContinue c = false) : isWord c = false := by
  rw [← Bool.not_eq_true, isIdentContinue_iff, not_or] at hcontinue
  cases token with
  | number x =>
      rw [StartsAt, Bool.or_eq_true, beq_iff_eq] at h
      rw [h.resolve_left hcontinue.2]
      decide
  | string s => rcases h with rfl | rfl <;> decide
  | ident name => exact absurd h hcontinue.1
  | symbol s => exact s.isWord_eq_false c (List.mem_of_head? h)

/-- What can be read and does not go on with an identifier does not go on with a word. -/
theorem Lexes.stops (h : Lexes cs tokens) (hends : ∀ c ∈ cs.head?, isIdentContinue c = false) :
    Stops cs := by
  cases h with
  | nil => exact Text.stops_nil
  | blank hblank _ =>
      rintro c hc
      cases hc
      exact Text.isWord_eq_false_of_isBlank hblank
  | token hlexeme _ =>
      obtain ⟨d, ds, rfl, hstart⟩ := hlexeme.exists_eq_cons
      rintro c hc
      cases hc
      exact hstart.isWord_eq_false (hends d rfl)

/-- Where a point can be read a number can. -/
theorem Lexes.exists_number (h : Lexes ('.' :: cs) tokens) :
    ∃ x more, tokens = .number x :: more := by
  generalize hcs : '.' :: cs = text at h
  cases h with
  | nil => cases hcs
  | blank hblank _ =>
      cases hcs
      exact absurd hblank (by decide)
  | @token chars rest token more hlexeme _ =>
      obtain ⟨d, ds, rfl, hstart⟩ := hlexeme.exists_eq_cons
      rw [List.cons_append, List.cons.injEq] at hcs
      obtain ⟨rfl, -⟩ := hcs
      cases token with
      | number x => exact ⟨x, more, rfl⟩
      | string s => rcases hstart with h | h <;> exact absurd h (by decide)
      | ident name =>
          rw [Token.StartsAt] at hstart
          exact absurd hstart (by decide)
      | symbol s =>
          obtain ⟨d, ds, htext, -, hpoint, -⟩ := s.exists_text_eq
          rw [Token.StartsAt, htext] at hstart
          cases hstart
          exact absurd hpoint (by decide)

/-! ## Numerals -/

theorem isWord_of_isDigit {c : Char} (h : c.isDigit = true) : isWord c = true := by
  rw [isDigit_iff] at h
  rw [Text.isWord_iff_of_lt (by omega)]
  omega

theorem isWhole_of_isDigit {d : Char} {ds : List Char} (hd : d.isDigit = true)
    (hds : ∀ c ∈ ds, isWord c = true) : IsWhole (d :: ds) := by
  refine ⟨List.cons_ne_nil _ _, fun c hc => ?_⟩
  rcases List.mem_cons.1 hc with rfl | hc
  · exact isWord_of_isDigit hd
  · exact hds c hc

/-- Where the words that start with a digit stay as they are, so do digits. -/
theorem mapWords_digits (hσ : ∀ d ds, d.isDigit = true → σ (d :: ds) = d :: ds)
    {ds : List Char} (hds : ∀ c ∈ ds, c.isDigit = true) : Text.mapWords σ ds = ds := by
  cases ds with
  | nil => exact Text.mapWords_nil
  | cons d ds =>
      have hd := hds d List.mem_cons_self
      have hword : IsWhole (d :: ds) :=
        isWhole_of_isDigit hd fun c hc => isWord_of_isDigit (hds c (List.mem_cons_of_mem _ hc))
      rw [Text.mapWords_whole hword, hσ d ds hd]

/-- Digits with an exponent behind them stay as they are. -/
theorem mapWords_digits_append (hσ : ∀ d ds, d.isDigit = true → σ (d :: ds) = d :: ds)
    {ds : List Char} (hds : ∀ c ∈ ds, c.isDigit = true) {x? : Option Exponent}
    (hne : ds ≠ [] ∨ x? = none) :
    Text.mapWords σ (ds ++ x?.elim [] Exponent.text) = ds ++ x?.elim [] Exponent.text := by
  cases x? with
  | none => rw [Option.elim_none, List.append_nil, mapWords_digits hσ hds]
  | some x =>
      obtain ⟨d, ds, rfl⟩ := List.exists_cons_of_ne_nil (hne.resolve_right nofun)
      have hd := hds d List.mem_cons_self
      have hmark : isWord x.mark = true := by
        rcases x.mark_eq with h | h <;> rw [h] <;> decide
      have hword : ∀ c ∈ ds ++ [x.mark], isWord c = true := by
        intro c hc
        rcases List.mem_append.1 hc with hc | hc
        · exact isWord_of_isDigit (hds c (List.mem_cons_of_mem _ hc))
        · cases List.mem_singleton.1 hc
          exact hmark
      have hsplit : d :: ds ++ x.text = d :: (ds ++ [x.mark]) ++ (x.sign ++ x.digits) := by
        simp [Exponent.text]
      rw [Option.elim_some, hsplit]
      rcases x.sign_eq with hsign | hsign
      · -- the digits of the exponent belong to the word
        rw [hsign, List.nil_append, List.cons_append]
        have hall : ∀ c ∈ ds ++ [x.mark] ++ x.digits, isWord c = true := by
          intro c hc
          rcases List.mem_append.1 hc with hc | hc
          · exact hword c hc
          · exact isWord_of_isDigit (x.isDigit_of_mem c hc)
        rw [Text.mapWords_whole (isWhole_of_isDigit hd hall), hσ d _ hd]
      · have hother : ∃ c, x.sign = [c] ∧ isWord c = false := by
          rcases hsign with h | h <;> exact ⟨_, h, by decide⟩
        obtain ⟨c, hc, hother⟩ := hother
        have hstops : Stops (c :: x.digits) := by
          rintro b hb
          cases hb
          exact hother
        rw [hc, List.singleton_append, Text.mapWords_word (isWhole_of_isDigit hd hword) hstops,
          hσ d _ hd, Text.mapWords_cons hother, mapWords_digits hσ x.isDigit_of_mem]

/-- Words that start with a digit are all the words of a numeral, unless its exponent stands right
after the point. -/
theorem Numeral.mapWords_text (n : Numeral)
    (hσ : ∀ d ds, d.isDigit = true → σ (d :: ds) = d :: ds)
    (hpoint : n.fraction? = some [] → n.exponent? = none) :
    Text.mapWords σ n.text = n.text := by
  rw [text, mantissa]
  cases hfraction : n.fraction? with
  | none =>
      have hne : n.whole ≠ [] := by simpa [hfraction] using n.digits_ne_nil
      rw [Option.elim_none, List.append_nil, mapWords_digits_append hσ n.isDigit_whole (.inl hne)]
  | some ds =>
      have hdigits : ds ≠ [] ∨ n.exponent? = none := by
        by_cases hds : ds = []
        · exact .inr (hpoint (hfraction.trans (congrArg some hds)))
        · exact .inl hds
      have hwhole := mapWords_digits hσ n.isDigit_whole
      have hstops : Stops ('.' :: (ds ++ n.exponent?.elim [] Exponent.text)) := by
        rintro c hc
        cases hc
        decide
      rw [Option.elim_some, List.append_assoc, List.cons_append, Text.mapWords_append hstops, hwhole,
        Text.mapWords_cons (by decide),
        mapWords_digits_append hσ (n.isDigit_fraction ds hfraction) hdigits]

/-! ## Names -/

namespace IsName

variable {name : String}

theorem isWord_of_mem (h : IsName name) : ∀ c ∈ name.toList, isWord c = true := by
  have hword : ∀ c : Char, (c.isAlphanum = true ∨ c = '_') → isWord c = true := by
    rintro c (hc | rfl)
    · rw [Char.isAlphanum, Bool.or_eq_true, isAlpha_iff, isDigit_iff] at hc
      rw [Text.isWord_iff_of_lt (by omega)]
      omega
    · decide
  obtain ⟨first, rest, hlist, hfirst, hrest⟩ := h
  rw [hlist]
  intro c hc
  rcases List.mem_cons.1 hc with rfl | hc
  · refine hword c (hfirst.imp_left fun hc => ?_)
    rw [Char.isAlphanum, hc, Bool.true_or]
  · exact hword c (hrest c hc)

theorem isWhole (h : IsName name) : IsWhole name.toList := by
  refine ⟨?_, h.isWord_of_mem⟩
  obtain ⟨first, rest, hlist, -⟩ := h
  rw [hlist]
  exact List.cons_ne_nil _ _

theorem not_isDigit (h : IsName name) {d : Char} {ds : List Char} (hd : d.isDigit = true) :
    name.toList ≠ d :: ds := by
  obtain ⟨first, rest, hlist, hfirst, -⟩ := h
  rw [hlist]
  intro heq
  cases heq
  rw [isDigit_iff] at hd
  rcases hfirst with hfirst | rfl
  · rw [isAlpha_iff] at hfirst
    omega
  · exact absurd hd (by decide)

end IsName

end Workflow
