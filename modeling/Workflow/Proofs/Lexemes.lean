import Workflow.Proofs.Numerals

/-!
# Lexemes

What a text is read as, said without the scan: a sequence of lexemes with blanks between them, each
of which ends where the text goes on.

* `Lexeme` relates the characters of a token to the token, given what follows.
* `exists_lexeme` and `Lexeme.lexeme_eq` say that these are the tokens that are read, and
  `lexemeInduction` goes through a text from one to the next.
* `Lexes` relates a text to its tokens, and `tokenizeFrom_eq_ok_iff` says that they are what is read,
  wherever the text is said to start.
-/

namespace Workflow

/-! ## Strings -/

/-- What stands between quotes, and the characters that it is read as. -/
inductive Quoted (close : Char) : List Char → List Char → Prop
  | nil : Quoted close [] []
  | escape {e : Char} {body s : List Char} :
      Quoted close body s → Quoted close ('\\' :: e :: body) (unescape e :: s)
  | plain {c : Char} {body s : List Char} :
      c ≠ close → c ≠ '\\' → c ≠ '\n' → Quoted close body s → Quoted close (c :: body) (c :: s)

section Strings

variable {close : Char}

theorem stringBody_close (rest : List Char) : stringBody close (close :: rest) = some ([], 1) := by
  rw [stringBody.eq_def]
  exact if_pos rfl

theorem stringBody_escape (hclose : close ≠ '\\') (e : Char) (rest : List Char) :
    stringBody close ('\\' :: e :: rest) =
      (stringBody close rest).map fun (s, n) => (unescape e :: s, n + 2) := by
  rw [stringBody.eq_def]
  exact (if_neg (Ne.symm hclose)).trans (if_pos rfl)

theorem stringBody_plain {c : Char} (hc : c ≠ close) (hescape : c ≠ '\\') (hline : c ≠ '\n')
    (rest : List Char) :
    stringBody close (c :: rest) = (stringBody close rest).map fun (s, n) => (c :: s, n + 1) := by
  rw [stringBody.eq_def]
  exact (if_neg hc).trans ((if_neg hescape).trans (if_neg hline))

theorem Quoted.stringBody_append {body s : List Char} (h : Quoted close body s)
    (hclose : close ≠ '\\') (rest : List Char) :
    stringBody close (body ++ close :: rest) = some (s, body.length + 1) := by
  induction h with
  | nil => exact stringBody_close rest
  | escape _ ih => simp [stringBody_escape hclose, ih]
  | plain hc hescape hline _ ih => simp [stringBody_plain hc hescape hline, ih]

/-- Characters without a meaning of their own are read as they are. -/
theorem Quoted.append_of_plain {ds body s : List Char}
    (hds : ∀ c ∈ ds, c ≠ close ∧ c ≠ '\\' ∧ c ≠ '\n') (h : Quoted close body s) :
    Quoted close (ds ++ body) (ds ++ s) := by
  induction ds with
  | nil => exact h
  | cons d ds ih =>
      obtain ⟨hclose, hescape, hline⟩ := hds d List.mem_cons_self
      exact .plain hclose hescape hline (ih fun c hc => hds c (List.mem_cons_of_mem _ hc))

theorem exists_quoted {cs s : List Char} {n : Nat} (h : stringBody close cs = some (s, n)) :
    ∃ body rest, cs = body ++ close :: rest ∧ Quoted close body s ∧ n = body.length + 1 := by
  induction cs using stringBody.induct close generalizing s n with
  | case1 => cases h
  | case2 rest =>
      rw [stringBody_close] at h
      cases h
      exact ⟨[], rest, rfl, .nil, rfl⟩
  | case3 hclose =>
      rw [stringBody.eq_def] at h
      simp [hclose] at h
  | case4 e rest hclose ih =>
      rw [stringBody_escape (Ne.symm hclose), Option.map_eq_some_iff] at h
      obtain ⟨⟨t, m⟩, ht, heq⟩ := h
      obtain ⟨rfl, rfl⟩ := Prod.mk.inj heq
      obtain ⟨body, more, rfl, hbody, rfl⟩ := ih ht
      exact ⟨'\\' :: e :: body, more, rfl, .escape hbody, rfl⟩
  | case5 rest hclose hescape =>
      rw [stringBody.eq_def] at h
      simp [hclose] at h
  | case6 c rest hc hescape hline ih =>
      rw [stringBody_plain hc hescape hline, Option.map_eq_some_iff] at h
      obtain ⟨⟨t, m⟩, ht, heq⟩ := h
      obtain ⟨rfl, rfl⟩ := Prod.mk.inj heq
      obtain ⟨body, more, rfl, hbody, rfl⟩ := ih ht
      exact ⟨c :: body, more, rfl, .plain hc hescape hline hbody, rfl⟩

end Strings

/-! ## Symbols -/

/-- Whether a symbol ends where a text goes on: some symbols would be longer if `=` followed. -/
def Symbol.Ends (s : Symbol) (rest : List Char) : Prop :=
  s ∈ [less, greater, bang, equal, notEqual] → rest.head? ≠ some '='

theorem head?_ne_some {c : Char} {cs : List Char} (h : ∀ rest, cs = c :: rest → False) :
    cs.head? ≠ some c := by
  cases cs with
  | nil => simp
  | cons d rest =>
      rintro hd
      cases hd
      exact h rest rfl

theorem Symbol.Ends.symbolAt?_eq {s : Symbol} {c : Char} {cs rest : List Char} (h : s.Ends rest)
    (hcs : c :: cs = s.text.toList ++ rest) : symbolAt? c cs = some (s, s.text.toList.length) := by
  cases s
  case less | greater | bang | equal | notEqual =>
    have hnext : ∀ after, rest ≠ '=' :: after := by
      rintro after rfl
      exact h (by decide) rfl
    simp only [text, String.reduceToList, List.cons_append, List.nil_append,
      List.cons.injEq] at hcs
    obtain ⟨rfl, rfl⟩ := hcs
    simp [symbolAt?, hnext, text]
  all_goals
    cases hcs
    rfl

theorem symbolAt?_eq_some_iff {c : Char} {cs : List Char} {s : Symbol} {n : Nat} :
    symbolAt? c cs = some (s, n) ↔
      ∃ rest, c :: cs = s.text.toList ++ rest ∧ s.Ends rest ∧ n = s.text.toList.length := by
  constructor
  · intro h
    fun_cases symbolAt? c cs
    all_goals simp only [symbolAt?] at h
    case mp.case19 => cases h
    all_goals
      cases h
      refine ⟨_, rfl, fun hmem => ?_, rfl⟩
    -- of a symbol that could be longer, the pattern of the longer one was tried before
    case mp.case9.refl hlonger => exact head?_ne_some hlonger
    case mp.case11.refl hlonger => exact head?_ne_some hlonger
    case mp.case13.refl hlonger => exact head?_ne_some hlonger
    case mp.case15.refl hlonger => exact head?_ne_some hlonger
    case mp.case16.refl _ hlonger => exact head?_ne_some hlonger
    all_goals exact absurd hmem (by decide)
  · rintro ⟨rest, hcs, hends, rfl⟩
    exact hends.symbolAt?_eq hcs

/-- No symbol starts as a blank or any other lexeme does. -/
theorem Symbol.exists_text_eq (s : Symbol) : ∃ c cs, s.text.toList = c :: cs ∧
    Text.isBlank c = false ∧ (c.isDigit || c == '.') = false ∧ (c == '"' || c == '\'') = false ∧
      isIdentStart c = false := by
  cases s <;> exact ⟨_, _, rfl, by decide, by decide, by decide, by decide⟩

/-! ## Single lexemes -/

/-- The characters of a token, the token, and what follows the characters. -/
inductive Lexeme : List Char → Token → List Char → Prop
  | number {n : Numeral} {rest : List Char} :
      n.Ends rest → Lexeme n.text (.number n.decimal.toFloat) rest
  | string {close : Char} {body s rest : List Char} :
      close = '"' ∨ close = '\'' → Quoted close body s →
        Lexeme (close :: (body ++ [close])) (.string (String.ofList s)) rest
  | ident {c : Char} {cs rest : List Char} :
      isIdentStart c = true → (∀ d ∈ cs, isIdentContinue d = true) →
        (∀ d ∈ rest.head?, isIdentContinue d = false) →
          Lexeme (c :: cs) (.ident (String.ofList (c :: cs))) rest
  | symbol {s : Symbol} {rest : List Char} :
      s.Ends rest → Lexeme s.text.toList (.symbol s) rest

/-- A numeral starts with a digit or a point. -/
theorem Numeral.exists_text_eq (n : Numeral) :
    ∃ c cs, n.text = c :: cs ∧ (c.isDigit || c == '.') = true := by
  have hne := n.digits_ne_nil
  cases hwhole : n.whole with
  | cons c cs =>
      have hc := n.isDigit_whole c (hwhole ▸ List.mem_cons_self)
      exact ⟨c, _, by rw [text, mantissa, hwhole]; rfl, by rw [hc, Bool.true_or]⟩
  | nil =>
      cases hfraction : n.fraction? with
      | none => simp [hwhole, hfraction] at hne
      | some ds => exact ⟨'.', _, by rw [text, mantissa, hwhole, hfraction]; rfl, rfl⟩

theorem Numeral.exists_text_eq_ne (n : Numeral) : ∃ c cs, n.text = c :: cs ∧ c ≠ '=' := by
  obtain ⟨c, cs, htext, hc⟩ := n.exists_text_eq
  refine ⟨c, cs, htext, ?_⟩
  rintro rfl
  exact absurd hc (by decide)

/-- Where a number may start nothing else starts. -/
theorem classes_of_isDigit {c : Char} (h : (c.isDigit || c == '.') = true) :
    Text.isBlank c = false := by
  simp only [← Bool.not_eq_true, Text.isBlank_iff]
  rw [Bool.or_eq_true, isDigit_iff, beq_iff_eq, eq_iff_toNat_eq] at h
  change _ ∨ c.toNat = 46 at h
  omega

/-- Where an identifier may start nothing else starts. -/
theorem classes_of_isIdentStart {c : Char} (h : isIdentStart c = true) :
    Text.isBlank c = false ∧ (c.isDigit || c == '.') = false ∧ (c == '"' || c == '\'') = false := by
  simp only [← Bool.not_eq_true, Text.isBlank_iff, Bool.or_eq_true, isDigit_iff, beq_iff_eq,
    eq_iff_toNat_eq]
  rw [isIdentStart_iff] at h
  change _ ∧ ¬(_ ∨ c.toNat = 46) ∧ ¬(c.toNat = 34 ∨ c.toNat = 39)
  omega

variable {chars rest : List Char} {token : Token}

/-- What the first character of a token is. -/
def Token.StartsAt : Token → Char → Prop
  | .number _, c => (c.isDigit || c == '.') = true
  | .string _, c => c = '"' ∨ c = '\''
  | .ident _, c => isIdentStart c = true
  | .symbol s, c => s.text.toList.head? = some c

theorem Lexeme.exists_eq_cons (h : Lexeme chars token rest) :
    ∃ c cs, chars = c :: cs ∧ token.StartsAt c := by
  cases h with
  | @number n _ _ => exact n.exists_text_eq
  | @string close body s _ hclose _ => exact ⟨close, _, rfl, hclose⟩
  | ident hstart _ _ => exact ⟨_, _, rfl, hstart⟩
  | @symbol s _ _ =>
      obtain ⟨c, cs, htext, -⟩ := s.exists_text_eq
      exact ⟨c, cs, htext, by rw [Token.StartsAt, htext]; rfl⟩

theorem Token.StartsAt.isBlank_eq_false {c : Char} (h : token.StartsAt c) :
    Text.isBlank c = false := by
  cases token with
  | number x => exact classes_of_isDigit h
  | string s => rcases h with rfl | rfl <;> decide
  | ident name => exact (classes_of_isIdentStart h).1
  | symbol s =>
      obtain ⟨d, ds, htext, hblank, -⟩ := s.exists_text_eq
      rw [StartsAt, htext] at h
      cases h
      exact hblank

/-- What is read at the front of a text is a lexeme that ends where the text goes on. -/
theorem exists_lexeme {offset n : Nat} {c : Char} {cs : List Char}
    (h : lexeme offset c cs = .ok (token, n)) :
    ∃ chars rest, c :: cs = chars ++ rest ∧ Lexeme chars token rest ∧ n = chars.length := by
  unfold lexeme at h
  split at h
  · obtain ⟨m, rest, hcs, hends, rfl, rfl⟩ := numberLexeme_eq_ok_iff.1 h
    exact ⟨m.text, rest, hcs, .number hends, rfl⟩
  split at h
  · rename_i hclose
    split at h
    · rename_i s width hbody
      obtain ⟨rfl, rfl⟩ := Prod.mk.inj (Except.ok.inj h)
      obtain ⟨body, rest, rfl, hquoted, rfl⟩ := exists_quoted hbody
      rw [Bool.or_eq_true, beq_iff_eq, beq_iff_eq] at hclose
      exact ⟨c :: (body ++ [c]), rest, by simp, .string hclose hquoted, by simp⟩
    · cases h
  split at h
  · rename_i hstart
    obtain ⟨rfl, rfl⟩ := Prod.mk.inj (Except.ok.inj h)
    refine ⟨c :: cs.takeWhile isIdentContinue, cs.dropWhile isIdentContinue, ?_, ?_, rfl⟩
    · rw [List.cons_append, List.takeWhile_append_dropWhile]
    · exact .ident hstart eq_true_of_mem_takeWhile head?_dropWhile_eq_false
  · split at h
    · rename_i s width hsymbol
      obtain ⟨rfl, rfl⟩ := Prod.mk.inj (Except.ok.inj h)
      obtain ⟨rest, hcs, hends, rfl⟩ := symbolAt?_eq_some_iff.1 hsymbol
      exact ⟨_, rest, hcs, .symbol hends, rfl⟩
    · cases h

/-- A lexeme at the front of a text is what is read there: its first character leaves the reader no
other choice. -/
theorem Lexeme.lexeme_eq (h : Lexeme chars token rest) (offset : Nat) {c : Char} {cs : List Char}
    (hcs : c :: cs = chars ++ rest) : lexeme offset c cs = .ok (token, chars.length) := by
  unfold lexeme
  cases h with
  | @number m _ hends =>
      obtain ⟨d, ds, htext, hd⟩ := m.exists_text_eq
      obtain ⟨rfl, -⟩ := List.cons.inj (hcs.trans (congrArg (· ++ rest) htext))
      rw [if_pos hd]
      exact numberLexeme_eq_ok_iff.2 ⟨m, rest, hcs, hends, rfl, rfl⟩
  | @string close body s _ hclose hquoted =>
      rw [List.cons_append, List.cons.injEq] at hcs
      obtain ⟨rfl, rfl⟩ := hcs
      have hescape : c ≠ '\\' := by
        rcases hclose with rfl | rfl <;> decide
      have hdigit : (c.isDigit || c == '.') = false := by
        rcases hclose with rfl | rfl <;> decide
      have hquote : (c == '"' || c == '\'') = true := by
        rcases hclose with rfl | rfl <;> decide
      rw [hdigit, if_neg Bool.false_ne_true, if_pos hquote, List.append_assoc,
        List.singleton_append, hquoted.stringBody_append hescape]
      simp
  | @ident d ds _ hstart hcontinue hends =>
      rw [List.cons_append, List.cons.injEq] at hcs
      obtain ⟨rfl, rfl⟩ := hcs
      obtain ⟨-, hdigit, hquote⟩ := classes_of_isIdentStart hstart
      rw [hdigit, hquote, if_neg Bool.false_ne_true, if_neg Bool.false_ne_true, if_pos hstart,
        takeWhile_append_eq hcontinue hends]
  | @symbol s _ hends =>
      obtain ⟨d, ds, htext, -, hdigit, hquote, hstart⟩ := s.exists_text_eq
      obtain ⟨rfl, -⟩ := List.cons.inj (hcs.trans (congrArg (· ++ rest) htext))
      rw [hdigit, hquote, hstart, hends.symbolAt?_eq hcs]
      rfl

/-! ## Whole texts -/

/-- A text and its tokens. -/
inductive Lexes : List Char → List Token → Prop
  | nil : Lexes [] []
  | blank {c : Char} {cs : List Char} {tokens : List Token} :
      Text.isBlank c = true → Lexes cs tokens → Lexes (c :: cs) tokens
  | token {chars rest : List Char} {token : Token} {tokens : List Token} :
      Lexeme chars token rest → Lexes rest tokens → Lexes (chars ++ rest) (token :: tokens)

theorem lexes_number (n : Numeral) {rest : List Char} {tokens : List Token}
    (hrest : ∀ c ∈ rest.head?, isIdentContinue c = false ∧ c ≠ '.') (h : Lexes rest tokens) :
    Lexes (n.text ++ rest) (.number n.decimal.toFloat :: tokens) := by
  refine .token (.number fun c hc => ?_) h
  obtain ⟨hcontinue, hpoint⟩ := hrest c hc
  rw [← Bool.not_eq_true, isIdentContinue_iff, not_or, Bool.not_eq_true, Bool.not_eq_true]
    at hcontinue
  exact ⟨hcontinue.2, hcontinue.1, fun heq => absurd heq hpoint⟩

/-- A name that starts with a letter or an underscore and goes on with letters, digits and
underscores. -/
def IsName (name : String) : Prop :=
  ∃ first rest, name.toList = first :: rest ∧ (first.isAlpha = true ∨ first = '_') ∧
    ∀ c ∈ rest, c.isAlphanum = true ∨ c = '_'

theorem isName_of_keyword? {name : String} (h : (keyword? name).isSome) : IsName name := by
  have hname : name = "true" ∨ name = "false" ∨ (name = "null" ∨ name = "undefined") ∨
      name = "NaN" ∨ name = "Infinity" := by
    unfold keyword? at h
    split_ifs at h <;> simp_all only [true_or, or_true]
    cases h
  rw [IsName]
  rcases hname with rfl | rfl | (rfl | rfl) | rfl | rfl <;> simp only [String.reduceToList] <;>
    refine ⟨_, _, rfl, by decide, List.forall_iff_forall_mem.1 ?_⟩ <;> decide

theorem lexes_ident {name : String} {rest : List Char} {tokens : List Token} (hname : IsName name)
    (hrest : ∀ c ∈ rest.head?, isIdentContinue c = false) (h : Lexes rest tokens) :
    Lexes (name.toList ++ rest) (.ident name :: tokens) := by
  obtain ⟨first, more, hlist, hfirst, hmore⟩ := hname
  have hstart : isIdentStart first = true := by
    rcases hfirst with hfirst | rfl
    · rw [isIdentStart, hfirst, Bool.true_or, Bool.true_or]
    · decide
  have hcontinue : ∀ c ∈ more, isIdentContinue c = true := by
    intro c hc
    rw [isIdentContinue, isIdentStart]
    rcases hmore c hc with hc | rfl
    · rw [Char.isAlphanum, Bool.or_eq_true] at hc
      rcases hc with hc | hc <;> simp [hc]
    · decide
  have hlexeme := Lexeme.ident hstart hcontinue hrest
  rw [← hlist, String.ofList_toList] at hlexeme
  exact .token hlexeme h

/-! ## From one lexeme to the next -/

theorem tokenizeFrom_nil (offset : Nat) : tokenizeFrom offset [] = .ok [] := by
  rw [tokenizeFrom.eq_def]

theorem tokenizeFrom_blank {c : Char} (hc : Text.isBlank c = true) (offset : Nat)
    (rest : List Char) :
    tokenizeFrom offset (c :: rest) = tokenizeFrom (offset + c.utf8Size) rest := by
  rw [tokenizeFrom.eq_def]
  exact if_pos hc

/-- What is neither a blank nor starts a lexeme is where reading ends. -/
theorem tokenizeFrom_of_lexeme_eq_error {offset : Nat} {c : Char} {cs : List Char}
    {fault : ExprError} (hc : Text.isBlank c = false) (h : lexeme offset c cs = .error fault) :
    tokenizeFrom offset (c :: cs) = .error fault := by
  rw [tokenizeFrom.eq_def]
  simp only [hc, Bool.false_eq_true, if_false, h]

/-- A text that starts with a lexeme is read as the token and what the rest is read as. -/
theorem Lexeme.tokenizeFrom_append (h : Lexeme chars token rest) (offset : Nat) :
    tokenizeFrom offset (chars ++ rest) =
      (tokenizeFrom (offset + Text.byteLength chars) rest).map (token :: ·) := by
  obtain ⟨c, cs, rfl, hstart⟩ := h.exists_eq_cons
  have hread : lexeme offset c (cs ++ rest) = .ok (token, cs.length + 1) := h.lexeme_eq offset rfl
  rw [List.cons_append, tokenizeFrom.eq_def]
  simp only [hstart.isBlank_eq_false, Bool.false_eq_true, if_false, hread, Nat.add_sub_cancel,
    List.take_left, List.drop_left]

/-- A text is nothing, a blank and a text, a lexeme and a text, or it starts with what is no
lexeme. -/
theorem lexemeInduction {motive : List Char → Prop} (nil : motive [])
    (blank : ∀ c cs, Text.isBlank c = true → motive cs → motive (c :: cs))
    (token : ∀ chars token rest, Lexeme chars token rest → motive rest → motive (chars ++ rest))
    (fault : ∀ c cs, Text.isBlank c = false → (∀ offset, ∃ fault, lexeme offset c cs = .error fault) →
      motive (c :: cs))
    (cs : List Char) : motive cs := by
  suffices h : ∀ offset cs, motive cs from h 0 cs
  clear cs
  intro offset cs
  induction offset, cs using tokenizeFrom.induct with
  | case1 => exact nil
  | case2 offset c cs hblank ih => exact blank c cs hblank ih
  | case3 offset c cs hblank found hfound =>
      refine fault c cs (Bool.eq_false_iff.2 hblank) fun other => ?_
      cases hread : lexeme other c cs with
      | error first => exact ⟨first, rfl⟩
      | ok read =>
          -- a lexeme would be read at every offset
          obtain ⟨chars, rest, hcs, hlexeme, -⟩ := exists_lexeme hread
          rw [hlexeme.lexeme_eq offset hcs] at hfound
          cases hfound
  | case4 offset c cs hblank t width hread taken ih =>
      obtain ⟨chars, rest, hcs, hlexeme, rfl⟩ := exists_lexeme hread
      obtain ⟨d, ds, rfl, -⟩ := hlexeme.exists_eq_cons
      rw [hcs]
      rw [List.cons_append, List.cons.injEq] at hcs
      obtain ⟨rfl, rfl⟩ := hcs
      rw [List.length_cons, Nat.add_sub_cancel, List.drop_left] at ih
      exact token _ t rest hlexeme ih

theorem Lexes.tokenizeFrom_eq {cs : List Char} {tokens : List Token} (h : Lexes cs tokens)
    (offset : Nat) : tokenizeFrom offset cs = .ok tokens := by
  induction h generalizing offset with
  | nil => exact tokenizeFrom_nil offset
  | blank hblank _ ih => rw [tokenizeFrom_blank hblank, ih]
  | token hlexeme _ ih =>
      rw [hlexeme.tokenizeFrom_append, ih]
      rfl

theorem lexes_of_tokenizeFrom_eq {offset : Nat} {cs : List Char} {tokens : List Token}
    (h : tokenizeFrom offset cs = .ok tokens) : Lexes cs tokens := by
  induction cs using lexemeInduction generalizing offset tokens with
  | nil =>
      rw [tokenizeFrom_nil] at h
      cases h
      exact .nil
  | blank c cs hblank ih =>
      rw [tokenizeFrom_blank hblank] at h
      exact .blank hblank (ih h)
  | token chars token rest hlexeme ih =>
      rw [hlexeme.tokenizeFrom_append] at h
      cases hmore : tokenizeFrom (offset + Text.byteLength chars) rest with
      | error fault =>
          rw [hmore] at h
          cases h
      | ok more =>
          rw [hmore] at h
          cases h
          exact .token hlexeme (ih hmore)
  | fault c cs hblank hfaults =>
      obtain ⟨fault, hfault⟩ := hfaults offset
      rw [tokenizeFrom_of_lexeme_eq_error hblank hfault] at h
      cases h

/-- What a text is read as does not depend on where it starts. -/
theorem tokenizeFrom_eq_ok_iff {offset : Nat} {cs : List Char} {tokens : List Token} :
    tokenizeFrom offset cs = .ok tokens ↔ Lexes cs tokens :=
  ⟨lexes_of_tokenizeFrom_eq, fun h => h.tokenizeFrom_eq offset⟩

theorem tokenize_eq_ok_iff {source : String} {tokens : List Token} :
    tokenize source = .ok tokens ↔ Lexes source.toList tokens :=
  tokenizeFrom_eq_ok_iff

end Workflow
