import Workflow.Proofs.Identifiers
import Workflow.Proofs.LexicalFaults

/-!
# The screen and the reader

A condition is screened before it is read.  The screen goes character by character; the reader also
goes by what follows.  What passes the screen can still fail to be read, but only in a few ways, and
which they are can be said without the reader.

* `Refuses` says where in a permitted text there is no lexeme, and what the fault is.
* `FaultOf` are the faults of the parsers: what they name is one of the tokens.
* `screen_fits_reader` says that these are all the faults of permitted texts.
-/

namespace Workflow

/-! ## What is no lexeme -/

/-- At the front of a text, at an offset, there is no lexeme though the first character is
permitted. -/
inductive Refuses (offset : Nat) : List Char → ExprError → Prop
  /-- A sign that is only half an operator. -/
  | lone {c : Char} {rest : List Char} : c ∈ ['=', '&', '|'] → rest.head? ≠ some c →
      Refuses offset (c :: rest) (.unexpectedCharacter c offset)
  | point {rest : List Char} : (∀ d ∈ rest.head?, isIdentContinue d = false) →
      Refuses offset ('.' :: rest) (.unexpectedCharacter '.' offset)
  /-- Something that starts as a number and is none.  The fault shows how it starts. -/
  | number {c : Char} {rest : List Char} {text : String} :
      (c.isDigit = true ∨ c = '.' ∧ ∃ d ∈ rest.head?, isIdentContinue d = true) →
      (¬∃ (n : Numeral) (after : List Char), c :: rest = n.text ++ after ∧ n.Ends after) →
      text.toList <+: c :: rest → Refuses offset (c :: rest) (.invalidNumber text)
  | quote {c : Char} {rest : List Char} : c = '"' ∨ c = '\'' →
      (¬∃ body s after, Quoted c body s ∧ rest = body ++ c :: after) →
      Refuses offset (c :: rest) (.unterminatedString offset)

section Numbers

variable {offset : Nat} {c : Char} {rest cs : List Char} {fault : ExprError}

/-- Only a point is tried as a number where no digit follows a point. -/
theorem numberText_eq_point_iff :
    numberText ('.' :: rest) = ['.'] ↔ ∀ d ∈ rest.head?, d.isDigit = false := by
  have hmantissa : (Decimal.spanDigits ('.' :: rest)).1 ++
      Numeral.pointText (Decimal.spanDigits ('.' :: rest)).2 =
        '.' :: rest.takeWhile Char.isDigit := by
    simp [Decimal.spanDigits, Numeral.pointText]
  rw [Numeral.numberText_eq, hmantissa]
  constructor
  · intro h
    have hnone : rest.takeWhile Char.isDigit = [] := by
      split at h
      · simp only [List.cons_append, List.cons.injEq, List.append_eq_nil_iff, true_and] at h
        exact h.1
      · simpa using h
    intro d hd
    cases rest with
    | nil => cases hd
    | cons e rest =>
        cases hd
        by_contra hdigit
        rw [List.takeWhile_cons_of_pos (Bool.not_eq_false _ ▸ hdigit)] at hnone
        cases hnone
  · intro h
    have hnone : rest.takeWhile Char.isDigit = [] := by
      cases rest with
      | nil => rfl
      | cons e rest => exact List.takeWhile_cons_of_neg (by simp [h e rfl])
    simp [hnone]

theorem isPrefix_exponentText (cs : List Char) : exponentText cs <+: cs := by
  cases cs with
  | nil => exact List.prefix_rfl
  | cons mark rest =>
      by_cases hmark : mark = 'e' ∨ mark = 'E'
      · obtain ⟨sign, after, rfl, -, htext⟩ := Numeral.exists_sign hmark rest
        rw [htext, List.prefix_cons_inj, List.prefix_append_right_inj]
        exact List.takeWhile_prefix _
      · have hnone : exponentText (mark :: rest) = [] := if_neg hmark
        rw [hnone]
        exact List.nil_prefix

theorem isPrefix_pointText (cs : List Char) : Numeral.pointText cs <+: cs := by
  unfold Numeral.pointText
  split
  · exact (List.prefix_cons_inj _).2 (List.takeWhile_prefix _)
  · exact List.nil_prefix

/-- What is tried as a number stands at the front of the text. -/
theorem isPrefix_numberText (cs : List Char) : numberText cs <+: cs := by
  have hmantissa : (Decimal.spanDigits cs).1 ++ Numeral.pointText (Decimal.spanDigits cs).2 <+:
      cs := by
    have hspan : (Decimal.spanDigits cs).1 ++ (Decimal.spanDigits cs).2 = cs :=
      List.takeWhile_append_dropWhile
    conv_rhs => rw [← hspan]
    exact (List.prefix_append_right_inj _).2 (isPrefix_pointText _)
  rw [Numeral.numberText_eq]
  generalize (Decimal.spanDigits cs).1 ++ Numeral.pointText (Decimal.spanDigits cs).2 = mantissa
    at hmantissa ⊢
  obtain ⟨after, rfl⟩ := hmantissa
  split
  · rw [List.drop_left, List.prefix_append_right_inj]
    exact isPrefix_exponentText after
  · exact List.prefix_append ..

theorem isPrefix_append_singleton {text : List Char} {d : Char} (htext : text <+: cs)
    (hd : (cs.drop text.length).head? = some d) : text ++ [d] <+: cs := by
  obtain ⟨after, rfl⟩ := htext
  rw [List.drop_left] at hd
  obtain ⟨after, rfl⟩ := List.head?_eq_some_iff.1 hd
  exact ⟨after, List.append_assoc ..⟩

theorem refuses_of_numberLexeme (hc : c.isDigit = true ∨ c = '.')
    (h : numberLexeme offset (c :: rest) = .error fault) : Refuses offset (c :: rest) fault := by
  have hnumeral : ¬∃ (n : Numeral) (after : List Char), c :: rest = n.text ++ after ∧
      n.Ends after := by
    rintro ⟨n, after, hcs, hends⟩
    rw [numberLexeme_eq_ok_iff.2 ⟨n, after, hcs, hends, rfl, rfl⟩] at h
    cases h
  have hdigit : ∀ d ∈ rest.head?, isIdentContinue d = false → d.isDigit = false := by
    intro d _ hd
    rw [isIdentContinue, Bool.or_eq_false_iff] at hd
    exact hd.2
  by_cases hpoint : c = '.' ∧ ∀ d ∈ rest.head?, isIdentContinue d = false
  · obtain ⟨rfl, hrest⟩ := hpoint
    have htext : numberText ('.' :: rest) = ['.'] :=
      numberText_eq_point_iff.2 fun d hd => hdigit d hd (hrest d hd)
    have hletter : rest.head?.filter isIdentStart = none := by
      rw [Option.filter_eq_none_iff]
      intro d hd
      rw [isIdentStart_eq_false_of_isIdentContinue (hrest d hd)]
      exact Bool.false_ne_true
    simp only [numberLexeme, htext, List.length_singleton, List.drop_succ_cons, List.drop_zero,
      hletter, if_true] at h
    cases h
    exact .point hrest
  · have hstart : c.isDigit = true ∨ c = '.' ∧ ∃ d ∈ rest.head?, isIdentContinue d = true := by
      refine hc.imp_right fun hc => ⟨hc, ?_⟩
      simpa [hc] using hpoint
    simp only [numberLexeme] at h
    split at h
    · rename_i d hd
      cases h
      rw [Option.filter_eq_some_iff] at hd
      refine .number hstart hnumeral ?_
      rw [String.toList_ofList]
      exact isPrefix_append_singleton (isPrefix_numberText _) hd.1
    · rename_i hletter
      split at h
      · -- a point by itself, which neither a digit nor a letter follows
        rename_i htext
        have hfront := isPrefix_numberText (c :: rest)
        rw [htext, List.cons_prefix_cons] at hfront
        obtain rfl : '.' = c := hfront.1
        have hdigits := numberText_eq_point_iff.1 htext
        rw [htext, List.length_singleton, List.drop_succ_cons, List.drop_zero,
          Option.filter_eq_none_iff] at hletter
        refine absurd ⟨rfl, fun d hd => ?_⟩ hpoint
        rw [isIdentContinue, hdigits d hd, Bool.or_false, ← Bool.not_eq_true]
        exact hletter d hd
      · split at h
        · cases h
        · cases h
          refine .number hstart hnumeral ?_
          rw [String.toList_ofList]
          exact isPrefix_numberText _

end Numbers

section Lexemes

variable {offset : Nat} {c : Char} {rest cs : List Char} {fault : ExprError}

/-- A character that is a symbol by itself starts a symbol whatever follows it. -/
theorem symbolAt?_ne_none (hc : c ∈ ['+', '-', '*', '/', '<', '>', '!', '(', ')', ',']) :
    symbolAt? c rest ≠ none := by
  simp only [List.mem_cons, List.not_mem_nil, or_false] at hc
  unfold symbolAt?
  rcases hc with rfl | rfl | rfl | rfl | rfl | rfl | rfl | rfl | rfl | rfl <;> split <;> simp_all

theorem symbolAt?_twice_ne_none (hc : c ∈ ['=', '&', '|']) : symbolAt? c (c :: rest) ≠ none := by
  simp only [List.mem_cons, List.not_mem_nil, or_false] at hc
  unfold symbolAt?
  rcases hc with rfl | rfl | rfl <;> split <;> simp_all

/-- Of the permitted characters that start nothing else all but three are symbols. -/
theorem lone_of_symbolAt?_eq_none (hc : isPermittedChar c = true) (hblank : Text.isBlank c = false)
    (hnumber : (c.isDigit || c == '.') = false) (hquote : (c == '"' || c == '\'') = false)
    (hstart : isIdentStart c = false) (h : symbolAt? c rest = none) :
    c ∈ ['=', '&', '|'] ∧ rest.head? ≠ some c := by
  have hsigns : ("+-*/<>=!&|().,\"'".toList.all fun c =>
      (c.isDigit || c == '.') || (c == '"' || c == '\'') || ['=', '&', '|'].contains c ||
        ['+', '-', '*', '/', '<', '>', '!', '(', ')', ','].contains c) = true := by
    decide
  rw [isIdentStart, Bool.or_eq_false_iff, Bool.or_eq_false_iff] at hstart
  have hdigit : c.isDigit = false := (Bool.or_eq_false_iff.1 hnumber).1
  rw [isPermittedChar, Char.isAlphanum, hstart.1.1, hdigit, hblank, Bool.or_false, Bool.or_false,
    Bool.false_or, List.contains_iff_mem] at hc
  have hclass := List.all_eq_true.1 hsigns c hc
  rw [hnumber, hquote, Bool.false_or, Bool.false_or, Bool.or_eq_true, List.contains_iff_mem,
    List.contains_iff_mem] at hclass
  obtain hsign | hsymbol := hclass
  · refine ⟨hsign, fun htwice => ?_⟩
    obtain ⟨after, rfl⟩ := List.head?_eq_some_iff.1 htwice
    exact symbolAt?_twice_ne_none hsign h
  · exact absurd h (symbolAt?_ne_none hsymbol)

theorem refuses_of_lexeme (hc : isPermittedChar c = true) (hblank : Text.isBlank c = false)
    (h : lexeme offset c rest = .error fault) : Refuses offset (c :: rest) fault := by
  unfold lexeme at h
  split at h
  · rename_i hnumber
    rw [Bool.or_eq_true, beq_iff_eq] at hnumber
    exact refuses_of_numberLexeme hnumber h
  rename_i hnumber
  split at h
  · rename_i hquote
    rw [Bool.or_eq_true, beq_iff_eq, beq_iff_eq] at hquote
    have hescape : c ≠ '\\' := by
      rcases hquote with rfl | rfl <;> decide
    split at h
    · cases h
    · rename_i hbody
      cases h
      refine .quote hquote ?_
      rintro ⟨body, s, after, hquoted, rfl⟩
      rw [hquoted.stringBody_append hescape] at hbody
      cases hbody
  rename_i hquote
  split at h
  · cases h
  rename_i hstart
  split at h
  · cases h
  · rename_i hsymbol
    cases h
    rw [Bool.not_eq_true] at hnumber hquote hstart
    obtain ⟨hsign, htwice⟩ := lone_of_symbolAt?_eq_none hc hblank hnumber hquote hstart hsymbol
    exact .lone hsign htwice

/-- What a sign that is half an operator starts goes on with the same sign. -/
theorem Lexeme.exists_twice {chars after : List Char} {token : Token} (h : Lexeme chars token after)
    (hc : c ∈ chars.head?) (hsign : c = '=' ∨ c = '&' ∨ c = '|') : ∃ ds, chars = c :: c :: ds := by
  cases h with
  | @number n _ _ =>
      obtain ⟨d, ds, htext, hnumber⟩ := n.exists_text_eq
      rw [htext] at hc
      cases hc
      rcases hsign with rfl | rfl | rfl <;> cases hnumber
  | string hclose _ =>
      cases hc
      rcases hsign with rfl | rfl | rfl <;> rcases hclose with hclose | hclose <;> cases hclose
  | ident hstart _ _ =>
      cases hc
      rcases hsign with rfl | rfl | rfl <;> exact absurd hstart (by decide)
  | @symbol s _ _ =>
      cases s
      case equal | strictEqual | and | or =>
        cases hc
        exact ⟨_, rfl⟩
      all_goals
        cases hc
        rcases hsign with hsign | hsign | hsign <;> cases hsign

theorem Lexeme.exists_numeral {chars after : List Char} {token : Token}
    (h : Lexeme chars token after) (hc : c ∈ chars.head?)
    (hnumber : (c.isDigit || c == '.') = true) :
    ∃ n : Numeral, chars = n.text ∧ n.Ends after := by
  cases h with
  | number hends => exact ⟨_, rfl, hends⟩
  | string hclose _ =>
      cases hc
      rcases hclose with rfl | rfl <;> cases hnumber
  | ident hstart _ _ =>
      cases hc
      exact absurd ((classes_of_isIdentStart hstart).2.1.symm.trans hnumber) (by decide)
  | @symbol s _ _ =>
      obtain ⟨d, ds, htext, -, hother, -⟩ := s.exists_text_eq
      rw [htext] at hc
      cases hc
      exact absurd (hother.symm.trans hnumber) (by decide)

theorem Lexeme.exists_quoted {chars after : List Char} {token : Token}
    (h : Lexeme chars token after) (hc : c ∈ chars.head?) (hquote : c = '"' ∨ c = '\'') :
    ∃ body s, chars = c :: (body ++ [c]) ∧ Quoted c body s := by
  cases h with
  | @number n _ _ =>
      obtain ⟨d, ds, htext, hnumber⟩ := n.exists_text_eq
      rw [htext] at hc
      cases hc
      rcases hquote with rfl | rfl <;> cases hnumber
  | string _ hquoted =>
      cases hc
      exact ⟨_, _, rfl, hquoted⟩
  | ident hstart _ _ =>
      cases hc
      rcases hquote with rfl | rfl <;> exact absurd hstart (by decide)
  | @symbol s _ _ =>
      obtain ⟨d, ds, htext, -, -, hother, -⟩ := s.exists_text_eq
      rw [htext] at hc
      cases hc
      rcases hquote with rfl | rfl <;> cases hother

/-- Where something is refused there is no lexeme. -/
theorem Refuses.not_lexeme {chars after : List Char} {token : Token} (h : Refuses offset cs fault)
    (hcs : cs = chars ++ after) : ¬Lexeme chars token after := by
  intro hlexeme
  have hhead : ∀ d ∈ cs.head?, d ∈ chars.head? := by
    obtain ⟨d, ds, rfl, -⟩ := hlexeme.exists_eq_cons
    subst hcs
    exact fun e he => he
  cases h with
  | @lone c rest hsign htwice =>
      obtain ⟨ds, rfl⟩ := hlexeme.exists_twice (hhead c rfl) (by simpa using hsign)
      obtain ⟨-, rfl⟩ := List.cons.inj hcs
      exact htwice rfl
  | @point rest hrest =>
      obtain ⟨n, rfl, hends⟩ := hlexeme.exists_numeral (hhead '.' rfl) rfl
      -- of the text only the point is tried as a number, and a point is no number
      have htext : numberText ('.' :: rest) = ['.'] :=
        numberText_eq_point_iff.2 fun d hd => (Bool.or_eq_false_iff.1 (hrest d hd)).2
      rw [hcs, hends.numberText_append] at htext
      have hvalue := n.ofText?_text
      rw [htext] at hvalue
      cases hvalue
  | @number c rest text hnumber hnumeral _ =>
      have hc : (c.isDigit || c == '.') = true := by
        rw [Bool.or_eq_true, beq_iff_eq]
        exact hnumber.imp_right And.left
      obtain ⟨n, rfl, hends⟩ := hlexeme.exists_numeral (hhead c rfl) hc
      exact hnumeral ⟨n, after, hcs, hends⟩
  | @quote c rest hquote hquoted =>
      obtain ⟨body, s, rfl, hbody⟩ := hlexeme.exists_quoted (hhead c rfl) hquote
      refine hquoted ⟨body, s, after, hbody, ?_⟩
      simpa using hcs

/-- Blanks are never refused. -/
theorem Refuses.isBlank_eq_false (h : Refuses offset (c :: rest) fault) :
    Text.isBlank c = false := by
  cases h with
  | lone hsign _ =>
      simp only [List.mem_cons, List.not_mem_nil, or_false] at hsign
      rcases hsign with rfl | rfl | rfl <;> decide
  | point _ => decide
  | number hnumber _ _ =>
      apply classes_of_isDigit
      rw [Bool.or_eq_true, beq_iff_eq]
      exact hnumber.imp_right And.left
  | quote hquote _ => rcases hquote with rfl | rfl <;> decide

/-- A permitted character is a blank or starts a lexeme, unless it is refused. -/
theorem not_refuses_iff (hc : isPermittedChar c = true) :
    (¬∃ fault, Refuses offset (c :: rest) fault) ↔
      Text.isBlank c = true ∨ ∃ token n, lexeme offset c rest = .ok (token, n) := by
  constructor
  · intro hnone
    by_cases hblank : Text.isBlank c = true
    · exact .inl hblank
    · rw [Bool.not_eq_true] at hblank
      cases hread : lexeme offset c rest with
      | ok read => exact .inr ⟨read.1, read.2, rfl⟩
      | error fault => exact absurd ⟨fault, refuses_of_lexeme hc hblank hread⟩ hnone
  · rintro (hblank | ⟨token, n, hread⟩) ⟨fault, hrefuses⟩
    · rw [hrefuses.isBlank_eq_false] at hblank
      cases hblank
    · obtain ⟨chars, after, hcs, hlexeme, -⟩ := exists_lexeme hread
      exact hrefuses.not_lexeme hcs hlexeme

end Lexemes

/-- Of a permitted text that cannot be read the front can be read, up to where something is
refused. -/
theorem exists_refuses_of_tokenize_eq_error {source : String} {fault : ExprError}
    (hpermitted : isPermitted source = true) (h : tokenize source = .error fault) :
    ∃ before after tokens, source = before ++ after ∧ tokenize before = .ok tokens ∧
      Refuses before.utf8ByteSize after.toList fault := by
  obtain ⟨front, c, back, tokens, hsource, hfront, hblank, hfault⟩ := exists_lexeme_eq_error h
  have hc : isPermittedChar c = true := isPermitted_iff.1 hpermitted c (by simp [hsource])
  refine ⟨String.ofList front, String.ofList (c :: back), tokens, ?_, ?_, ?_⟩
  · rw [← String.toList_inj, hsource, String.toList_append, String.toList_ofList,
      String.toList_ofList]
  · rwa [tokenize_eq_ok_iff, String.toList_ofList]
  · rw [Nat.zero_add, Text.byteLength_eq_utf8ByteSize] at hfault
    rw [String.toList_ofList]
    exact refuses_of_lexeme hc hblank hfault

/-! ## Faults of the parsers -/

/-- A fault in the order of some tokens.  What it names is one of them. -/
inductive FaultOf (tokens : List Token) : ExprError → Prop
  | unknown {name : String} : .ident name ∈ tokens → keyword? name = none →
      FaultOf tokens (.unknownIdentifier name)
  | unexpected {token : Token} {expected : Expectation} : token ∈ tokens →
      FaultOf tokens (.unexpectedToken token expected)
  | ended {expected : Expectation} : FaultOf tokens (.unexpectedEnd expected)
  | tooDeep : FaultOf tokens .tooDeep

section Parsers

variable {tokens rest : List Token} {fault : ExprError}

theorem FaultOf.of_suffix (h : FaultOf rest fault) (hrest : rest <:+ tokens) :
    FaultOf tokens fault := by
  cases h with
  | unknown hmem hname => exact .unknown (hrest.mem hmem) hname
  | unexpected hmem => exact .unexpected (hrest.mem hmem)
  | ended => exact .ended
  | tooDeep => exact .tooDeep

/-- The tokens that a parser leaves are the last of those that it was given. -/
theorem Reads.isSuffix {phrase : Phrase} {depth : Nat} {e : Expr}
    (h : Reads phrase depth tokens e rest) : rest <:+ tokens := by
  induction h with
  | chain _ _ _ ihLeft ihTail => exact ihTail.trans ihLeft
  | tightest _ _ ih | primary _ ih => exact ih
  | tailEnd _ => exact List.suffix_rfl
  | operator hop _ _ _ ihRight ihTail =>
      obtain ⟨-, rfl⟩ := operatorAt?_eq_some_iff.1 hop
      exact (ihTail.trans ihRight).trans (List.suffix_cons _ _)
  | unary _ _ _ ih => exact ih.trans (List.suffix_cons _ _)
  | literal _ => exact List.suffix_cons _ _
  | group _ _ ih => exact ((List.suffix_cons _ _).trans ih).trans (List.suffix_cons _ _)

theorem faultOf_closeGroup {e : Expr} (h : closeGroup e tokens = .error fault) :
    FaultOf tokens fault := by
  unfold closeGroup at h
  split at h
  · cases h
  · cases h
    exact .unexpected List.mem_cons_self
  · cases h
    exact .ended

mutual

theorem faultOf_parseLevel {level depth : Nat} {tokens : List Token} {fault : ExprError}
    (h : parseLevel level depth tokens = .error fault) : FaultOf tokens fault := by
  rw [parseLevel] at h
  split at h
  · split at h
    · rename_i hleft
      cases h
      exact faultOf_parseLevel hleft
    · rename_i left more hleft
      exact (faultOf_parseChain h).of_suffix (reads_of_parseLevel hleft).isSuffix
  · exact faultOf_parseUnary h
termination_by (maxDepth - depth, 2 + (unaryLevel - level))

theorem faultOf_parseChain {level depth : Nat} {left : Expr} {tokens : List Token}
    {fault : ExprError} (h : parseChain level depth left tokens = .error fault) :
    FaultOf tokens fault := by
  rw [parseChain] at h
  split at h
  · cases h
  · rename_i op operand hop
    have hoperand : operand <:+ tokens := by
      obtain ⟨-, rfl⟩ := operatorAt?_eq_some_iff.1 hop
      exact List.suffix_cons _ _
    split at h
    · rename_i hdepth
      split at h
      · rename_i hright
        cases h
        exact (faultOf_parseLevel hright).of_suffix hoperand
      · rename_i right more hright
        exact (faultOf_parseChain h).of_suffix
          ((reads_of_parseLevel hright).isSuffix.trans hoperand)
    · cases h
      exact .tooDeep
termination_by (maxDepth - depth, 0)

theorem faultOf_parseUnary {depth : Nat} {tokens : List Token} {fault : ExprError}
    (h : parseUnary depth tokens = .error fault) : FaultOf tokens fault := by
  unfold parseUnary at h
  split at h
  · rename_i s more
    split at h
    · rename_i op hop
      split at h
      · rename_i hdepth
        split at h
        · rename_i hoperand
          cases h
          exact (faultOf_parseUnary hoperand).of_suffix (List.suffix_cons _ _)
        · cases h
      · cases h
        exact .tooDeep
    · exact faultOf_parsePrimary h
  · exact faultOf_parsePrimary h
termination_by (maxDepth - depth, 1)

theorem faultOf_parsePrimary {depth : Nat} {tokens : List Token} {fault : ExprError}
    (h : parsePrimary depth tokens = .error fault) : FaultOf tokens fault := by
  unfold parsePrimary at h
  split at h
  · cases h
  · cases h
  · split at h
    · cases h
    · rename_i hname
      cases h
      exact .unknown List.mem_cons_self hname
  · rename_i more
    split at h
    · rename_i hdepth
      split at h
      · rename_i hinner
        cases h
        exact (faultOf_parseLevel hinner).of_suffix (List.suffix_cons _ _)
      · rename_i inner after hinner
        exact (faultOf_closeGroup h).of_suffix
          ((reads_of_parseLevel hinner).isSuffix.trans (List.suffix_cons _ _))
    · cases h
      exact .tooDeep
  · cases h
    exact .unexpected List.mem_cons_self
  · cases h
    exact .ended
termination_by (maxDepth - depth, 0)

end

theorem faultOf_parseTokens (h : parseTokens tokens = .error fault) : FaultOf tokens fault := by
  rw [parseTokens] at h
  split at h
  · rename_i hlevel
    cases h
    exact faultOf_parseLevel hlevel
  · cases h
  · rename_i hlevel
    cases h
    exact .unexpected ((reads_of_parseLevel hlevel).isSuffix.mem List.mem_cons_self)

end Parsers

/-! ## Names -/

theorem keyword?_eq_none_iff {name : String} :
    keyword? name = none ↔
      name ∉ ["true", "false", "null", "undefined", "NaN", "Infinity"] := by
  simp only [keyword?, List.mem_cons, List.not_mem_nil, or_false]
  split_ifs <;> simp_all
  tauto

/-- A name of letters and digits that starts with a letter. -/
def IsAlphanumericName (name : String) : Prop :=
  ∃ first rest, name.toList = first :: rest ∧ first.isAlpha = true ∧
    ∀ c ∈ rest, c.isAlphanum = true

theorem isAlphanum_of_isPermittedChar {c : Char} (hc : isPermittedChar c = true)
    (hcontinue : isIdentContinue c = true) : c.isAlphanum = true := by
  have hother : ¬(c = '_' ∨ c = '$') := by
    rintro (rfl | rfl) <;> exact absurd hc (by decide)
  rw [isIdentContinue, isIdentStart, Bool.or_eq_true, Bool.or_eq_true, Bool.or_eq_true, beq_iff_eq,
    beq_iff_eq] at hcontinue
  rw [Char.isAlphanum, Bool.or_eq_true]
  tauto

/-- An identifier of a permitted text has no underscore and no dollar sign. -/
theorem isAlphanumericName_of_mem {source name : String} {tokens : List Token}
    (hpermitted : isPermitted source = true) (hread : tokenize source = .ok tokens)
    (hmem : .ident name ∈ tokens) : IsAlphanumericName name := by
  obtain ⟨before, chars, after, hsource, hlexeme⟩ :=
    (tokenize_eq_ok_iff.1 hread).exists_lexeme hmem
  obtain ⟨rfl, ⟨first, rest, hname, hfirst, hrest⟩, -⟩ := hlexeme.ident_inv
  have halphanum : ∀ c ∈ name.toList, isIdentContinue c = true → c.isAlphanum = true :=
    fun c hc => isAlphanum_of_isPermittedChar
      (isPermitted_iff.1 hpermitted c (by simp [hsource, hc]))
  rw [hname] at halphanum
  refine ⟨first, rest, hname, ?_, fun c hc => ?_⟩
  · have hcontinue : isIdentContinue first = true := by rw [isIdentContinue, hfirst, Bool.true_or]
    have hboth := halphanum first List.mem_cons_self hcontinue
    rw [Char.isAlphanum, Bool.or_eq_true] at hboth
    refine hboth.resolve_right fun hdigit => ?_
    rw [isIdentStart_eq_false_of_isDigit hdigit] at hfirst
    cases hfirst
  · exact halphanum c (List.mem_cons_of_mem _ hc) (hrest c hc)

/-! ## Conditions -/

theorem isPermitted_of_failed {source substituted : String} {c : Context} {fault : ExprError}
    (h : evaluateCondition source c = .failed substituted fault) :
    isPermitted substituted = true ∧ parseExpr substituted = .error fault := by
  have hresolves := resolves_evaluateCondition source c
  rw [h] at hresolves
  cases hresolves with
  | failed _ hpermitted hparse => exact ⟨isPermitted_iff.2 hpermitted, hparse⟩

/-- What is wrong with a permitted text that is no expression is refused by the reader or is a fault
of the tokens. -/
theorem faults_of_parseExpr {source : String} {fault : ExprError}
    (hpermitted : isPermitted source = true) (h : parseExpr source = .error fault) :
    (∃ before after : String, Refuses before.utf8ByteSize after.toList fault) ∨
      ∃ tokens, tokenize source = .ok tokens ∧ FaultOf tokens fault := by
  rw [parseExpr] at h
  split at h
  · rename_i hread
    cases h
    obtain ⟨before, after, -, -, -, hrefuses⟩ :=
      exists_refuses_of_tokenize_eq_error hpermitted hread
    exact .inl ⟨before, after, hrefuses⟩
  · rename_i tokens hread
    exact .inr ⟨tokens, hread, faultOf_parseTokens h⟩

/-- **The screen fits the reader.**  A condition that fails with an unexpected character fails with
an equals sign, an ampersand, a bar or a point; and one that fails with an unknown name fails with
one of letters and digits that is no literal.  A permitted text that cannot be read can be read up
to half an operator, a point without digits, a malformed number or an open quote.  Everywhere else
a permitted character is a blank or starts a lexeme. -/
theorem screen_fits_reader :
    (∀ (source substituted : String) (c : Context) (found : Char) (offset : Nat),
      evaluateCondition source c = .failed substituted (.unexpectedCharacter found offset) →
        found ∈ ['=', '&', '|', '.']) ∧
    (∀ (source substituted : String) (c : Context) (name : String),
      evaluateCondition source c = .failed substituted (.unknownIdentifier name) →
        IsAlphanumericName name ∧
          name ∉ ["true", "false", "null", "undefined", "NaN", "Infinity"]) ∧
    (∀ (source : String) (fault : ExprError), isPermitted source = true →
      tokenize source = .error fault →
        ∃ before after tokens, source = before ++ after ∧ tokenize before = .ok tokens ∧
          Refuses before.utf8ByteSize after.toList fault) ∧
    ∀ (offset : Nat) (c : Char) (rest : List Char), isPermittedChar c = true →
      ((¬∃ fault, Refuses offset (c :: rest) fault) ↔
        Text.isBlank c = true ∨ ∃ token n, lexeme offset c rest = .ok (token, n)) := by
  refine ⟨fun source substituted c found offset h => ?_, fun source substituted c name h => ?_,
    fun source fault => exists_refuses_of_tokenize_eq_error, fun offset c rest => not_refuses_iff⟩
  · obtain ⟨hpermitted, hparse⟩ := isPermitted_of_failed h
    rcases faults_of_parseExpr hpermitted hparse with
      ⟨before, after, hrefuses⟩ | ⟨tokens, -, hfault⟩
    · generalize before.utf8ByteSize = place, after.toList = cs at hrefuses
      cases hrefuses with
      | lone hsign _ => exact List.mem_append_left ['.'] hsign
      | point _ => decide
    · cases hfault
  · obtain ⟨hpermitted, hparse⟩ := isPermitted_of_failed h
    rcases faults_of_parseExpr hpermitted hparse with
      ⟨before, after, hrefuses⟩ | ⟨tokens, hread, hfault⟩
    · generalize before.utf8ByteSize = place, after.toList = cs at hrefuses
      cases hrefuses
    · cases hfault with
      | unknown hmem hname =>
          exact ⟨isAlphanumericName_of_mem hpermitted hread hmem, keyword?_eq_none_iff.1 hname⟩

/-- An equals sign by itself behind a wide blank, and a name that the context does not hold. -/
theorem screen_fits_reader_at_equals_sign :
    let c : Context := OrderedMap.empty.insert "n" (.ofNat 2)
    evaluateCondition "n\u3000= 2" c = .failed "2\u3000= 2" (.unexpectedCharacter '=' 4) ∧
      '=' ∈ ['=', '&', '|', '.'] ∧
      evaluateCondition "m2" c = .failed "m2" (.unknownIdentifier "m2") ∧
      IsAlphanumericName "m2" ∧
      "m2" ∉ ["true", "false", "null", "undefined", "NaN", "Infinity"] := by
  intro c
  have hlone : evaluateCondition "n\u3000= 2" c =
      .failed "2\u3000= 2" (.unexpectedCharacter '=' 4) := by
    decide +kernel
  have hunknown : evaluateCondition "m2" c = .failed "m2" (.unknownIdentifier "m2") := by
    have hsubstituted : c.substitute "m2" = "m2" := by decide +kernel
    have hread : tokenize "m2" = .ok [.ident "m2"] := by decide +kernel
    have hparse : parseExpr "m2" = .error (.unknownIdentifier "m2") := by
      simp [parseExpr, hread, parseTokens, parseLevel, parseUnary, parsePrimary, keyword?,
        unaryLevel]
    have hblank : Text.trim "m2".toList ≠ [] := by decide
    have hpermitted : isPermitted "m2" = true := by decide
    simp only [evaluateCondition, hsubstituted, if_neg hblank, hpermitted, if_true, hparse]
  obtain ⟨hfound, hname, -, -⟩ := screen_fits_reader
  obtain ⟨hplain, hkeyword⟩ := hname _ _ c "m2" hunknown
  exact ⟨hlone, hfound _ _ c '=' 4 hlone, hunknown, hplain, hkeyword⟩

end Workflow
