import Workflow.Proofs.Evaluation
import Workflow.Proofs.Grammar
import Workflow.Proofs.LexemeWords
import Workflow.Proofs.NumberText
import Workflow.Proofs.OrderedMaps

/-!
# Substitution and environments

Variables are put into a condition as text, and the text is read afterwards.  Here this is compared
with reading the condition first and looking its names up in the context.

* `Context.meaning` is what the tokens of a condition count as beside a context.
* `Scalar.form` is the form that the JSON text of a value is read as, and `Form.fill` puts these
  forms in the place of names.
* `Lexes.mapWords` says that the filled form is what the text reads as after the substitution.
* `result_evaluateCondition_eq` says that both ways lead to one result.
-/

namespace Workflow

/-! ## Variables and values as forms -/

/-- What a token counts as beside a context: a name is a variable or, if there is none of it, a
keyword. -/
def Context.meaning (c : Context) : Token → Option Value
  | .ident name => (c.value? name).or (keyword? name)
  | token => token.literal?

/-- The form that the JSON text of a number is read as. -/
def JsonNumber.form (j : JsonNumber) : Form :=
  if j.isNegative then .unary .minus (.leaf (.number j.unsigned)) else .leaf (.number j.unsigned)

/-- The form that the JSON text of a scalar is read as. -/
def Scalar.form : Scalar → Form
  | .null => .leaf (.ident "null")
  | .bool b => .leaf (.ident (if b then "true" else "false"))
  | .number j => j.form
  | .string s => .leaf (.string s)

theorem Form.derives_leaf {token : Token} (h : ∀ s, token ≠ .symbol s) :
    (Form.leaf token).Derives unaryLevel :=
  derives_leaf_iff.2 ⟨by decide, h⟩

theorem JsonNumber.derives_form (j : JsonNumber) : j.form.Derives unaryLevel := by
  unfold form
  split
  · exact Form.derives_unary_iff.2 ⟨le_rfl, Form.derives_leaf nofun⟩
  · exact Form.derives_leaf nofun

theorem Scalar.derives_form (s : Scalar) : s.form.Derives unaryLevel := by
  cases s with
  | number j => exact j.derives_form
  | _ => exact Form.derives_leaf nofun

theorem JsonNumber.exists_expr?_form (j : JsonNumber) :
    ∃ e, j.form.expr? Token.literal? = some e ∧ e.value = .number j.toFloat := by
  rw [form, j.toFloat_eq]
  split
  · exact ⟨.unary .minus (.literal (.number j.unsigned)), rfl, rfl⟩
  · exact ⟨.literal (.number j.unsigned), rfl, rfl⟩

/-- The form of a scalar has the value of the scalar. -/
theorem Scalar.exists_expr?_form (s : Scalar) :
    ∃ e, s.form.expr? Token.literal? = some e ∧ e.value = s.toValue := by
  cases s with
  | null => exact ⟨.literal .null, rfl, rfl⟩
  | bool b => exact ⟨.literal (.bool b), by cases b <;> rfl, rfl⟩
  | number j => exact j.exists_expr?_form
  | string s => exact ⟨.literal (.string s), rfl, rfl⟩

/-! ## Forms with their names filled in -/

namespace Form

variable {f : Form} {c : Context} {level : Nat}

/-- A form with the values of a context in the place of their names. -/
def fill (c : Context) : Form → Form
  | .leaf (.ident name) => ((c.get? name).map Scalar.form).getD (.leaf (.ident name))
  | .leaf token => .leaf token
  | .group f => .group (f.fill c)
  | .unary op f => .unary op (f.fill c)
  | .binary op l r => .binary op (l.fill c) (r.fill c)

/-- The tokens that take the place of a token. -/
def fillToken (c : Context) : Token → List Token
  | .ident name => ((c.get? name).map (·.form.tokens)).getD [.ident name]
  | token => [token]

theorem tokens_fill (c : Context) (f : Form) :
    (f.fill c).tokens = f.tokens.flatMap (fillToken c) := by
  induction f with
  | leaf token =>
      rw [tokens, List.flatMap_singleton]
      cases token with
      | ident name => cases h : c.get? name <;> simp [fill, fillToken, h, tokens]
      | _ => rfl
  | group f ih => simp [fill, tokens, ih, fillToken]
  | unary op f ih => simp [fill, tokens, ih, fillToken]
  | binary op l r ihl ihr => simp [fill, tokens, ihl, ihr, fillToken]

theorem Derives.fill (h : f.Derives level) (hlevel : level ≤ unaryLevel) :
    (f.fill c).Derives level := by
  induction f generalizing level with
  | leaf token =>
      cases token with
      | ident name =>
          rw [Form.fill]
          cases c.get? name with
          | none => exact h
          | some s => exact s.derives_form.of_le hlevel (by decide)
      | _ => exact h
  | group f ih =>
      obtain ⟨hle, hf⟩ := derives_group_iff.1 h
      exact derives_group_iff.2 ⟨hle, ih hf (by decide)⟩
  | unary op f ih =>
      obtain ⟨hle, hf⟩ := derives_unary_iff.1 h
      exact derives_unary_iff.2 ⟨hle, ih hf le_rfl⟩
  | binary op l r ihl ihr =>
      obtain ⟨hle, hl, hr⟩ := derives_binary_iff.1 h
      have hop := op.level_lt_unaryLevel
      exact derives_binary_iff.2 ⟨hle, ihl hl hop.le, ihr hr hop⟩

/-- A form has the same value whether its names are looked up or filled in. -/
theorem exists_expr?_fill {e : Expr} (h : f.expr? c.meaning = some e) :
    ∃ e', (f.fill c).expr? Token.literal? = some e' ∧ e'.value = e.value := by
  induction f generalizing e with
  | leaf token =>
      cases token with
      | ident name =>
          simp only [expr?, Context.meaning, Context.value?] at h
          simp only [fill]
          cases hget : c.get? name with
          | none =>
              rw [hget] at h
              exact ⟨e, h, rfl⟩
          | some s =>
              rw [hget] at h
              cases h
              exact s.exists_expr?_form
      | _ => exact ⟨e, h, rfl⟩
  | group f ih => exact ih h
  | unary op f ih =>
      obtain ⟨operand, hoperand, rfl⟩ := Option.map_eq_some_iff.1 h
      obtain ⟨operand', h', hvalue⟩ := ih hoperand
      exact ⟨.unary op operand', by rw [fill, expr?, h']; rfl, by simp only [Expr.value, hvalue]⟩
  | binary op l r ihl ihr =>
      obtain ⟨left, right, hleft, hright, rfl⟩ := expr?_binary_eq_some_iff.1 h
      obtain ⟨left', hl', hvalueL⟩ := ihl hleft
      obtain ⟨right', hr', hvalueR⟩ := ihr hright
      refine ⟨.binary op left' right', by rw [fill, expr?, hl', hr'], ?_⟩
      simp only [Expr.value, hvalueL, hvalueR]

/-! ## Neighbours -/

/-- Of two tokens in a row one is a symbol. -/
def Apart (a b : Token) : Prop :=
  (∃ s, a = .symbol s) ∨ ∃ s, b = .symbol s

theorem apart_symbol_left (s : Symbol) (b : Token) : Apart (.symbol s) b :=
  .inl ⟨s, rfl⟩

theorem apart_symbol_right (a : Token) (s : Symbol) : Apart a (.symbol s) :=
  .inr ⟨s, rfl⟩

/-- No two operands stand side by side. -/
theorem isChain_tokens (f : Form) : f.tokens.IsChain Apart := by
  induction f with
  | leaf token => exact .singleton _
  | group f ih =>
      refine List.isChain_cons.2 ⟨fun b _ => apart_symbol_left _ b, ?_⟩
      refine List.isChain_append.2 ⟨ih, .singleton _, fun a _ b hb => ?_⟩
      cases hb
      exact apart_symbol_right a _
  | unary op f ih => exact List.isChain_cons.2 ⟨fun b _ => apart_symbol_left _ b, ih⟩
  | binary op l r ihl ihr =>
      refine List.isChain_append.2 ⟨ihl, ?_, fun a _ b hb => ?_⟩
      · exact List.isChain_cons.2 ⟨fun b _ => apart_symbol_left _ b, ihr⟩
      · cases hb
        exact apart_symbol_right a _

end Form

open Text (IsWhole Stops isWord)

/-! ## Values as texts -/

/-- A string of permitted characters only stands between its quotes as it is. -/
theorem escape_eq_of_permitted {c : Char} (h : ∀ d ∈ Json.escape c, isPermittedChar d = true) :
    Json.escape c = [c] ∧ c ≠ '"' ∧ c ≠ '\\' ∧ c ≠ '\n' := by
  have hback : '\\' ∉ Json.escape c := fun hmem => absurd (h _ hmem) (by decide)
  unfold Json.escape at hback ⊢
  split_ifs at hback ⊢ <;> simp_all

theorem quoted_of_permitted {cs : List Char}
    (h : ∀ c ∈ cs, ∀ d ∈ Json.escape c, isPermittedChar d = true) :
    cs.flatMap Json.escape = cs ∧ Quoted '"' cs cs := by
  have hplain := fun c hc => escape_eq_of_permitted (h c hc)
  constructor
  · rw [List.flatMap_congr fun c hc => (hplain c hc).1, List.flatMap_singleton']
  · simpa using Quoted.append_of_plain (fun c hc => (hplain c hc).2) .nil

theorem JsonNumber.lexes_text (j : JsonNumber) {rest : List Char} {tokens : List Token}
    (hrest : ∀ c ∈ rest.head?, isIdentContinue c = false ∧ c ≠ '.') (h : Lexes rest tokens) :
    Lexes (j.text ++ rest) (j.form.tokens ++ tokens) := by
  obtain ⟨n, htext, hn, -⟩ := j.exists_text_eq
  have hnumber : Lexes (n.text ++ rest) (.number j.unsigned :: tokens) :=
    hn ▸ lexes_number n hrest h
  rw [htext, form]
  cases j.isNegative with
  | false => exact hnumber
  | true =>
      have hminus : Lexeme ['-'] (.symbol .minus) (n.text ++ rest) :=
        .symbol (s := .minus) (by simp [Symbol.Ends])
      change Lexes (['-'] ++ (n.text ++ rest)) _
      exact .token hminus hnumber

/-- The JSON text of a value is read as the form of the value, if it holds permitted characters
only. -/
theorem Scalar.lexes_literal (s : Scalar) {rest : List Char} {tokens : List Token}
    (hpermitted : ∀ c ∈ s.literal, isPermittedChar c = true)
    (hrest : ∀ c ∈ rest.head?, isIdentContinue c = false ∧ c ≠ '.') (h : Lexes rest tokens) :
    Lexes (s.literal ++ rest) (s.form.tokens ++ tokens) := by
  have hends : ∀ c ∈ rest.head?, isIdentContinue c = false := fun c hc => (hrest c hc).1
  cases s with
  | null => exact lexes_ident (isName_of_keyword? rfl) hends h
  | bool b => cases b <;> exact lexes_ident (isName_of_keyword? rfl) hends h
  | number j => exact j.lexes_text hrest h
  | string s =>
      have hchars : ∀ c ∈ s.toList, ∀ d ∈ Json.escape c, isPermittedChar d = true := by
        intro c hc d hd
        refine hpermitted d (List.mem_cons_of_mem _ (List.mem_append_left _ ?_))
        exact List.mem_flatMap.2 ⟨c, hc, hd⟩
      obtain ⟨hbody, hquoted⟩ := quoted_of_permitted hchars
      have hlexeme : Lexeme ('"' :: (s.toList ++ ['"'])) (.string (String.ofList s.toList)) rest :=
        .string (.inl rfl) hquoted
      rw [String.ofList_toList] at hlexeme
      change Lexes ('"' :: s.toList.flatMap Json.escape ++ ['"'] ++ rest) (.string s :: tokens)
      rw [hbody]
      exact .token hlexeme h

/-- No value starts with an equals sign, so none makes a longer symbol of the one before it; and none
starts as an exponent does. -/
theorem Scalar.exists_head?_literal (s : Scalar) :
    ∃ c, s.literal.head? = some c ∧ c ≠ '=' ∧ c ≠ 'e' ∧ c ≠ 'E' := by
  cases s with
  | null => exact ⟨'n', rfl, by decide⟩
  | bool b => cases b <;> exact ⟨_, rfl, by decide⟩
  | number j =>
      obtain ⟨n, htext, -⟩ := j.exists_text_eq
      obtain ⟨c, cs, hn, hc⟩ := n.exists_text_eq
      change ∃ c, j.text.head? = some c ∧ _
      rw [htext, hn]
      cases j.isNegative with
      | true => exact ⟨'-', rfl, by decide⟩
      | false =>
          refine ⟨c, rfl, ?_, ?_, ?_⟩ <;> rintro rfl <;> exact absurd hc (by decide)
  | string s => exact ⟨'"', rfl, by decide⟩

/-! ## The words of a context -/

namespace Context

variable {c : Context}

theorem wordText_eq (c : Context) (w : List Char) :
    wordText c.entries w = ((c.get? (String.ofList w)).map Scalar.literal).getD w := by
  have hfind : (fun e : String × Scalar => decide (e.1.toList = w)) =
      fun e => decide (e.1 = String.ofList w) := by
    funext e
    exact decide_eq_decide.2 (String.ext_iff.trans (by rw [String.toList_ofList])).symm
  rw [wordText, OrderedMap.get?, hfind]
  cases c.entries.find? _ <;> rfl

theorem wordText_of_isDigit (hnames : ∀ e ∈ c.entries, IsName e.1) (d : Char) (ds : List Char)
    (hd : d.isDigit = true) : wordText c.entries (d :: ds) = d :: ds :=
  wordText_of_forall_ne fun e he => (hnames e he).not_isDigit hd

theorem exists_head?_wordText (c : Context) {w : List Char} (hw : IsWhole w) :
    ∃ d, (wordText c.entries w).head? = some d ∧ d ≠ '=' := by
  rw [wordText_eq]
  cases c.get? (String.ofList w) with
  | some s =>
      obtain ⟨d, hhead, hd, -⟩ := s.exists_head?_literal
      exact ⟨d, hhead, hd⟩
  | none =>
      obtain ⟨d, ds, rfl⟩ := List.exists_cons_of_ne_nil hw.1
      refine ⟨d, rfl, ?_⟩
      rintro rfl
      exact absurd (hw.2 '=' List.mem_cons_self) (by decide)

/-- Substitution puts no equals sign where there was none. -/
theorem head?_mapWords_ne (c : Context) {cs : List Char} (h : cs.head? ≠ some '=') :
    (Text.mapWords (wordText c.entries) cs).head? ≠ some '=' := by
  induction cs using Text.wordInduction with
  | nil => rwa [Text.mapWords_nil]
  | other d cs hd _ => rwa [Text.mapWords_cons hd]
  | word w rest hw hrest _ =>
      obtain ⟨d, hhead, hd⟩ := c.exists_head?_wordText hw
      rw [Text.mapWords_word hw hrest, List.head?_append, hhead]
      exact fun heq => hd (Option.some.inj heq)

end Context

/-! ## Texts after the substitution -/

/-- Whether no point stands right before `e` or `E`. -/
def NoPointBeforeE (cs : List Char) : Prop :=
  ∀ c, ['.', c] <:+: cs → c ≠ 'e' ∧ c ≠ 'E'

theorem NoPointBeforeE.of_infix {cs ds : List Char} (h : NoPointBeforeE cs) (hds : ds <:+: cs) :
    NoPointBeforeE ds :=
  fun c hc => h c (hc.trans hds)

theorem Numeral.exponent?_eq_none {n : Numeral} (h : NoPointBeforeE n.text)
    (hfraction : n.fraction? = some []) : n.exponent? = none := by
  cases hexponent : n.exponent? with
  | none => rfl
  | some x =>
      obtain ⟨he, hE⟩ := h x.mark ⟨n.whole, x.sign ++ x.digits, by
        simp [text, mantissa, hfraction, hexponent, Exponent.text]⟩
      exact absurd x.mark_eq (not_or.2 ⟨he, hE⟩)

namespace Lexes

variable {c : Context} {cs rest : List Char} {tokens filled : List Token}

/-- What follows an operand is no point, unless it is another operand. -/
theorem head?_ne_point {token : Token} (h : Lexes rest tokens)
    (happart : (token :: tokens).IsChain Form.Apart) (htoken : ∀ s, token ≠ .symbol s) :
    ∀ d ∈ rest.head?, d ≠ '.' := by
  rintro d hd rfl
  cases rest with
  | nil => cases hd
  | cons d rest =>
      cases hd
      obtain ⟨x, more, rfl⟩ := h.exists_number
      rcases (List.isChain_cons_cons.1 happart).1 with ⟨s, hs⟩ | ⟨s, hs⟩
      · exact htoken s hs
      · cases hs

/-- An identifier gives way to the tokens of its value, or stays where it is. -/
theorem wordText_append {w : List Char} (h : Lexes rest filled)
    (hends : ∀ d ∈ rest.head?, isIdentContinue d = false ∧ d ≠ '.')
    (hlexeme : Lexeme w (.ident (String.ofList w)) rest)
    (hpermitted : ∀ d ∈ Context.wordText c.entries w, isPermittedChar d = true) :
    Lexes (Context.wordText c.entries w ++ rest)
      (Form.fillToken c (.ident (String.ofList w)) ++ filled) := by
  rw [c.wordText_eq] at hpermitted ⊢
  rw [Form.fillToken]
  cases hget : c.get? (String.ofList w) with
  | some s =>
      rw [hget] at hpermitted
      exact s.lexes_literal hpermitted hends h
  | none => exact .token hlexeme h

/-- The words of a number are no names, and it ends where it did. -/
theorem mapWords_number (hlexes : Lexes rest tokens) (hnames : ∀ e ∈ c.entries, IsName e.1)
    {n : Numeral} (hends : n.Ends rest) (hpoint : NoPointBeforeE n.text) :
    Text.mapWords (Context.wordText c.entries) (n.text ++ rest) =
        n.text ++ Text.mapWords (Context.wordText c.entries) rest ∧
      n.Ends (Text.mapWords (Context.wordText c.entries) rest) := by
  have hstops : Stops rest := hlexes.stops fun d hd => by
    obtain ⟨hdigit, hstart, -⟩ := hends d hd
    rw [isIdentContinue, hstart, hdigit]
    rfl
  constructor
  · rw [Text.mapWords_append hstops,
      n.mapWords_text (Context.wordText_of_isDigit hnames) (Numeral.exponent?_eq_none hpoint)]
  · rwa [Numeral.Ends, hstops.mapWords]

/-- An identifier is a word, and what follows it goes on as it did. -/
theorem mapWords_ident (hlexes : Lexes rest tokens) {w : List Char}
    (hname : IsName (String.ofList w)) (hends : ∀ d ∈ rest.head?, isIdentContinue d = false)
    (happart : (Token.ident (String.ofList w) :: tokens).IsChain Form.Apart) :
    Text.mapWords (Context.wordText c.entries) (w ++ rest) =
        Context.wordText c.entries w ++ Text.mapWords (Context.wordText c.entries) rest ∧
      ∀ d ∈ (Text.mapWords (Context.wordText c.entries) rest).head?,
        isIdentContinue d = false ∧ d ≠ '.' := by
  have hstops := hlexes.stops hends
  have hword := hname.isWhole
  rw [String.toList_ofList] at hword
  constructor
  · exact Text.mapWords_word hword hstops
  · rw [hstops.mapWords]
    exact fun d hd => ⟨hends d hd, hlexes.head?_ne_point happart (by simp) d hd⟩

/-- **What a text is read as after the substitution**: the same tokens, with those of the values in
the place of the names. -/
theorem mapWords (h : Lexes cs tokens) (hnames : ∀ e ∈ c.entries, IsName e.1)
    (hquotes : ∀ d ∈ cs, d ≠ '"' ∧ d ≠ '\'') (hpoint : NoPointBeforeE cs)
    (hmeaning : ∀ token ∈ tokens, ∀ name, token = .ident name → IsName name)
    (happart : tokens.IsChain Form.Apart)
    (hpermitted : ∀ d ∈ Text.mapWords (Context.wordText c.entries) cs, isPermittedChar d = true) :
    Lexes (Text.mapWords (Context.wordText c.entries) cs) (tokens.flatMap (Form.fillToken c)) := by
  induction h with
  | nil => exact Text.mapWords_nil.symm ▸ .nil
  | @blank d cs tokens hblank _ ih =>
      rw [Text.mapWords_cons (Text.isWord_eq_false_of_isBlank hblank)] at hpermitted ⊢
      exact .blank hblank (ih (fun d hd => hquotes d (List.mem_cons_of_mem _ hd))
        (hpoint.of_infix (List.suffix_cons _ _).isInfix) hmeaning happart
        fun d hd => hpermitted d (List.mem_cons_of_mem _ hd))
  | @token chars rest token tokens hlexeme hlexes ih =>
      have ih := ih (fun d hd => hquotes d (List.mem_append_right _ hd))
        (hpoint.of_infix (List.suffix_append _ _).isInfix)
        (fun t ht => hmeaning t (List.mem_cons_of_mem _ ht)) happart.tail
      rw [List.flatMap_cons]
      cases hlexeme with
      | @number n rest hends =>
          obtain ⟨htext, hends'⟩ := hlexes.mapWords_number hnames hends
            (hpoint.of_infix (List.prefix_append _ _).isInfix)
          rw [htext] at hpermitted ⊢
          exact .token (.number hends') (ih fun d hd => hpermitted d (List.mem_append_right _ hd))
      | @string close body s rest hclose _ =>
          exact absurd hclose (not_or.2 (hquotes close List.mem_cons_self))
      | @ident d ds rest hstart hcontinue hends =>
          obtain ⟨htext, hends'⟩ := hlexes.mapWords_ident (c := c)
            (hmeaning _ List.mem_cons_self _ rfl) hends happart
          rw [htext] at hpermitted ⊢
          exact (ih fun b hb => hpermitted b (List.mem_append_right _ hb)).wordText_append hends'
            (.ident hstart hcontinue fun b hb => (hends' b hb).1)
            fun b hb => hpermitted b (List.mem_append_left _ hb)
      | @symbol s rest hends =>
          rw [mapWords_append_of_not_isWord s.isWord_eq_false] at hpermitted ⊢
          have hends' : s.Ends (Text.mapWords (Context.wordText c.entries) rest) :=
            fun hmem => c.head?_mapWords_ne (hends hmem)
          exact .token (.symbol hends') (ih fun d hd => hpermitted d (List.mem_append_right _ hd))

end Lexes

/-! ## Both ways -/

theorem Context.meaning_eq_of_perm {c order : Context} (h : order.entries.Perm c.entries) :
    order.meaning = c.meaning := by
  funext token
  cases token with
  | ident name => rw [meaning, meaning, value?, value?, OrderedMap.get?_eq_of_perm h]
  | _ => rfl

theorem Context.isName_of_meaning {c : Context} (hnames : ∀ e ∈ c.entries, IsName e.1)
    {name : String} (h : (c.meaning (.ident name)).isSome) : IsName name := by
  rw [meaning, value?] at h
  cases hget : c.get? name with
  | some s => exact hnames _ (OrderedMap.get?_eq_some_iff.1 hget)
  | none =>
      rw [hget] at h
      exact isName_of_keyword? h

/-- **What a condition reads as after the substitution**, in whatever order the variables are put in:
the form that it reads as before, filled in. -/
theorem tokenize_substitute {source : String} {c order : Context} {f : Form} {e : Expr}
    (hnames : ∀ entry ∈ c.entries, IsName entry.1)
    (hfree : ∀ a ∈ c.entries, ∀ b ∈ c.entries, a.1 ≠ b.1 → ¬Text.HasWord a.1.toList b.2.literal)
    (hquotes : ∀ d ∈ source.toList, d ≠ '"' ∧ d ≠ '\'') (hpoint : NoPointBeforeE source.toList)
    (htokens : tokenize source = .ok f.tokens) (hexpr : f.expr? c.meaning = some e)
    (horder : order.entries.Perm c.entries)
    (hpermitted : ∀ d ∈ (order.substitute source).toList, isPermittedChar d = true) :
    tokenize (order.substitute source) = .ok (f.fill order).tokens := by
  rw [← Context.meaning_eq_of_perm horder] at hexpr
  simp only [← horder.mem_iff] at hnames hfree
  have hmap := order.substituteChars_eq_mapWords (fun entry hentry => (hnames entry hentry).isWhole)
    hfree source.toList
  rw [Context.substitute, String.toList_ofList, hmap] at hpermitted
  rw [tokenize_eq_ok_iff, Context.substitute, String.toList_ofList, hmap, Form.tokens_fill]
  refine (tokenize_eq_ok_iff.1 htokens).mapWords hnames hquotes hpoint ?_ f.isChain_tokens
    hpermitted
  rintro _ htoken name rfl
  exact Context.isName_of_meaning hnames (Form.isSome_meaning_of_mem hexpr htoken nofun)

/-- **Substitution agrees with evaluation in an environment.**  Where the variables of a context are
named like identifiers and no value holds the name of another variable, a condition without quotes
that is a form of the grammar, up to the depth, comes out as the value of its own tree with the
names bound to their values, in whatever order the variables are put in.  A numeral that ends with
a point before its exponent is left out: the exponent would be a word. -/
theorem result_evaluateCondition_eq {source substituted : String} {c order : Context} {f : Form}
    {e : Expr} {trace : Trace} (hnames : ∀ entry ∈ c.entries, IsName entry.1)
    (hfree : ∀ a ∈ c.entries, ∀ b ∈ c.entries, a.1 ≠ b.1 → ¬Text.HasWord a.1.toList b.2.literal)
    (hquotes : ∀ d ∈ source.toList, d ≠ '"' ∧ d ≠ '\'') (hpoint : NoPointBeforeE source.toList)
    (htokens : tokenize source = .ok f.tokens) (hderives : f.Derives 0)
    (hexpr : f.expr? c.meaning = some e) (horder : order.entries.Perm c.entries)
    (h : evaluateCondition source order = .evaluated substituted trace) :
    (evaluateCondition source order).result = e.value.isTruthy := by
  rw [h, Resolution.result]
  cases resolves_iff.2 h with
  | @evaluated read _ hpermitted hparse =>
      have hread := tokenize_substitute hnames hfree hquotes hpoint htokens hexpr horder hpermitted
      rw [parseExpr, hread] at hparse
      obtain ⟨g, hg, htokensg, hexprg, -⟩ := parseTokens_eq_ok_iff_form.1 hparse
      have hfill := hderives.fill (c := order) (Nat.zero_le _)
      cases Form.eq_of_tokens_eq hg hfill htokensg
      rw [← Context.meaning_eq_of_perm horder] at hexpr
      obtain ⟨filled, hfilled, hvalue⟩ := Form.exists_expr?_fill hexpr
      rw [hexprg] at hfilled
      cases hfilled
      rw [Expr.outcome_trace, hvalue]

/-- A negative number and a string beside operators, put in one after the other in either order. -/
theorem result_evaluateCondition_sub_greater :
    let order : Context := ((OrderedMap.empty.insert "s" (.string "go")).insert "y"
      (.number (.negative 4 (by decide)))).insert "x" (.ofNat 3)
    let x : Expr := .literal (Scalar.ofNat 3).toValue
    let y : Expr := .literal (.number (JsonNumber.negative 4 (by decide)).toFloat)
    let e : Expr := .binary .and (.binary .greater (.binary .subtract x y) x)
      (.binary .notEqual (.literal (.string "go")) y)
    (∃ trace, evaluateCondition "x-y > x && s != y" order =
      .evaluated "3--4 > 3 && \"go\" != -4" trace) ∧
    (evaluateCondition "x-y > x && s != y" order).result = e.value.isTruthy := by
  intro order x y e
  let c : Context := ((OrderedMap.empty.insert "x" (.ofNat 3)).insert "y"
    (.number (.negative 4 (by decide)))).insert "s" (.string "go")
  let f : Form := .binary .and
    (.binary .greater (.binary .subtract (.leaf (.ident "x")) (.leaf (.ident "y")))
      (.leaf (.ident "x")))
    (.binary .notEqual (.leaf (.ident "s")) (.leaf (.ident "y")))
  have hnames : ∀ entry ∈ c.entries, IsName entry.1 := by
    refine List.forall_iff_forall_mem.1 ⟨?_, ?_, ?_⟩ <;>
      exact ⟨_, [], rfl, .inl (by decide), nofun⟩
  have hfree : ∀ a ∈ c.entries, ∀ b ∈ c.entries, a.1 ≠ b.1 →
      ¬Text.HasWord a.1.toList b.2.literal := by
    have hmem : ∀ a ∈ c.entries, ∀ b ∈ c.entries, ¬a.1.toList <:+: b.2.literal := by
      decide +kernel
    exact fun a ha b hb _ hword => hmem a ha b hb hword.isInfix
  have hquotes : ∀ d ∈ "x-y > x && s != y".toList, d ≠ '"' ∧ d ≠ '\'' :=
    List.forall_iff_forall_mem.1 (by decide +kernel)
  have hpoint : NoPointBeforeE "x-y > x && s != y".toList :=
    fun _ hmem => absurd (hmem.subset List.mem_cons_self) (by decide +kernel)
  have htokens : tokenize "x-y > x && s != y" = .ok f.tokens := by cbv
  have hderives : f.Derives 0 := by
    simp +decide [f, Form.derives_binary_iff, Form.derives_leaf_iff, BinaryOp.level]
  have hexpr : f.expr? c.meaning = some e := rfl
  have horder : order.entries.Perm c.entries := by decide
  have hsubstitute : order.substitute "x-y > x && s != y" = "3--4 > 3 && \"go\" != -4" := by
    decide +kernel
  have hpermitted : ∀ d ∈ (order.substitute "x-y > x && s != y").toList,
      isPermittedChar d = true := by
    rw [hsubstitute, ← isPermitted_iff]
    decide +kernel
  have hread := tokenize_substitute hnames hfree hquotes hpoint htokens hexpr horder hpermitted
  have hparse := parseTokens_eq_ok_iff_form.2
    ⟨f.fill order, hderives.fill (Nat.zero_le _), rfl, rfl, by decide⟩
  have hblank : ¬∀ d ∈ "x-y > x && s != y".toList, Text.isBlank d = true :=
    fun hblank => absurd (hblank 'x' (by decide +kernel)) (by decide)
  have h := resolves_iff.1
    (.evaluated hblank hpermitted (by rw [parseExpr, hread]; exact hparse))
  rw [hsubstitute] at h
  exact ⟨⟨_, h⟩, result_evaluateCondition_eq hnames hfree hquotes hpoint htokens hderives hexpr
    horder h⟩

end Workflow
