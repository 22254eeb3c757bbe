import Workflow.Expr.Printer
import Workflow.Proofs.Grammar
import Workflow.Proofs.Lexemes
import Workflow.Proofs.NumberText

/-!
# Printing and reading

A printed expression is read as a form of its own tree, up to two differences.  Between quotes the
printer has escapes that the reader does not know, so a string may come back as another one; and
where the printer leaves out parentheses on the left of an operator, one chain is made of two, which
may be too long.

* `Text.reread` is what a character of a string comes back as, `Expr.reread` what a tree does.
* `Expr.formAt` is the form that an expression is printed as, and `Expr.isText_printAt` says so.
* `parseExpr_print_eq_ok_iff` says what a printed expression is read as.
* `parseExpr_print_iff` says which accepted expressions come back as they were.
-/

namespace Workflow

/-! ## Strings -/

namespace Text

/-- What a character is read as after it was printed between quotes. -/
def reread (c : Char) : List Char :=
  match escape c with
  | '\\' :: e :: rest => unescape e :: rest
  | cs => cs

/-- A character that comes back from between quotes: one that shows, or one of the three control
characters that have an escape on both sides. -/
def ComesBack (c : Char) : Prop :=
  isSpeltOut c = true → c = '\n' ∨ c = '\r' ∨ c = '\t'

instance : DecidablePred ComesBack := fun c =>
  inferInstanceAs (Decidable (isSpeltOut c = true → c = '\n' ∨ c = '\r' ∨ c = '\t'))

theorem reread_eq (c : Char) : ComesBack c ∧ reread c = [c] ∨
    ¬ComesBack c ∧ ∃ d ds, reread c = d :: ds ∧ d ≠ c := by
  unfold reread escape ComesBack
  split_ifs with hquote hbackslash hline hreturn htab hzero hspelt
  · subst hquote
    exact .inl ⟨by decide, rfl⟩
  · subst hbackslash
    exact .inl ⟨by decide, rfl⟩
  · subst hline
    exact .inl ⟨by decide, rfl⟩
  · subst hreturn
    exact .inl ⟨by decide, rfl⟩
  · subst htab
    exact .inl ⟨by decide, rfl⟩
  · subst hzero
    exact .inr ⟨by decide, '0', [], rfl, by decide⟩
  · -- the first character that comes back is the `u` of the escape
    refine .inr ⟨by simp [hspelt, hline, hreturn, htab], 'u', _, rfl, ?_⟩
    rintro rfl
    exact absurd hspelt (by decide)
  · exact .inl ⟨fun h => absurd h hspelt, by simp⟩

theorem exists_digitChar_of_mem_toDigits {b n : Nat} (hb : 1 < b) {c : Char}
    (hc : c ∈ Nat.toDigits b n) : ∃ d < b, c = Nat.digitChar d := by
  induction n using Nat.strong_induction_on with
  | _ n ih =>
      rw [Nat.toDigits_eq_if hb] at hc
      split at hc
      · rename_i hlt
        exact ⟨n, hlt, List.mem_singleton.1 hc⟩
      · rename_i hle
        rcases List.mem_append.1 hc with hc | hc
        · exact ih (n / b) (Nat.div_lt_self (by omega) hb) hc
        · exact ⟨n % b, Nat.mod_lt n (by omega), List.mem_singleton.1 hc⟩

/-- What is printed for a character is read as one, and the reading goes on behind it. -/
theorem quoted_escape (c : Char) {body s : List Char} (h : Quoted '"' body s) :
    Quoted '"' (escape c ++ body) (reread c ++ s) := by
  unfold reread escape
  split_ifs with hquote hbackslash hline hreturn htab hzero hspelt
  iterate 6 exact .escape h
  · -- the backslash is read with the `u`; the braces and the digits are read as they are
    have hdigits : ∀ d ∈ '\x7b' :: (Nat.toDigits 16 c.toNat ++ ['\x7d']),
        d ≠ '"' ∧ d ≠ '\\' ∧ d ≠ '\n' := by
      intro d hd
      simp only [List.mem_cons, List.mem_append, List.not_mem_nil, or_false] at hd
      rcases hd with rfl | hd | rfl
      · decide
      · obtain ⟨n, hn, rfl⟩ := exists_digitChar_of_mem_toDigits (by decide) hd
        interval_cases n <;> decide
      · decide
    exact .escape (h.append_of_plain hdigits)
  · simp only [List.singleton_append]
    exact .plain hquote hbackslash hline h

theorem quoted_flatMap_escape (cs : List Char) :
    Quoted '"' (cs.flatMap escape) (cs.flatMap reread) := by
  induction cs with
  | nil => exact .nil
  | cons c cs ih => exact quoted_escape c ih

/-- A text comes back from between quotes as it was if all its characters do. -/
theorem flatMap_reread_eq_self_iff {cs : List Char} :
    cs.flatMap reread = cs ↔ ∀ c ∈ cs, ComesBack c := by
  induction cs with
  | nil => simp
  | cons c cs ih =>
      rw [List.flatMap_cons, List.forall_mem_cons, ← ih]
      rcases reread_eq c with ⟨hback, hread⟩ | ⟨hback, d, ds, hread, hd⟩
      · simp [hback, hread]
      · simp [hback, hread, hd]

end Text

/-! ## Literals -/

/-- The values that a token of a text can have.  A number of a text has no sign. -/
inductive Value.IsLiteral : Value → Prop
  | null : IsLiteral .null
  | bool (b : Bool) : IsLiteral (.bool b)
  | string (s : String) : IsLiteral (.string s)
  | nan : IsLiteral (.number Value.nan)
  | infinity : IsLiteral (.number Value.infinity)
  | finite {b : Magnitude} :
      b < Magnitude.infinity → IsLiteral (.number (Magnitude.toFloat false b))

theorem Decimal.magnitude_le_infinity (d : Decimal) : d.magnitude ≤ Magnitude.infinity := by
  rw [magnitude_eq, Magnitude.nearestTo]
  split
  · exact Nat.zero_le _
  · exact Nat.min_le_right _ _

theorem Decimal.isLiteral_toFloat (d : Decimal) : (Value.number d.toFloat).IsLiteral := by
  rw [toFloat]
  rcases d.magnitude_le_infinity.lt_or_eq with hlt | heq
  · exact .finite hlt
  · rw [heq, Value.toFloat_infinity]
    exact .infinity

theorem isLiteral_of_keyword? {name : String} {v : Value} (h : keyword? name = some v) :
    v.IsLiteral := by
  unfold keyword? at h
  split_ifs at h <;> cases h
  · exact .bool true
  · exact .bool false
  · exact .null
  · exact .nan
  · exact .infinity

theorem Lexeme.isLiteral {chars rest : List Char} {token : Token} {v : Value}
    (h : Lexeme chars token rest) (hv : token.literal? = some v) : v.IsLiteral := by
  cases h with
  | number _ =>
      cases hv
      exact Decimal.isLiteral_toFloat _
  | string _ _ =>
      cases hv
      exact .string _
  | ident _ _ _ => exact isLiteral_of_keyword? hv
  | symbol _ => cases hv

theorem Lexes.isLiteral {cs : List Char} {tokens : List Token} {token : Token} {v : Value}
    (h : Lexes cs tokens) (htoken : token ∈ tokens) (hv : token.literal? = some v) :
    v.IsLiteral := by
  induction h with
  | nil => cases htoken
  | blank _ _ ih => exact ih htoken
  | token hlexeme _ ih =>
      rcases List.mem_cons.1 htoken with rfl | htoken
      · exact hlexeme.isLiteral hv
      · exact ih htoken

namespace Value

/-- What a literal is read as after it was printed. -/
def reread : Value → Value
  | .string s => .string (String.ofList (s.toList.flatMap Text.reread))
  | v => v

/-- The token that a literal is printed as. -/
def token : Value → Token
  | .null => .ident "null"
  | .bool b => .ident (if b then "true" else "false")
  | .string s => .string (String.ofList (s.toList.flatMap Text.reread))
  | .number x =>
    if x.isNaN then .ident "NaN" else if x.isInf then .ident "Infinity" else .number x

theorem reread_eq_self_iff {v : Value} :
    v.reread = v ↔ ∀ s, v = .string s → ∀ c ∈ s.toList, Text.ComesBack c := by
  cases v with
  | string s =>
      have hchars : s.toList.flatMap Text.reread = s.toList ↔
          String.ofList (s.toList.flatMap Text.reread) = s := by
        rw [String.ext_iff, String.toList_ofList]
      simp only [reread, Value.string.injEq, forall_eq', ← Text.flatMap_reread_eq_self_iff, hchars]
  | _ => simp [reread]

variable {v : Value}

theorem literalText_number (x : Float) : (Value.number x).literalText = numberText x :=
  rfl

theorem token_nan : (Value.number nan).token = .ident "NaN" := by
  decide +kernel

theorem token_infinity : (Value.number infinity).token = .ident "Infinity" := by
  decide +kernel

theorem token_toFloat {b : Magnitude} (hb : b < Magnitude.infinity) :
    (Value.number (Magnitude.toFloat false b)).token = .number (Magnitude.toFloat false b) := by
  obtain ⟨hnan, hinf⟩ := isNaN_and_isInf_of_isFinite (Magnitude.isFinite_toFloat hb)
  rw [token, hnan, hinf, if_neg (by decide), if_neg (by decide)]

theorem IsLiteral.literal?_token (h : v.IsLiteral) : v.token.literal? = some v.reread := by
  cases h with
  | null | string s => rfl
  | bool b => cases b <;> rfl
  | nan => rw [token_nan]; rfl
  | infinity => rw [token_infinity]; rfl
  | finite hb => rw [token_toFloat hb]; rfl

/-- A printed literal is read as its token. -/
theorem IsLiteral.lexes (h : v.IsLiteral) {rest : List Char} {tokens : List Token}
    (hrest : ∀ c ∈ rest.head?, isIdentContinue c = false ∧ c ≠ '.') (hlexes : Lexes rest tokens) :
    Lexes (v.literalText ++ rest) (v.token :: tokens) := by
  have hends : ∀ c ∈ rest.head?, isIdentContinue c = false := fun c hc => (hrest c hc).1
  cases h with
  | null => exact lexes_ident (isName_of_keyword? rfl) hends hlexes
  | bool b => cases b <;> exact lexes_ident (isName_of_keyword? rfl) hends hlexes
  | string s =>
      exact .token (.string (.inl rfl) (Text.quoted_flatMap_escape s.toList)) hlexes
  | nan =>
      rw [literalText_number, numberText_nan, token_nan]
      exact lexes_ident (isName_of_keyword? rfl) hends hlexes
  | infinity =>
      rw [literalText_number, numberText_infinity, token_infinity]
      exact lexes_ident (isName_of_keyword? rfl) hends hlexes
  | finite hb =>
      obtain ⟨n, htext, hn⟩ := exists_numberText_eq hb
      rw [token_toFloat hb, literalText_number, htext, ← hn]
      exact lexes_number n hrest hlexes

end Value

/-! ## Expressions -/

/-- A form in parentheses if asked for. -/
def Form.parenthesize (wanted : Bool) (f : Form) : Form :=
  if wanted then .group f else f

namespace Expr

/-- What an expression is read as after it was printed. -/
def reread : Expr → Expr
  | .literal v => .literal v.reread
  | .unary op e => .unary op e.reread
  | .binary op l r => .binary op l.reread r.reread

/-- The form that an expression is printed as at a place that asks for at least the level
`context`. -/
def formAt (context : Nat) : Expr → Form
  | .literal v => .parenthesize (literalLevel < context) (.leaf v.token)
  | .unary op e => .parenthesize (unaryLevel < context) (.unary op (e.formAt unaryLevel))
  | .binary op l r =>
    .parenthesize (op.level < context) (.binary op (l.formAt op.level) (r.formAt (op.level + 1)))

theorem reread_eq_self_iff {e : Expr} :
    e.reread = e ↔ ∀ s, .string s ∈ e.literals → ∀ c ∈ s.toList, Text.ComesBack c := by
  induction e with
  | literal v =>
      rw [reread, literal.injEq, Value.reread_eq_self_iff]
      simp only [literals, List.mem_singleton, eq_comm]
  | unary op e ih => simp only [reread, unary.injEq, true_and, ih, literals]
  | binary op l r ihl ihr =>
      simp only [reread, binary.injEq, true_and, ihl, ihr, literals, List.mem_append, or_imp,
        forall_and]

end Expr

namespace Form

variable {f l r : Form} {level context : Nat} {wanted : Bool}

theorem Derives.parenthesize (h : f.Derives level) (hlevel : level ≤ literalLevel)
    (hcontext : context ≤ literalLevel) : (f.parenthesize (level < context)).Derives context := by
  unfold Form.parenthesize
  split
  · exact derives_group_iff.2 ⟨hcontext, h.of_le (Nat.zero_le _) hlevel⟩
  · rename_i hle
    exact h.of_le (by simpa using hle) hlevel

theorem expr?_parenthesize (meaning : Token → Option Value) :
    (f.parenthesize wanted).expr? meaning = f.expr? meaning := by
  cases wanted <;> rfl

end Form

namespace Expr

/-- The printed form is a form of the grammar. -/
theorem derives_formAt (e : Expr) {context : Nat} (hcontext : context ≤ literalLevel) :
    (e.formAt context).Derives context := by
  induction e generalizing context with
  | literal v =>
      have hleaf : (Form.leaf v.token).Derives literalLevel := by
        refine .leaf fun s => ?_
        cases v with
        | number x => simp only [Value.token]; split_ifs <;> exact nofun
        | _ => exact nofun
      exact hleaf.parenthesize le_rfl hcontext
  | unary op e ih => exact (Form.Derives.unary (ih (by decide))).parenthesize (by decide) hcontext
  | binary op l r ihl ihr =>
      have hop := op.level_lt_unaryLevel
      have hlevel : op.level + 1 ≤ literalLevel := hop.trans (by decide)
      exact (Form.Derives.binary (ihl (by omega)) (ihr hlevel)).parenthesize (by omega) hcontext

/-- The printed form has the tree that the expression is read as. -/
theorem expr?_formAt {e : Expr} (he : ∀ v ∈ e.literals, v.IsLiteral) (context : Nat) :
    (e.formAt context).expr? Token.literal? = some e.reread := by
  induction e generalizing context with
  | literal v =>
      rw [formAt, Form.expr?_parenthesize, Form.expr?,
        (he v (List.mem_singleton_self v)).literal?_token]
      rfl
  | unary op e ih => rw [formAt, Form.expr?_parenthesize, Form.expr?, ih he]; rfl
  | binary op l r ihl ihr =>
      rw [formAt, Form.expr?_parenthesize, Form.expr?,
        ihl fun v hv => he v (List.mem_append_left _ hv),
        ihr fun v hv => he v (List.mem_append_right _ hv)]
      rfl

end Expr

/-! ## Texts of forms -/

/-- Whether a text goes on as it does after an operand: with a blank, a comma or a closing
parenthesis. -/
def EndsOperand (rest : List Char) : Prop :=
  ∀ c ∈ rest.head?, c = ' ' ∨ c = ',' ∨ c = ')'

/-- Whether a text is read as the tokens of a form wherever an operand may end after it.  It must
not start with an equals sign, or `!` before it would be another symbol. -/
structure Form.IsText (f : Form) (cs : List Char) : Prop where
  exists_eq_cons : ∃ c ds, cs = c :: ds ∧ c ≠ '='
  lexes : ∀ {rest tokens}, EndsOperand rest → Lexes rest tokens →
    Lexes (cs ++ rest) (f.tokens ++ tokens)

theorem Value.IsLiteral.exists_literalText_eq {v : Value} (h : v.IsLiteral) :
    ∃ c cs, v.literalText = c :: cs ∧ c ≠ '=' := by
  cases h with
  | null => exact ⟨'n', _, rfl, by decide⟩
  | bool b => cases b <;> exact ⟨_, _, rfl, by decide⟩
  | string s => exact ⟨'"', _, rfl, by decide⟩
  | nan =>
      rw [literalText_number, numberText_nan]
      exact ⟨'N', _, rfl, by decide⟩
  | infinity =>
      rw [literalText_number, numberText_infinity]
      exact ⟨'I', _, rfl, by decide⟩
  | finite hb =>
      obtain ⟨n, htext, -⟩ := exists_numberText_eq hb
      obtain ⟨c, cs, hn, hc⟩ := n.exists_text_eq_ne
      rw [literalText_number, htext, hn]
      exact ⟨c, cs, rfl, hc⟩

namespace Form.IsText

variable {f l r : Form} {cs ds : List Char}

theorem lexes_self (h : f.IsText cs) : Lexes cs f.tokens := by
  have hends : EndsOperand [] := nofun
  have hlexes := h.lexes hends .nil
  rwa [List.append_nil, List.append_nil] at hlexes

theorem leaf {v : Value} (h : v.IsLiteral) : (Form.leaf v.token).IsText v.literalText where
  exists_eq_cons := h.exists_literalText_eq
  lexes hrest hlexes := by
    refine h.lexes (fun c hc => ?_) hlexes
    rcases hrest c hc with rfl | rfl | rfl <;> decide

theorem parenthesize (h : f.IsText cs) (wanted : Bool) :
    (f.parenthesize wanted).IsText (Workflow.parenthesize wanted cs) := by
  cases wanted with
  | false => exact h
  | true =>
      refine ⟨⟨'(', cs ++ [')'], rfl, by decide⟩, fun {rest tokens} _ hlexes => ?_⟩
      have hclose : Lexes (')' :: rest) (.symbol .closeParen :: tokens) :=
        .token (.symbol (s := .closeParen) nofun) hlexes
      have hopen : Lexes ('(' :: (cs ++ ')' :: rest))
          (.symbol .openParen :: (f.tokens ++ .symbol .closeParen :: tokens)) :=
        .token (.symbol (s := .openParen) nofun) (h.lexes (by simp [EndsOperand]) hclose)
      simpa [Workflow.parenthesize, Form.parenthesize, Form.tokens] using hopen

theorem unary (h : f.IsText cs) (op : UnaryOp) :
    (Form.unary op f).IsText (op.symbol.toList ++ cs) := by
  refine ⟨?_, fun {rest tokens} hrest hlexes => ?_⟩
  · cases op <;> exact ⟨_, _, rfl, by decide⟩
  · have hends : op.toSymbol.Ends (cs ++ rest) := by
      obtain ⟨c, ds, rfl, hc⟩ := h.exists_eq_cons
      exact fun _ heq => hc (Option.some.inj heq)
    rw [← op.text_toSymbol, List.append_assoc]
    exact .token (.symbol hends) (h.lexes hrest hlexes)

/-- A blank ends the symbol between two operands. -/
theorem lexes_symbol (op : BinaryOp) {rest : List Char} {tokens : List Token}
    (h : Lexes rest tokens) :
    Lexes (op.symbol.toList ++ ' ' :: rest) (.symbol op.toSymbol :: tokens) := by
  rw [← op.text_toSymbol]
  exact .token (.symbol fun _ => by simp) (.blank (by decide) h)

theorem lexes_separator (op : BinaryOp) {rest : List Char} {tokens : List Token}
    (h : Lexes rest tokens) : Lexes (op.separator ++ rest) (.symbol op.toSymbol :: tokens) := by
  have hsymbol := lexes_symbol op h
  cases op with
  | sequence => exact hsymbol
  | _ => exact .blank (by decide) (by simpa using hsymbol)

theorem endsOperand_separator_append (op : BinaryOp) (rest : List Char) :
    EndsOperand (op.separator ++ rest) := by
  cases op <;> simp [EndsOperand, BinaryOp.separator]

/-- Two texts with a text of the symbol between them. -/
theorem binary_of_lexes (hl : l.IsText cs) (hr : r.IsText ds) {op : BinaryOp} {between : List Char}
    (hends : ∀ rest, EndsOperand (between ++ rest))
    (hlexes : ∀ {rest tokens}, Lexes rest tokens →
      Lexes (between ++ rest) (.symbol op.toSymbol :: tokens)) :
    (Form.binary op l r).IsText (cs ++ between ++ ds) := by
  refine ⟨?_, fun {rest tokens} hrest htokens => ?_⟩
  · obtain ⟨c, cs, rfl, hc⟩ := hl.exists_eq_cons
    exact ⟨c, _, rfl, hc⟩
  · have hright := hlexes (hr.lexes hrest htokens)
    have hleft := hl.lexes (hends (ds ++ rest)) hright
    simpa [Form.tokens] using hleft

theorem binary (hl : l.IsText cs) (hr : r.IsText ds) (op : BinaryOp) :
    (Form.binary op l r).IsText (cs ++ op.separator ++ ds) :=
  hl.binary_of_lexes hr (endsOperand_separator_append op) (lexes_separator op)

end Form.IsText

/-- **What is printed is a text of the printed form.** -/
theorem Expr.isText_printAt {e : Expr} (he : ∀ v ∈ e.literals, v.IsLiteral) (context : Nat) :
    (e.formAt context).IsText (e.printAt context) := by
  induction e generalizing context with
  | literal v => exact (Form.IsText.leaf (he v (List.mem_singleton_self v))).parenthesize _
  | unary op e ih => exact ((ih he unaryLevel).unary op).parenthesize _
  | binary op l r ihl ihr =>
      have hl := ihl (fun v hv => he v (List.mem_append_left _ hv)) op.level
      have hr := ihr (fun v hv => he v (List.mem_append_right _ hv)) (op.level + 1)
      exact (hl.binary hr op).parenthesize _

/-! ## Reading what was printed -/

theorem Expr.tokenize_print {e : Expr} (he : ∀ v ∈ e.literals, v.IsLiteral) :
    tokenize e.print = .ok (e.formAt 0).tokens := by
  rw [tokenize_eq_ok_iff, print, String.toList_ofList]
  exact (Expr.isText_printAt he 0).lexes_self

/-- **What a printed expression is read as**: the expression with its strings reread, if the printed
form keeps to the depth. -/
theorem parseExpr_print_eq_ok_iff {e e' : Expr} (he : ∀ v ∈ e.literals, v.IsLiteral) :
    parseExpr e.print = .ok e' ↔
      e' = e.reread ∧ ∀ n ∈ (e.formAt 0).counts 0, n ≤ maxDepth := by
  have hderives := e.derives_formAt (Nat.zero_le literalLevel)
  have hexpr := Expr.expr?_formAt he 0
  rw [parseExpr, Expr.tokenize_print he]
  simp only [parseTokens_eq_ok_iff_form]
  constructor
  · rintro ⟨f, hf, htokens, hexprf, hcounts⟩
    cases Form.eq_of_tokens_eq hf hderives htokens
    rw [hexpr] at hexprf
    exact ⟨(Option.some.inj hexprf).symm, hcounts⟩
  · rintro ⟨rfl, hcounts⟩
    exact ⟨_, hderives, rfl, hexpr, hcounts⟩

/-- The literals of an accepted text are those that a token can have. -/
theorem isLiteral_of_parseExpr {source : String} {e : Expr} (h : parseExpr source = .ok e) :
    ∀ v ∈ e.literals, v.IsLiteral := by
  rw [parseExpr] at h
  split at h
  · cases h
  · rename_i tokens htokens
    obtain ⟨f, -, rfl, hexpr, -⟩ := parseTokens_eq_ok_iff_form.1 h
    intro v hv
    obtain ⟨token, htoken, hmeaning⟩ := Form.exists_mem_tokens hexpr hv
    exact (tokenize_eq_ok_iff.1 htokens).isLiteral htoken hmeaning

/-! ## The depth of what is printed -/

namespace Form

/-- A form without the parentheses around it. -/
def bare : Form → Form
  | .group f => f.bare
  | f => f

/-- Whether no parentheses on the left of an operator hold a chain of the operator's own level. -/
def KeepsChains : Form → Prop
  | .leaf _ => True
  | .group f => f.KeepsChains
  | .unary _ f => f.KeepsChains
  | .binary op l r => l.bare.links op.level = l.links op.level ∧ l.KeepsChains ∧ r.KeepsChains

end Form

namespace Expr

/-- The number of operators of a level that follow one another down the left side of a tree. -/
def chainLength (level : Nat) : Expr → Nat
  | .binary op l _ => if op.level = level then l.chainLength level + 1 else 0
  | _ => 0

/-- What is printed at a place that asks for a tighter level differs by the parentheses only. -/
theorem formAt_eq_parenthesize (e : Expr) (context : Nat) :
    e.formAt context = .parenthesize (e.level < context) (e.formAt 0) := by
  cases e <;> rfl

theorem length_links_formAt (e : Expr) (level : Nat) :
    ((e.formAt level).links level).length = e.chainLength level := by
  induction e with
  | literal v => rw [formAt, Form.parenthesize]; split <;> rfl
  | unary op e _ => rw [formAt, Form.parenthesize]; split <;> rfl
  | binary op l r ihl _ =>
      rw [formAt, Form.parenthesize, chainLength]
      by_cases hop : op.level = level
      · subst hop
        simp [Form.links, ihl]
      · split <;> simp [Form.links, hop]

/-- The chain of a form is the chain of its tree, if no parentheses interrupt it. -/
theorem length_links_bare {meaning : Token → Option Value} {f : Form} {e : Expr}
    (h : f.expr? meaning = some e) (hkeeps : f.KeepsChains) (level : Nat) :
    (f.bare.links level).length = e.chainLength level := by
  induction f generalizing e with
  | leaf token =>
      obtain ⟨v, -, rfl⟩ := Option.map_eq_some_iff.1 h
      rfl
  | group f ih => exact ih h hkeeps
  | unary op f ih =>
      obtain ⟨operand, -, rfl⟩ := Option.map_eq_some_iff.1 h
      rfl
  | binary op l r ihl ihr =>
      obtain ⟨hchain, hl, -⟩ := hkeeps
      obtain ⟨left, right, hleft, hright, rfl⟩ := Form.expr?_binary_eq_some_iff.1 h
      simp only [Form.bare, Form.links, chainLength]
      split
      · rename_i hop
        subst hop
        rw [List.length_append, List.length_singleton, ← hchain, ihl hleft hl]
      · rfl

/-- Where no parentheses interrupt a chain, what is printed has no more open than what was read. -/
theorem counts_formAt_le {meaning : Token → Option Value} {f : Form} {e : Expr} {level n m d : Nat}
    (h : f.expr? meaning = some e) (hderives : f.Derives level) (hkeeps : f.KeepsChains)
    (hnm : n ≤ m) (hcounts : ∀ k ∈ f.counts m, k ≤ d) : ∀ k ∈ (e.formAt level).counts n, k ≤ d := by
  induction f generalizing e level n m with
  | leaf token =>
      obtain ⟨v, -, rfl⟩ := Option.map_eq_some_iff.1 h
      have hlevel := (Form.derives_leaf_iff.1 hderives).1
      simp only [formAt, Form.parenthesize, decide_eq_true_eq, if_neg hlevel.not_gt, Form.counts,
        List.mem_singleton, forall_eq] at hcounts ⊢
      exact hnm.trans hcounts
  | group f ih =>
      obtain ⟨-, hf⟩ := Form.derives_group_iff.1 hderives
      simp only [Form.counts, List.forall_mem_cons, List.forall_mem_append] at hcounts
      obtain ⟨hopen, hinner, -⟩ := hcounts
      rw [formAt_eq_parenthesize, Form.parenthesize]
      split
      · simp only [Form.counts, List.forall_mem_cons, List.forall_mem_append, List.mem_singleton,
          forall_eq]
        exact ⟨by omega, ih h hf hkeeps (Nat.succ_le_succ hnm) hinner, by omega⟩
      · exact ih h hf hkeeps (Nat.le_succ_of_le hnm) hinner
  | unary op f ih =>
      obtain ⟨hlevel, hf⟩ := Form.derives_unary_iff.1 hderives
      obtain ⟨operand, hoperand, rfl⟩ := Option.map_eq_some_iff.1 h
      simp only [formAt, Form.parenthesize, decide_eq_true_eq, if_neg hlevel.not_gt, Form.counts,
        List.forall_mem_cons] at hcounts ⊢
      exact ⟨by omega, ih hoperand hf hkeeps (Nat.succ_le_succ hnm) hcounts.2⟩
  | binary op l r ihl ihr =>
      obtain ⟨hlevel, hl, hr⟩ := Form.derives_binary_iff.1 hderives
      obtain ⟨hchain, hkeepsL, hkeepsR⟩ := hkeeps
      obtain ⟨left, right, hleft, hright, rfl⟩ := Form.expr?_binary_eq_some_iff.1 h
      -- both chains have read as many operators
      have hread : ((left.formAt op.level).links op.level).length = (l.links op.level).length := by
        rw [length_links_formAt, ← hchain, length_links_bare hleft hkeepsL]
      simp only [formAt, Form.parenthesize, decide_eq_true_eq, if_neg hlevel.not_gt, Form.counts,
        List.forall_mem_append, List.forall_mem_cons, hread] at hcounts ⊢
      obtain ⟨hcountsL, hop, hcountsR⟩ := hcounts
      exact ⟨ihl hleft hl hkeepsL hnm hcountsL, by omega,
        ihr hright hr hkeepsR (Nat.add_le_add_right hnm _) hcountsR⟩

end Expr

/-- **Which expressions come back from their text.**  The tree of an accepted text is read again
from what is printed for it exactly when every character of its strings comes back and the printed
form has nowhere more open than the depth allows; and the second can only fail where a text has a
chain in parentheses on the left of an operator of its level, because those are left out. -/
theorem parseExpr_print_iff {source : String} {e : Expr} (h : parseExpr source = .ok e) :
    (parseExpr e.print = .ok e ↔
      (∀ s, .string s ∈ e.literals → ∀ c ∈ s.toList, Text.ComesBack c) ∧
        ∀ n ∈ (e.formAt 0).counts 0, n ≤ maxDepth) ∧
    ∀ f : Form, f.Derives 0 → tokenize source = .ok f.tokens → f.KeepsChains →
      ∀ n ∈ (e.formAt 0).counts 0, n ≤ maxDepth := by
  refine ⟨?_, fun f hf htokens hkeeps => ?_⟩
  · rw [parseExpr_print_eq_ok_iff (isLiteral_of_parseExpr h), eq_comm, Expr.reread_eq_self_iff]
  · rw [parseExpr, htokens] at h
    obtain ⟨g, hg, htokensg, hexpr, hcounts⟩ := parseTokens_eq_ok_iff_form.1 h
    cases Form.eq_of_tokens_eq hg hf htokensg
    exact Expr.counts_formAt_le hexpr hg hkeeps le_rfl hcounts

/-- Parentheses that are needed, and a control character that comes back. -/
theorem parseExpr_print_not_or_strictEqual :
    let e : Expr := .binary .strictEqual
      (.unary .not (.binary .or (.literal (.bool true)) (.literal .null)))
      (.literal (.string "a\tb"))
    parseExpr "!(true||null)==='a\tb'" = .ok e ∧ parseExpr e.print = .ok e := by
  intro e
  have hparse : parseExpr "!(true||null)==='a\tb'" = .ok e := by cbv
  have hback : ∀ s, .string s ∈ e.literals → ∀ c ∈ s.toList, Text.ComesBack c := by
    intro s hs
    simp only [e, Expr.literals, List.mem_append, List.mem_singleton, reduceCtorEq, false_or,
      Value.string.injEq] at hs
    subst hs
    exact List.forall_iff_forall_mem.1 (by decide +kernel)
  exact ⟨hparse, (parseExpr_print_iff hparse).1.2 ⟨hback, by decide⟩⟩

/-- A control character is spelt out in a way that is not read back; and where as much is open as the
depth allows, a chain whose start stood in parentheses is too long without them. -/
theorem parseExpr_print_ne :
    (∃ e, parseExpr "'\x01'" = .ok e ∧ parseExpr e.print ≠ .ok e) ∧
    ∃ e, parseExpr (String.ofList (List.replicate 61 '!') ++ "((null+null)+null+null)") = .ok e ∧
      parseExpr e.print ≠ .ok e := by
  constructor
  · have hparse : parseExpr "'\x01'" = .ok (.literal (.string "\x01")) := by cbv
    refine ⟨_, hparse, fun h => ?_⟩
    have hreread := ((parseExpr_print_eq_ok_iff (isLiteral_of_parseExpr hparse)).1 h).1
    exact absurd hreread (by decide +kernel)
  · let add := Expr.binary .add
    let null := Expr.literal .null
    have hparse : parseExpr
        (String.ofList (List.replicate 61 '!') ++ "((null+null)+null+null)") =
          .ok ((Expr.unary .not)^[61] (add (add (add null null) null) null)) := by
      cbv
    refine ⟨_, hparse, fun h => ?_⟩
    have hcounts := ((parseExpr_print_eq_ok_iff (isLiteral_of_parseExpr hparse)).1 h).2
    exact absurd hcounts (by decide +kernel)

end Workflow
