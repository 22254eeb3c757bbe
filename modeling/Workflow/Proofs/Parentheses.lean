import Workflow.Proofs.Printing

/-!
# Parentheses

The printer puts a tree in parentheses where a place asks for a tighter level than the tree has.  It
puts in no more than that: a text of the same tree cannot do with fewer, so that none of the printed
ones can be left out.

* `Text.parens` are the parentheses of a text that stand outside of strings, and `Lexes.parens_eq`
  says that they are its tokens.
* `Text.ArePartners` says which of them belong together.
* `IsReadAs` is what the grammar reads a text as, however much is open in it.
* `Form.count_parens_formAt_le` says that of all forms with the same tree the printed one has the
  fewest parentheses, and `Expr.count_parens_print_le` the same of texts.
* `Expr.print_needs_parens` is what follows for a single pair.
-/

namespace Workflow

/-! ## The parentheses of a text -/

namespace Text

/-- Where a reader of an expression is. -/
inductive Place where
  | outside
  /-- Between quotes, of which the second is to come. -/
  | inside (close : Char)
  /-- Between quotes and behind a backslash. -/
  | escaped (close : Char)
deriving DecidableEq

/-- Where the reader is after one more character. -/
def Place.next : Place → Char → Place
  | .outside, c => if c = '"' ∨ c = '\'' then .inside c else .outside
  | .inside close, c =>
    if c = close then .outside else if c = '\\' then .escaped close else .inside close
  | .escaped close, _ => .inside close

/-- Where the reader is after some text. -/
def Place.after (s : Place) (cs : List Char) : Place :=
  cs.foldl next s

/-- The parentheses of a text that stand outside of strings, if the text begins at some place. -/
def parensFrom (s : Place) : List Char → List Char
  | [] => []
  | c :: cs =>
    if s = .outside ∧ (c = '(' ∨ c = ')') then c :: parensFrom (s.next c) cs
    else parensFrom (s.next c) cs

/-- The parentheses of a text that stand outside of strings. -/
def parens (cs : List Char) : List Char :=
  parensFrom .outside cs

/-- Whether a text ends outside of strings. -/
def EndsOutside (cs : List Char) : Prop :=
  Place.outside.after cs = .outside

/-- Whether every parenthesis has its partner. -/
inductive IsBalanced : List Char → Prop
  | nil : IsBalanced []
  | pair {cs ds : List Char} :
      IsBalanced cs → IsBalanced ds → IsBalanced ('(' :: (cs ++ ')' :: ds))

/-- Whether the parenthesis that opens after `before` is closed after `inner`: outside of strings,
with all parentheses between the two being partners of one another. -/
structure ArePartners (before inner : List Char) : Prop where
  before_endsOutside : EndsOutside before
  inner_endsOutside : EndsOutside inner
  isBalanced : IsBalanced (parens inner)

section Parens

variable {s : Place} {cs ds : List Char}

theorem Place.after_append (s : Place) (cs ds : List Char) :
    s.after (cs ++ ds) = (s.after cs).after ds :=
  List.foldl_append

theorem parensFrom_append (s : Place) (cs ds : List Char) :
    parensFrom s (cs ++ ds) = parensFrom s cs ++ parensFrom (s.after cs) ds := by
  induction cs generalizing s with
  | nil => rfl
  | cons c cs ih =>
      rw [List.cons_append, parensFrom, parensFrom, ih]
      split <;> rfl

theorem EndsOutside.parens_append (h : EndsOutside cs) (ds : List Char) :
    parens (cs ++ ds) = parens cs ++ parens ds := by
  rw [parens, parensFrom_append, h]
  rfl

theorem EndsOutside.append (hcs : EndsOutside cs) (hds : EndsOutside ds) :
    EndsOutside (cs ++ ds) := by
  rw [EndsOutside, Place.after_append, hcs]
  exact hds

/-- Where a parenthesis comes up outside of strings, the text can be taken apart. -/
theorem exists_of_parensFrom_eq {ps qs : List Char} {p : Char}
    (h : parensFrom s cs = ps ++ p :: qs) :
    ∃ ds es, cs = ds ++ p :: es ∧ s.after ds = .outside ∧ parensFrom s ds = ps := by
  induction cs generalizing s ps with
  | nil => simp [parensFrom] at h
  | cons c cs ih =>
      rw [parensFrom] at h
      split at h
      · rename_i hc
        cases ps with
        | nil =>
            obtain ⟨rfl, -⟩ := List.cons.inj h
            exact ⟨[], cs, rfl, hc.1, rfl⟩
        | cons q ps =>
            obtain ⟨rfl, hrest⟩ := List.cons.inj h
            obtain ⟨ds, es, rfl, hafter, hds⟩ := ih hrest
            exact ⟨c :: ds, es, rfl, hafter, by rw [parensFrom, if_pos hc, hds]⟩
      · rename_i hc
        obtain ⟨ds, es, rfl, hafter, hds⟩ := ih h
        exact ⟨c :: ds, es, rfl, hafter, by rw [parensFrom, if_neg hc, hds]⟩

/-- Characters that neither open a string nor are parentheses. -/
theorem parens_eq_nil (h : ∀ c ∈ cs, c ∉ ['"', '\'', '(', ')']) :
    EndsOutside cs ∧ parens cs = [] := by
  induction cs with
  | nil => exact ⟨rfl, rfl⟩
  | cons c cs ih =>
      obtain ⟨hc, hcs⟩ := List.forall_mem_cons.1 h
      simp only [List.mem_cons, List.not_mem_nil, or_false, not_or] at hc
      obtain ⟨hdouble, hsingle, hopen, hclose⟩ := hc
      obtain ⟨hends, hparens⟩ := ih hcs
      have hnext : Place.outside.next c = .outside := by simp [Place.next, hdouble, hsingle]
      refine ⟨?_, ?_⟩
      · rw [EndsOutside, Place.after, List.foldl_cons, hnext]
        exact hends
      · rw [parens, parensFrom, hnext, if_neg (by simp [hopen, hclose])]
        exact hparens

end Parens

/-! ## Partners -/

theorem IsBalanced.append {cs ds : List Char} (hcs : IsBalanced cs) (hds : IsBalanced ds) :
    IsBalanced (cs ++ ds) := by
  induction hcs with
  | nil => exact hds
  | pair hinner _ _ ih =>
      rw [List.cons_append, List.append_assoc, List.cons_append]
      exact .pair hinner ih

/-- Where all is balanced, every parenthesis that opens is closed. -/
theorem IsBalanced.exists_partner {cs front more : List Char} (h : IsBalanced cs)
    (hcs : cs = front ++ '(' :: more) :
    ∃ inner rest, more = inner ++ ')' :: rest ∧ IsBalanced inner := by
  induction h generalizing front more with
  | nil => simp at hcs
  | @pair cs ds hcs' _ ihcs ihds =>
      cases front with
      | nil =>
          obtain rfl := (List.cons.inj hcs).2
          exact ⟨cs, ds, rfl, hcs'⟩
      | cons c front =>
          obtain ⟨rfl, hrest⟩ := List.cons.inj hcs
          rcases List.append_eq_append_iff.1 hrest with ⟨between, rfl, hds⟩ | ⟨between, rfl, hmore⟩
          · cases between with
            | nil => cases hds
            | cons c between =>
                obtain ⟨rfl, rfl⟩ := List.cons.inj hds
                exact ihds rfl
          · cases between with
            | nil => cases hmore
            | cons c between =>
                obtain ⟨rfl, rfl⟩ := List.cons.inj hmore
                obtain ⟨inner, rest, rfl, hinner⟩ := ihcs rfl
                exact ⟨inner, rest ++ ')' :: ds, by simp, hinner⟩

/-- Without a pair of partners a text has one parenthesis less that opens. -/
theorem ArePartners.count_parens {before inner : List Char} (h : ArePartners before inner)
    (after : List Char) :
    (parens (before ++ '(' :: (inner ++ ')' :: after))).count '(' =
      (parens (before ++ inner ++ after)).count '(' + 1 := by
  have hpair : ∀ p rest, p = '(' ∨ p = ')' → parens (p :: rest) = p :: parens rest := by
    rintro p rest (rfl | rfl) <;> rfl
  rw [List.append_assoc, h.before_endsOutside.parens_append, h.before_endsOutside.parens_append,
    hpair _ _ (.inl rfl), h.inner_endsOutside.parens_append, h.inner_endsOutside.parens_append,
    hpair _ _ (.inr rfl)]
  simp only [List.count_append, List.count_cons_self,
    List.count_cons_of_ne (show ')' ≠ '(' by decide)]
  omega

end Text

/-! ## The parentheses of tokens -/

/-- The parenthesis that a token is. -/
def Token.paren? : Token → Option Char
  | .symbol .openParen => some '('
  | .symbol .closeParen => some ')'
  | _ => none

theorem Token.paren?_of_ne_symbol {token : Token} (h : ∀ s, token ≠ .symbol s) :
    token.paren? = none := by
  cases token with
  | symbol s => exact absurd rfl (h s)
  | _ => rfl

section Lexemes

open Text

theorem Quoted.parensFrom_eq {close : Char} {body s : List Char} (h : Quoted close body s)
    (hclose : close ≠ '\\') :
    (Place.inside close).after (body ++ [close]) = .outside ∧
      parensFrom (.inside close) (body ++ [close]) = [] := by
  induction h with
  | nil => simp [Place.after, Place.next, parensFrom]
  | escape _ ih => simpa [Place.after, Place.next, parensFrom, hclose.symm] using ih
  | plain hc hescape _ _ ih => simpa [Place.after, Place.next, parensFrom, hc, hescape] using ih

theorem Lexeme.parens_eq {chars rest : List Char} {token : Token} (h : Lexeme chars token rest) :
    EndsOutside chars ∧ parens chars = [token].filterMap Token.paren? := by
  cases h with
  | number _ =>
      have hmarks : ∀ c ∈ ['.', 'e', 'E', '+', '-'], c ∉ ['"', '\'', '(', ')'] := by
        simp
      refine parens_eq_nil fun c hc => ?_
      rcases Numeral.mem_text hc with hdigit | hmark
      · intro hquote
        fin_cases hquote <;> cases hdigit
      · exact hmarks c hmark
  | @string close body s _ hclose hquoted =>
      have hbody := hquoted.parensFrom_eq (by rcases hclose with rfl | rfl <;> decide)
      rcases hclose with rfl | rfl <;> exact hbody
  | @ident c cs _ hstart hcontinue _ =>
      refine parens_eq_nil fun d hd hquote => ?_
      have hd : isIdentContinue d = true := by
        rcases List.mem_cons.1 hd with rfl | hd
        · rw [isIdentContinue, hstart, Bool.true_or]
        · exact hcontinue d hd
      fin_cases hquote <;> cases hd
  | @symbol s _ _ => cases s <;> exact ⟨rfl, rfl⟩

/-- **The parentheses of a text are its tokens**, in the same order. -/
theorem Lexes.parens_eq {cs : List Char} {tokens : List Token} (h : Lexes cs tokens) :
    EndsOutside cs ∧ parens cs = tokens.filterMap Token.paren? := by
  induction h with
  | nil => exact ⟨rfl, rfl⟩
  | @blank c cs tokens hblank _ ih =>
      have hc : EndsOutside [c] ∧ parens [c] = [] := by
        refine parens_eq_nil fun d hd hquote => ?_
        obtain rfl := List.mem_singleton.1 hd
        fin_cases hquote <;> cases hblank
      rw [← List.singleton_append, hc.1.parens_append, hc.2, List.nil_append]
      exact ⟨hc.1.append ih.1, ih.2⟩
  | @token chars rest token tokens hlexeme _ ih =>
      obtain ⟨hends, hparens⟩ := hlexeme.parens_eq
      rw [hends.parens_append, hparens, ih.2, ← List.filterMap_append, List.singleton_append]
      exact ⟨hends.append ih.1, rfl⟩

end Lexemes

/-! ## The parentheses of forms -/

namespace Form

/-- The parentheses of a form. -/
def parens (f : Form) : List Char :=
  f.tokens.filterMap Token.paren?

variable {f : Form} {level : Nat}

theorem parens_leaf {token : Token} (h : ∀ s, token ≠ .symbol s) : (leaf token).parens = [] := by
  rw [parens, tokens, List.filterMap_cons, Token.paren?_of_ne_symbol h]
  rfl

theorem parens_group (f : Form) : (group f).parens = '(' :: (f.parens ++ [')']) := by
  rw [parens, tokens, List.filterMap_cons, List.filterMap_append]
  rfl

theorem parens_unary (op : UnaryOp) (f : Form) : (unary op f).parens = f.parens := by
  cases op <;> rfl

theorem parens_binary (op : BinaryOp) (l r : Form) :
    (binary op l r).parens = l.parens ++ r.parens := by
  rw [parens, tokens, List.filterMap_append, List.filterMap_cons]
  cases op <;> rfl

theorem Derives.isBalanced_parens (h : f.Derives level) : Text.IsBalanced f.parens := by
  induction h with
  | binary _ _ ihl ihr =>
      rw [parens_binary]
      exact ihl.append ihr
  | unary _ ih =>
      rw [parens_unary]
      exact ih
  | leaf htoken =>
      rw [parens_leaf htoken]
      exact .nil
  | group _ ih =>
      rw [parens_group]
      exact .pair ih .nil
  | tighter _ _ ih => exact ih

/-- **The printed form has the fewest parentheses** of all forms with its tree: where a form has
none, its level allows for it, and then the printed form has none there either. -/
theorem count_parens_formAt_le {meaning : Token → Option Value} {e : Expr}
    (hderives : f.Derives level) (hexpr : f.expr? meaning = some e) :
    (e.formAt level).parens.count '(' ≤ f.parens.count '(' := by
  induction f generalizing level e with
  | leaf token =>
      obtain ⟨v, -, rfl⟩ := Option.map_eq_some_iff.1 hexpr
      have hlevel := (derives_leaf_iff.1 hderives).1
      have hprinted := (Expr.literal v).derives_formAt hlevel
      rw [Expr.formAt, parenthesize, if_neg (by simpa using hlevel)] at hprinted ⊢
      rw [parens_leaf (derives_leaf_iff.1 hprinted).2]
      exact Nat.zero_le _
  | group f ih =>
      have hinner := ih (derives_group_iff.1 hderives).2 hexpr
      rw [Expr.formAt_eq_parenthesize, parenthesize]
      split <;> simp only [parens_group, List.count_cons_self, List.count_append] <;> omega
  | unary op f ih =>
      obtain ⟨hlevel, hf⟩ := derives_unary_iff.1 hderives
      obtain ⟨operand, hoperand, rfl⟩ := Option.map_eq_some_iff.1 hexpr
      rw [Expr.formAt, parenthesize, if_neg (by simpa using hlevel), parens_unary, parens_unary]
      exact ih hf hoperand
  | binary op l r ihl ihr =>
      obtain ⟨hlevel, hl, hr⟩ := derives_binary_iff.1 hderives
      obtain ⟨left, right, hleft, hright, rfl⟩ := expr?_binary_eq_some_iff.1 hexpr
      rw [Expr.formAt, parenthesize, if_neg (by simpa using hlevel), parens_binary, parens_binary,
        List.count_append, List.count_append]
      exact Nat.add_le_add (ihl hl hleft) (ihr hr hright)

end Form

/-! ## The parentheses of printed texts -/

/-- Whether the grammar reads a text as a tree, however much is open in it. -/
def IsReadAs (source : String) (e : Expr) : Prop :=
  ∃ f : Form, f.Derives 0 ∧ tokenize source = .ok f.tokens ∧ f.expr? Token.literal? = some e

namespace Expr

variable {e : Expr}

theorem parens_print (he : ∀ v ∈ e.literals, v.IsLiteral) :
    Text.parens e.print.toList = (e.formAt 0).parens :=
  (tokenize_eq_ok_iff.1 (tokenize_print he)).parens_eq.2

/-- **What is printed has the fewest parentheses** of all texts that are read as the expression. -/
theorem count_parens_print_le (he : ∀ v ∈ e.literals, v.IsLiteral) {source : String}
    (h : IsReadAs source e) :
    (Text.parens e.print.toList).count '(' ≤ (Text.parens source.toList).count '(' := by
  obtain ⟨f, hderives, htokens, hexpr⟩ := h
  rw [parens_print he, (tokenize_eq_ok_iff.1 htokens).parens_eq.2]
  exact Form.count_parens_formAt_le hderives hexpr

/-- **No printed parentheses can be left out.**  Each one that opens outside of strings is closed,
and without the two the text is no longer read as the expression. -/
theorem print_needs_parens (he : ∀ v ∈ e.literals, v.IsLiteral) :
    (∀ before more, e.print.toList = before ++ '(' :: more → Text.EndsOutside before →
      ∃ inner after, more = inner ++ ')' :: after ∧ Text.ArePartners before inner) ∧
    ∀ before inner after, e.print.toList = before ++ '(' :: (inner ++ ')' :: after) →
      Text.ArePartners before inner → ¬IsReadAs (String.ofList (before ++ inner ++ after)) e := by
  refine ⟨fun before more hprint hbefore => ?_, fun before inner after hprint hpartners hread => ?_⟩
  · have hbalanced := (e.derives_formAt (Nat.zero_le literalLevel)).isBalanced_parens
    rw [← parens_print he, hprint, hbefore.parens_append] at hbalanced
    obtain ⟨ps, qs, hmore, hps⟩ := hbalanced.exists_partner rfl
    obtain ⟨inner, after, rfl, hends, rfl⟩ := Text.exists_of_parensFrom_eq hmore
    exact ⟨inner, after, rfl, hbefore, hends, hps⟩
  · have hle := count_parens_print_le he hread
    rw [hprint, hpartners.count_parens, String.toList_ofList] at hle
    omega

/-- Two pairs, and a parenthesis in a string: without the outer pair the minus sign would stand for
`null` alone. -/
theorem print_needs_parens_minus :
    let e : Expr := .unary .minus (.binary .subtract (.literal .null)
      (.binary .add (.literal (.string ")")) (.literal (.bool true))))
    (∀ v ∈ e.literals, v.IsLiteral) ∧ e.print = "-(null - (\")\" + true))" ∧
      Text.ArePartners "-".toList "null - (\")\" + true)".toList ∧
      ¬IsReadAs "-null - (\")\" + true)" e := by
  intro e
  have hparse : parseExpr "-(null-(')'+true))" = .ok e := by cbv
  have he := isLiteral_of_parseExpr hparse
  have hprint : e.print = "-(null - (\")\" + true))" := by decide +kernel
  have hpartners : Text.ArePartners "-".toList "null - (\")\" + true)".toList :=
    ⟨rfl, rfl, .pair .nil .nil⟩
  have hneeds := (print_needs_parens he).2 "-".toList "null - (\")\" + true)".toList []
  exact ⟨he, hprint, hpartners, hneeds (by rw [hprint]; rfl) hpartners⟩

end Expr

end Workflow
