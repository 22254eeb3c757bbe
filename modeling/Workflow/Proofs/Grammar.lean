import Workflow.Proofs.Height

/-!
# The grammar of expressions

What the parsers read, said without them: a grammar with seven levels of operators on two operands,
each left-associative, and a count of what is open while a text is read from left to right.

* `Form` are the texts of the grammar with their structure, and `Form.tokens` is what they are
  written as.
* `Form.Derives` are the productions.
* `Form.expr?` is the tree of a form, once its leaves have a meaning.
* `Form.counts` is how much is open after each token.
* `Form.eq_of_tokens_eq` says that the grammar is unambiguous.
* `parseTokens_grammar` says that the parsers accept the forms in which no more than `maxDepth` is
  ever open, and give back their trees.
-/

namespace Workflow

/-! ## Forms -/

/-- A text of the grammar with its structure.  A leaf is a token that is no symbol. -/
inductive Form where
  | leaf (token : Token)
  | group (inner : Form)
  | unary (op : UnaryOp) (operand : Form)
  | binary (op : BinaryOp) (left right : Form)
deriving DecidableEq, Repr

namespace Form

/-- The tokens that a form is written as. -/
def tokens : Form → List Token
  | .leaf token => [token]
  | .group f => .symbol .openParen :: (f.tokens ++ [.symbol .closeParen])
  | .unary op f => .symbol op.toSymbol :: f.tokens
  | .binary op l r => l.tokens ++ .symbol op.toSymbol :: r.tokens

/-- The productions of the grammar: what can be derived from each level.  An operator on two
operands may stand on its left beside operators of its own level, on its right only beside tighter
ones. -/
inductive Derives : Nat → Form → Prop
  | binary {op : BinaryOp} {l r : Form} :
      Derives op.level l → Derives (op.level + 1) r → Derives op.level (.binary op l r)
  | unary {op : UnaryOp} {f : Form} : Derives unaryLevel f → Derives unaryLevel (.unary op f)
  | leaf {token : Token} : (∀ s, token ≠ .symbol s) → Derives literalLevel (.leaf token)
  | group {f : Form} : Derives 0 f → Derives literalLevel (.group f)
  | tighter {level : Nat} {f : Form} :
      level < literalLevel → Derives (level + 1) f → Derives level f

/-- The tree of a form whose leaves have a meaning. -/
def expr? (meaning : Token → Option Value) : Form → Option Expr
  | .leaf token => (meaning token).map .literal
  | .group f => f.expr? meaning
  | .unary op f => (f.expr? meaning).map (.unary op)
  | .binary op l r =>
    match l.expr? meaning, r.expr? meaning with
    | some left, some right => some (.binary op left right)
    | _, _ => none

theorem expr?_binary_eq_some_iff {meaning : Token → Option Value} {op : BinaryOp} {l r : Form}
    {e : Expr} : (Form.binary op l r).expr? meaning = some e ↔
      ∃ left right, l.expr? meaning = some left ∧ r.expr? meaning = some right ∧
        e = .binary op left right := by
  rw [expr?]
  split
  · rename_i left right hleft hright
    simp [hleft, hright, eq_comm]
  · rename_i hnone
    simp only [reduceCtorEq, false_iff]
    rintro ⟨left, right, hleft, hright, -⟩
    exact hnone left right hleft hright

/-- The chain of a level that a form is: its operators, each with the operand to its right. -/
def links (level : Nat) : Form → List (BinaryOp × Form)
  | .binary op l r => if op.level = level then l.links level ++ [(op, r)] else []
  | _ => []

/-- What the operators of a chain and the operands to their right are written as. -/
def linkTokens (links : List (BinaryOp × Form)) : List Token :=
  links.flatMap fun link => .symbol link.1.toSymbol :: link.2.tokens

/-- The first operand of the chain of a level. -/
def head (level : Nat) : Form → Form
  | .binary op l r => if op.level = level then l.head level else .binary op l r
  | f => f

/-- How much is open after each token of a form, with `n` open before it: the parentheses that are
not closed, the operators before an operand that is not complete, and of every chain that is not
complete the operators read so far. -/
def counts (n : Nat) : Form → List Nat
  | .leaf _ => [n]
  | .group f => (n + 1) :: (f.counts (n + 1) ++ [n])
  | .unary _ f => (n + 1) :: f.counts (n + 1)
  | .binary op l r =>
    let read := (l.links op.level).length + 1
    l.counts n ++ (n + read) :: r.counts (n + read)

/-! ## What a level derives -/

variable {level : Nat} {f g l r : Form}

theorem Derives.of_le {looser : Nat} (h : f.Derives level) (hle : looser ≤ level)
    (hlevel : level ≤ literalLevel) : f.Derives looser := by
  induction level, hle using Nat.le_induction with
  | base => exact h
  | succ level hle ih => exact ih (.tighter hlevel h) (Nat.le_of_succ_le hlevel)

theorem derives_binary_iff {op : BinaryOp} :
    (Form.binary op l r).Derives level ↔
      level ≤ op.level ∧ l.Derives op.level ∧ r.Derives (op.level + 1) := by
  constructor
  · intro h
    generalize hf : Form.binary op l r = f at h
    induction h with
    | binary hl hr => cases hf; exact ⟨le_rfl, hl, hr⟩
    | tighter _ _ ih =>
        obtain ⟨hle, h⟩ := ih hf
        exact ⟨Nat.le_of_succ_le hle, h⟩
    | _ => cases hf
  · rintro ⟨hle, hl, hr⟩
    have := op.level_lt_unaryLevel
    exact (Derives.binary hl hr).of_le hle (by rw [literalLevel]; rw [unaryLevel] at this; omega)

theorem derives_unary_iff {op : UnaryOp} :
    (Form.unary op f).Derives level ↔ level ≤ unaryLevel ∧ f.Derives unaryLevel := by
  constructor
  · intro h
    generalize hg : Form.unary op f = g at h
    induction h with
    | unary h => cases hg; exact ⟨le_rfl, h⟩
    | tighter _ _ ih =>
        obtain ⟨hle, h⟩ := ih hg
        exact ⟨Nat.le_of_succ_le hle, h⟩
    | _ => cases hg
  · rintro ⟨hle, h⟩
    exact (Derives.unary h).of_le hle (by decide)

theorem derives_leaf_iff {token : Token} :
    (Form.leaf token).Derives level ↔ level ≤ literalLevel ∧ ∀ s, token ≠ .symbol s := by
  constructor
  · intro h
    generalize hg : Form.leaf token = g at h
    induction h with
    | leaf h => cases hg; exact ⟨le_rfl, h⟩
    | tighter _ _ ih =>
        obtain ⟨hle, h⟩ := ih hg
        exact ⟨Nat.le_of_succ_le hle, h⟩
    | _ => cases hg
  · rintro ⟨hle, h⟩
    exact (Derives.leaf h).of_le hle le_rfl

theorem derives_group_iff :
    (Form.group f).Derives level ↔ level ≤ literalLevel ∧ f.Derives 0 := by
  constructor
  · intro h
    generalize hg : Form.group f = g at h
    induction h with
    | group h => cases hg; exact ⟨le_rfl, h⟩
    | tighter _ _ ih =>
        obtain ⟨hle, h⟩ := ih hg
        exact ⟨Nat.le_of_succ_le hle, h⟩
    | _ => cases hg
  · rintro ⟨hle, h⟩
    exact (Derives.group h).of_le hle le_rfl

/-! ## Chains -/

/-- A tighter form is no chain of the level. -/
theorem Derives.links_eq_nil (h : f.Derives (level + 1)) : f.links level = [] := by
  cases f with
  | binary op l r =>
      obtain ⟨hle, -⟩ := derives_binary_iff.1 h
      rw [links, if_neg (by omega)]
  | _ => rfl

/-- A chain that was taken apart is put together again. -/
theorem foldl_links (level : Nat) (f : Form) :
    (f.links level).foldl (fun l link => .binary link.1 l link.2) (f.head level) = f := by
  induction f with
  | binary op l r ihl _ =>
      rw [links, head]
      split
      · rw [List.foldl_append, ihl]
        rfl
      · rfl
  | _ => rfl

theorem tokens_head_append_links (level : Nat) (f : Form) :
    (f.head level).tokens ++ linkTokens (f.links level) = f.tokens := by
  induction f with
  | binary op l r ihl _ =>
      rw [links, head]
      split
      · rw [linkTokens, List.flatMap_append, ← List.append_assoc, ← linkTokens, ihl,
          List.flatMap_singleton, tokens]
      · exact List.append_nil _
  | _ => exact List.append_nil _

theorem Derives.links_derives (h : f.Derives level) :
    ∀ link ∈ f.links level, link.1.level = level ∧ link.2.Derives (level + 1) := by
  induction f with
  | binary op l r ihl _ =>
      obtain ⟨-, hl, hr⟩ := derives_binary_iff.1 h
      rw [links]
      split
      · rename_i hlevel
        subst hlevel
        intro link hlink
        rcases List.mem_append.1 hlink with hlink | hlink
        · exact ihl hl link hlink
        · obtain rfl := List.mem_singleton.1 hlink
          exact ⟨rfl, hr⟩
      · simp
  | _ => simp [links]

theorem Derives.head_derives (h : f.Derives level) (hlevel : level < unaryLevel) :
    (f.head level).Derives (level + 1) := by
  induction f with
  | binary op l r ihl _ =>
      obtain ⟨hle, hl, hr⟩ := derives_binary_iff.1 h
      rw [head]
      split
      · rename_i hop
        exact ihl (hop ▸ hl)
      · exact derives_binary_iff.2 ⟨by omega, hl, hr⟩
  | unary op f => exact derives_unary_iff.2 ⟨by omega, (derives_unary_iff.1 h).2⟩
  | leaf token =>
      exact derives_leaf_iff.2 ⟨by rw [literalLevel]; rw [unaryLevel] at hlevel; omega,
        (derives_leaf_iff.1 h).2⟩
  | group f =>
      exact derives_group_iff.2 ⟨by rw [literalLevel]; rw [unaryLevel] at hlevel; omega,
        (derives_group_iff.1 h).2⟩

/-! ## The grammar is unambiguous -/

/-- Whether forms of a level with at most `n` tokens can be told from their tokens, and where they
end, provided that no operator of the level follows. -/
def IsUnique (n level : Nat) : Prop :=
  ∀ (f g : Form) (rest more : List Token), f.Derives level → g.Derives level → f.tokens.length ≤ n →
    Ends level rest → Ends level more → f.tokens ++ rest = g.tokens ++ more → f = g ∧ rest = more

theorem ends_linkTokens_append {links : List (BinaryOp × Form)} {rest : List Token}
    (hlinks : ∀ link ∈ links, link.1.level = level ∧ link.2.Derives (level + 1))
    (hrest : Ends level rest) : Ends (level + 1) (linkTokens links ++ rest) := by
  cases links with
  | nil => exact hrest.succ
  | cons link links =>
      rw [← (hlinks link (List.mem_cons_self ..)).1]
      exact ends_symbol link.1 _

theorem not_ends_linkTokens_append {link : BinaryOp × Form} {links : List (BinaryOp × Form)}
    {rest : List Token} (hlevel : link.1.level = level) :
    ¬Ends level (linkTokens (link :: links) ++ rest) := by
  intro h
  have hop := operatorAt?_symbol link.1
    (link.2.tokens ++ linkTokens links ++ rest)
  have hnone := h level le_rfl
  simp only [linkTokens, List.flatMap_cons, List.cons_append] at hnone
  rw [hlevel, List.append_assoc] at hop
  rw [List.append_assoc] at hnone
  exact absurd (hop.symm.trans hnone) (by simp)

/-- The operators of a chain can be told from their tokens if their operands can. -/
theorem IsUnique.links {n : Nat} (h : IsUnique n (level + 1)) :
    ∀ (links others : List (BinaryOp × Form)) (rest more : List Token),
      (∀ link ∈ links, link.1.level = level ∧ link.2.Derives (level + 1)) →
      (∀ link ∈ others, link.1.level = level ∧ link.2.Derives (level + 1)) →
      (linkTokens links).length ≤ n → Ends level rest → Ends level more →
      linkTokens links ++ rest = linkTokens others ++ more → links = others ∧ rest = more := by
  intro links
  induction links with
  | nil =>
      intro others rest more _ hothers _ hrest _ heq
      cases others with
      | nil => exact ⟨rfl, heq⟩
      | cons other others =>
          have hlevel := (hothers other (List.mem_cons_self ..)).1
          rw [linkTokens, List.flatMap_nil, List.nil_append] at heq
          exact absurd (heq ▸ hrest) (not_ends_linkTokens_append hlevel)
  | cons link links ih =>
      intro others rest more hlinks hothers hlength hrest hmore heq
      cases others with
      | nil =>
          have hlevel := (hlinks link (List.mem_cons_self ..)).1
          rw [linkTokens.eq_def [], List.flatMap_nil, List.nil_append] at heq
          exact absurd (heq ▸ hmore) (not_ends_linkTokens_append hlevel)
      | cons other others =>
          obtain ⟨hlink, hlinks⟩ := List.forall_mem_cons.1 hlinks
          obtain ⟨hother, hothers⟩ := List.forall_mem_cons.1 hothers
          simp only [linkTokens, List.flatMap_cons, List.length_append, List.length_cons]
            at hlength
          simp only [linkTokens, List.flatMap_cons, List.cons_append, List.append_assoc,
            List.cons.injEq, Token.symbol.injEq, BinaryOp.toSymbol_inj] at heq
          obtain ⟨hop, heq⟩ := heq
          obtain ⟨hoperand, heq⟩ := h _ _ _ _ hlink.2 hother.2 (by omega)
            (ends_linkTokens_append hlinks hrest) (ends_linkTokens_append hothers hmore) heq
          obtain ⟨rfl, rfl⟩ := ih _ _ _ hlinks hothers
            (by simp only [linkTokens]; omega) hrest hmore heq
          exact ⟨by rw [Prod.ext hop hoperand], rfl⟩

theorem IsUnique.chain {n : Nat} (hlevel : level < unaryLevel) (h : IsUnique n (level + 1)) :
    IsUnique n level := by
  intro f g rest more hf hg hlength hrest hmore heq
  have hlinksF := hf.links_derives
  have hlinksG := hg.links_derives
  rw [← tokens_head_append_links level f, List.length_append] at hlength
  rw [← tokens_head_append_links level f, ← tokens_head_append_links level g, List.append_assoc,
    List.append_assoc] at heq
  obtain ⟨hhead, heq⟩ := h _ _ _ _ (hf.head_derives hlevel) (hg.head_derives hlevel) (by omega)
    (ends_linkTokens_append hlinksF hrest) (ends_linkTokens_append hlinksG hmore) heq
  obtain ⟨hlinks, hrest⟩ := h.links _ _ _ _ hlinksF hlinksG (by omega) hrest hmore heq
  exact ⟨by rw [← foldl_links level f, ← foldl_links level g, hhead, hlinks], hrest⟩

/-- A form that is no chain shows by its first token what it is. -/
theorem isUnique_unaryLevel {n : Nat} (h : ∀ m < n, ∀ level ≤ unaryLevel, IsUnique m level) :
    IsUnique n unaryLevel := by
  intro f g rest more hf hg hlength _ _ heq
  have hbinary : ∀ {op l r}, ¬(Form.binary op l r).Derives unaryLevel := fun hd =>
    absurd (derives_binary_iff.1 hd).1 (Nat.not_le.2 (BinaryOp.level_lt_unaryLevel _))
  cases f with
  | binary op l r => exact absurd hf hbinary
  | leaf token =>
      have htoken := (derives_leaf_iff.1 hf).2
      cases g with
      | binary op l r => exact absurd hg hbinary
      | leaf other =>
          obtain ⟨rfl, rfl⟩ := List.cons.inj heq
          exact ⟨rfl, rfl⟩
      | unary op g => exact absurd (List.cons.inj heq).1 (htoken _)
      | group g => exact absurd (List.cons.inj heq).1 (htoken _)
  | unary op f =>
      have hf := (derives_unary_iff.1 hf).2
      cases g with
      | binary op l r => exact absurd hg hbinary
      | leaf other => exact absurd (List.cons.inj heq).1.symm ((derives_leaf_iff.1 hg).2 _)
      | group g =>
          exact absurd (Token.symbol.inj (List.cons.inj heq).1) op.toSymbol_ne_openParen
      | unary other g =>
          have hg := (derives_unary_iff.1 hg).2
          obtain ⟨hop, heq⟩ := List.cons.inj heq
          rw [Token.symbol.injEq, UnaryOp.toSymbol_inj] at hop
          simp only [tokens, List.length_cons] at hlength
          obtain ⟨rfl, rfl⟩ := h (n - 1) (by omega) unaryLevel le_rfl _ _ _ _ hf hg (by omega)
            (ends_unaryLevel _) (ends_unaryLevel _) heq
          exact ⟨by rw [hop], rfl⟩
  | group f =>
      have hf := (derives_group_iff.1 hf).2
      cases g with
      | binary op l r => exact absurd hg hbinary
      | leaf other => exact absurd (List.cons.inj heq).1.symm ((derives_leaf_iff.1 hg).2 _)
      | unary op g =>
          exact absurd (Token.symbol.inj (List.cons.inj heq).1.symm) op.toSymbol_ne_openParen
      | group g =>
          have hg := (derives_group_iff.1 hg).2
          simp only [tokens, List.cons_append, List.append_assoc, List.length_cons,
            List.length_append, List.cons.injEq, List.nil_append, true_and] at heq hlength
          obtain ⟨rfl, hrest⟩ := h (n - 1) (by omega) 0 (Nat.zero_le _) _ _ _ _ hf hg (by omega)
            (ends_closeParen 0 rest) (ends_closeParen 0 more) heq
          exact ⟨rfl, (List.cons.inj hrest).2⟩

theorem isUnique (n : Nat) : ∀ level ≤ unaryLevel, IsUnique n level := by
  induction n using Nat.strong_induction_on with
  | _ n ih =>
      intro level hlevel
      induction hlevel using Nat.decreasingInduction with
      | self => exact isUnique_unaryLevel ih
      | of_succ level hlt h => exact h.chain hlt

/-- **The grammar is unambiguous.**  The tokens determine the form. -/
theorem eq_of_tokens_eq (hf : f.Derives 0) (hg : g.Derives 0) (h : f.tokens = g.tokens) :
    f = g := by
  have hunique := isUnique f.tokens.length 0 (Nat.zero_le _)
  exact (hunique f g [] [] hf hg le_rfl (ends_nil 0) (ends_nil 0) (by rw [h])).1

end Form

/-! ## The leaves of a tree -/

/-- The literals of an expression, from left to right. -/
def Expr.literals : Expr → List Value
  | .literal v => [v]
  | .unary _ e => e.literals
  | .binary _ l r => l.literals ++ r.literals

/-- In a form with a tree every token has a meaning, if it is not a symbol. -/
theorem Form.isSome_meaning_of_mem {meaning : Token → Option Value} {f : Form} {e : Expr}
    (h : f.expr? meaning = some e) {token : Token} (htoken : token ∈ f.tokens)
    (hsymbol : ∀ s, token ≠ .symbol s) : (meaning token).isSome := by
  induction f generalizing e with
  | leaf t =>
      cases List.mem_singleton.1 htoken
      obtain ⟨v, hv, -⟩ := Option.map_eq_some_iff.1 h
      exact Option.isSome_of_eq_some hv
  | group f ih =>
      simp only [tokens, List.mem_cons, List.mem_append, hsymbol, List.not_mem_nil, false_or,
        or_false] at htoken
      exact ih h htoken
  | unary op f ih =>
      obtain ⟨operand, hoperand, -⟩ := Option.map_eq_some_iff.1 h
      simp only [tokens, List.mem_cons, hsymbol, false_or] at htoken
      exact ih hoperand htoken
  | binary op l r ihl ihr =>
      obtain ⟨left, right, hleft, hright, -⟩ := expr?_binary_eq_some_iff.1 h
      simp only [tokens, List.mem_append, List.mem_cons, hsymbol, false_or] at htoken
      exact htoken.elim (ihl hleft) (ihr hright)

/-- The literals of a tree are what the tokens of its form mean. -/
theorem Form.exists_mem_tokens {meaning : Token → Option Value} {f : Form} {e : Expr}
    (h : f.expr? meaning = some e) {v : Value} (hv : v ∈ e.literals) :
    ∃ token ∈ f.tokens, meaning token = some v := by
  induction f generalizing e with
  | leaf token =>
      obtain ⟨w, hw, rfl⟩ := Option.map_eq_some_iff.1 h
      cases List.mem_singleton.1 hv
      exact ⟨token, List.mem_singleton_self token, hw⟩
  | group f ih =>
      obtain ⟨token, htoken, hmeaning⟩ := ih h hv
      exact ⟨token, by simp [tokens, htoken], hmeaning⟩
  | unary op f ih =>
      obtain ⟨operand, hoperand, rfl⟩ := Option.map_eq_some_iff.1 h
      obtain ⟨token, htoken, hmeaning⟩ := ih hoperand hv
      exact ⟨token, List.mem_cons_of_mem _ htoken, hmeaning⟩
  | binary op l r ihl ihr =>
      obtain ⟨left, right, hleft, hright, rfl⟩ := expr?_binary_eq_some_iff.1 h
      rcases List.mem_append.1 hv with hv | hv
      · obtain ⟨token, htoken, hmeaning⟩ := ihl hleft hv
        exact ⟨token, List.mem_append_left _ htoken, hmeaning⟩
      · obtain ⟨token, htoken, hmeaning⟩ := ihr hright hv
        exact ⟨token, by simp [tokens, htoken], hmeaning⟩

/-! ## What is read is a form -/

/-- A form of a level that stands at the front of some tokens, has the tree, and in which no more
than `maxDepth` is open anywhere, `depth` being open before it. -/
structure Form.Fits (f : Form) (level depth : Nat) (tokens : List Token) (e : Expr)
    (rest : List Token) : Prop where
  derives : f.Derives level
  tokens_eq : f.tokens ++ rest = tokens
  expr?_eq : f.expr? Token.literal? = some e
  counts_le : ∀ n ∈ f.counts depth, n ≤ maxDepth

/-- Whether what a phrase reads is a form.  A tail goes on with the form that was read before it. -/
def Phrase.HasForm (depth : Nat) (tokens : List Token) (e : Expr) (rest : List Token) :
    Phrase → Prop
  | .chain level => level ≤ unaryLevel → ∃ f : Form, f.Fits level depth tokens e rest
  | .tail level left => ∀ (before : Form) (start : Nat) (front : List Token),
      before.Fits level start front left tokens →
      start + (before.links level).length = depth → ∃ f : Form, f.Fits level start front e rest
  | .unary => ∃ f : Form, f.Fits unaryLevel depth tokens e rest
  | .primary => ∃ f : Form, f.Fits literalLevel depth tokens e rest

theorem Reads.hasForm {phrase : Phrase} {depth : Nat} {tokens rest : List Token} {e : Expr}
    (h : Reads phrase depth tokens e rest) (hdepth : depth ≤ maxDepth) :
    phrase.HasForm depth tokens e rest := by
  induction h with
  | @chain level depth tokens more rest left e hlevel _ _ ihLeft ihTail =>
      intro _
      obtain ⟨f, hf⟩ := ihLeft hdepth hlevel
      refine ihTail hdepth f depth tokens { hf with derives := .tighter ?_ hf.derives } ?_
      · exact hlevel.trans (by decide)
      · rw [hf.derives.links_eq_nil, List.length_nil, Nat.add_zero]
  | tightest hlevel _ ih =>
      intro hle
      rw [Nat.le_antisymm hle (Nat.not_lt.1 hlevel)]
      exact ih hdepth
  | tailEnd _ =>
      intro before start front hbefore _
      exact ⟨before, hbefore⟩
  | @operator level depth tokens operand more rest op left right e hop hlt _ _ ihRight ihTail =>
      intro before start front hbefore hstart
      obtain ⟨rfl, rfl⟩ := operatorAt?_eq_some_iff.1 hop
      obtain ⟨f, hf⟩ := ihRight hlt op.level_lt_unaryLevel
      have hread : start + ((before.links op.level).length + 1) = depth + 1 := by omega
      refine ihTail hlt (.binary op before f) start front ⟨?_, ?_, ?_, ?_⟩ ?_
      · exact .binary hbefore.derives hf.derives
      · rw [← hbefore.tokens_eq, ← hf.tokens_eq, Form.tokens, List.append_assoc, List.cons_append]
      · simp only [Form.expr?, hbefore.expr?_eq, hf.expr?_eq]
      · simp only [Form.counts, List.forall_mem_append, List.forall_mem_cons, hread]
        exact ⟨hbefore.counts_le, hlt, hf.counts_le⟩
      · rw [Form.links, if_pos rfl, List.length_append, List.length_singleton, hread]
  | @unary depth s op tokens rest operand hop hlt _ ih =>
      obtain ⟨f, hf⟩ := ih hlt
      obtain rfl := Symbol.unaryOp?_eq_some_iff.1 hop
      refine ⟨.unary op f, .unary hf.derives, ?_, ?_, ?_⟩
      · rw [← hf.tokens_eq, Form.tokens, List.cons_append]
      · rw [Form.expr?, hf.expr?_eq, Option.map_some]
      · simp only [Form.counts, List.forall_mem_cons]
        exact ⟨hlt, hf.counts_le⟩
  | primary _ ih =>
      obtain ⟨f, hf⟩ := ih hdepth
      exact ⟨f, { hf with derives := hf.derives.of_le (by decide) le_rfl }⟩
  | @literal depth token rest v hv =>
      refine ⟨.leaf token, .leaf ?_, rfl, ?_, ?_⟩
      · rintro s rfl
        cases hv
      · rw [Form.expr?, hv, Option.map_some]
      · simp only [Form.counts, List.mem_singleton]
        rintro n rfl
        exact hdepth
  | @group depth tokens rest e hlt _ ih =>
      obtain ⟨f, hf⟩ := ih hlt (Nat.zero_le _)
      refine ⟨.group f, .group hf.derives, ?_, hf.expr?_eq, ?_⟩
      · rw [← hf.tokens_eq, Form.tokens, List.cons_append, List.append_assoc, List.singleton_append]
      · simp only [Form.counts, List.forall_mem_cons, List.forall_mem_append]
        exact ⟨hlt, hf.counts_le, hdepth, by simp⟩

/-! ## Every form is read -/

/-- What is read at a level is the first operand of the chains of looser levels. -/
theorem Reads.chain_of_lt {inner depth : Nat} {tokens more : List Token} {left : Expr}
    (h : Reads (.chain inner) depth tokens left more) (hinner : inner ≤ unaryLevel) :
    ∀ n level rest e, inner - level = n + 1 → Ends (level + 1) more →
      Reads (.tail level left) depth more e rest → Reads (.chain level) depth tokens e rest := by
  intro n
  induction n with
  | zero =>
      intro level rest e hn _ htail
      obtain rfl : inner = level + 1 := by omega
      exact .chain hinner h htail
  | succ n ih =>
      intro level rest e hn hmore htail
      have hfirst := ih (level + 1) more left (by omega) hmore.succ (.tailEnd (hmore _ le_rfl))
      exact .chain (by omega) hfirst htail

/-- Whether a form is read as its tree at the front of any tokens: as an operand if it is one, and
as the chain of any level that derives it, up to an operator of that level. -/
structure Form.IsRead (f : Form) (e : Expr) (depth : Nat) : Prop where
  unary : ∀ more, f.Derives unaryLevel → Reads .unary depth (f.tokens ++ more) e more
  chain : ∀ level more e' rest, level < unaryLevel → f.Derives level → Ends (level + 1) more →
    Reads (.tail level e) (depth + (f.links level).length) more e' rest →
    Reads (.chain level) depth (f.tokens ++ more) e' rest

/-- An operand is the chain of any level. -/
theorem Form.isRead_of_operand {f : Form} {e : Expr} {depth : Nat}
    (hderives : f.Derives unaryLevel)
    (hreads : ∀ more, Reads .unary depth (f.tokens ++ more) e more) : f.IsRead e depth where
  unary := fun more _ => hreads more
  chain := by
    intro level more e' rest hlevel _ hmore htail
    have hnil : f.links level = [] :=
      (hderives.of_le (Nat.succ_le_of_lt hlevel) (by decide)).links_eq_nil
    rw [hnil, List.length_nil, Nat.add_zero] at htail
    exact (Reads.tightest (Nat.lt_irrefl _) (hreads more)).chain_of_lt le_rfl
      (unaryLevel - level - 1) level rest e' (by omega) hmore htail

/-- What is read as a chain is read up to where the chain ends. -/
theorem Form.IsRead.reads {f : Form} {e : Expr} {level depth : Nat} {more : List Token}
    (h : f.IsRead e depth) (hlevel : level ≤ unaryLevel) (hderives : f.Derives level)
    (hmore : Ends level more) : Reads (.chain level) depth (f.tokens ++ more) e more := by
  rcases Nat.lt_or_eq_of_le hlevel with hlt | rfl
  · exact h.chain level more e more hlt hderives hmore.succ (.tailEnd (hmore _ le_rfl))
  · exact .tightest (Nat.lt_irrefl _) (h.unary more hderives)

/-- Operands joined by an operator are read at every level if they are read at the operator's. -/
theorem Form.isRead_of_binary {op : BinaryOp} {l r : Form} {e : Expr} {depth : Nat}
    (hreads : ∀ more e' rest, Ends (op.level + 1) more →
      Reads (.tail op.level e) (depth + ((l.links op.level).length + 1)) more e' rest →
      Reads (.chain op.level) depth ((Form.binary op l r).tokens ++ more) e' rest) :
    (Form.binary op l r).IsRead e depth where
  unary := fun _ h =>
    absurd (derives_binary_iff.1 h).1 (Nat.not_le.2 op.level_lt_unaryLevel)
  chain := by
    intro level more e' rest _ hderives hmore htail
    rcases Nat.lt_or_eq_of_le (derives_binary_iff.1 hderives).1 with hlooser | rfl
    · rw [links, if_neg (Nat.ne_of_gt hlooser), List.length_nil, Nat.add_zero] at htail
      have hends : Ends op.level more := fun tighter hle => hmore tighter (hlooser.trans_le hle)
      have hown := hreads more e more hends.succ (.tailEnd (hends _ le_rfl))
      exact hown.chain_of_lt op.level_lt_unaryLevel.le (op.level - level - 1) level rest e'
        (by omega) hmore htail
    · rw [links, if_pos rfl, List.length_append, List.length_singleton] at htail
      exact hreads more e' rest hmore htail

/-- A form in which no more than `maxDepth` is open anywhere is read as its tree. -/
theorem Form.isRead {f : Form} {level depth : Nat} {e : Expr} (hderives : f.Derives level)
    (hexpr : f.expr? Token.literal? = some e) (hcounts : ∀ n ∈ f.counts depth, n ≤ maxDepth) :
    f.IsRead e depth := by
  induction f generalizing level depth e with
  | leaf token =>
      obtain ⟨v, hv, rfl⟩ := Option.map_eq_some_iff.1 hexpr
      refine isRead_of_operand (.of_le (.leaf (derives_leaf_iff.1 hderives).2) (by decide) le_rfl) ?_
      exact fun more => .primary (.literal hv)
  | group f ih =>
      have hinner := (derives_group_iff.1 hderives).2
      simp only [counts, List.forall_mem_cons, List.forall_mem_append] at hcounts
      obtain ⟨hlt, hcounts, -⟩ := hcounts
      refine isRead_of_operand (.of_le (.group hinner) (by decide) le_rfl) fun more => ?_
      have hreads := (ih hinner hexpr hcounts).reads (Nat.zero_le _) hinner
        (ends_closeParen 0 more)
      rw [tokens, List.cons_append, List.append_assoc]
      exact .primary (.group hlt hreads)
  | unary op f ih =>
      have hoperand := (derives_unary_iff.1 hderives).2
      obtain ⟨operand, hf, rfl⟩ := Option.map_eq_some_iff.1 hexpr
      simp only [counts, List.forall_mem_cons] at hcounts
      obtain ⟨hlt, hcounts⟩ := hcounts
      refine isRead_of_operand (.unary hoperand) fun more => ?_
      exact .unary op.unaryOp?_toSymbol hlt ((ih hoperand hf hcounts).unary more hoperand)
  | binary op l r ihl ihr =>
      obtain ⟨-, hl, hr⟩ := derives_binary_iff.1 hderives
      obtain ⟨left, right, hleft, hright, rfl⟩ := expr?_binary_eq_some_iff.1 hexpr
      simp only [counts, List.forall_mem_append, List.forall_mem_cons] at hcounts
      obtain ⟨hcountsL, hlt, hcountsR⟩ := hcounts
      refine isRead_of_binary fun more e' rest hmore htail => ?_
      -- what is to the left is a part of the same chain, which goes on with the operator
      rw [tokens, List.append_assoc, List.cons_append]
      refine (ihl hl hleft hcountsL).chain _ _ _ _ op.level_lt_unaryLevel hl
        (ends_symbol op _) ?_
      exact .operator (operatorAt?_symbol op _) hlt
        ((ihr hr hright hcountsR).reads op.level_lt_unaryLevel hr hmore) htail

/-! ## The parsers and the grammar -/

/-- Reading gives a tree exactly of the forms that have it and in which no more than `maxDepth` is
open anywhere. -/
theorem parseTokens_eq_ok_iff_form {tokens : List Token} {e : Expr} :
    parseTokens tokens = .ok e ↔
      ∃ f : Form, f.Derives 0 ∧ f.tokens = tokens ∧ f.expr? Token.literal? = some e ∧
        ∀ n ∈ f.counts 0, n ≤ maxDepth := by
  rw [parseTokens_eq_ok_iff]
  constructor
  · intro h
    obtain ⟨f, hf⟩ := h.hasForm (Nat.zero_le _) (Nat.zero_le _)
    exact ⟨f, hf.derives, by simpa using hf.tokens_eq, hf.expr?_eq, hf.counts_le⟩
  · rintro ⟨f, hderives, rfl, hexpr, hcounts⟩
    simpa using (Form.isRead hderives hexpr hcounts).reads (Nat.zero_le _) hderives (ends_nil 0)

/-- **What the parsers accept.**  Reading a list of tokens gives a tree exactly when the list is the
tokens of a form of the grammar that has this tree and in which at most `maxDepth` is open after
each token.  A list of tokens has at most one form, however much is open in it, and so at most one
tree. -/
theorem parseTokens_grammar :
    (∀ tokens e, parseTokens tokens = .ok e ↔
      ∃ f : Form, f.Derives 0 ∧ f.tokens = tokens ∧ f.expr? Token.literal? = some e ∧
        ∀ n ∈ f.counts 0, n ≤ maxDepth) ∧
    ∀ f g : Form, f.Derives 0 → g.Derives 0 → f.tokens = g.tokens →
      f = g ∧ f.expr? Token.literal? = g.expr? Token.literal? := by
  refine ⟨fun tokens e => parseTokens_eq_ok_iff_form, fun f g hf hg htokens => ?_⟩
  have hfg := Form.eq_of_tokens_eq hf hg htokens
  exact ⟨hfg, by rw [hfg]⟩

/-- The form of `!(true) || null`: the operator before the operand belongs to the left side. -/
theorem parseTokens_not_true_or_null :
    let f : Form := .binary .or (.unary .not (.group (.leaf (.ident "true")))) (.leaf (.ident "null"))
    f.Derives 0 ∧
      parseTokens f.tokens =
        .ok (.binary .or (.unary .not (.literal (.bool true))) (.literal .null)) ∧
      ∀ g : Form, g.Derives 0 → f.tokens = g.tokens → f = g := by
  intro f
  have hderives : f.Derives 0 := by
    have hident : ∀ name level, level ≤ literalLevel → (Form.leaf (.ident name)).Derives level :=
      fun name level hlevel => Form.derives_leaf_iff.2 ⟨hlevel, nofun⟩
    refine Form.derives_binary_iff.2 ⟨by decide, ?_, hident _ _ (by decide)⟩
    refine Form.derives_unary_iff.2 ⟨by decide, Form.derives_group_iff.2 ⟨by decide, ?_⟩⟩
    exact hident _ _ (by decide)
  refine ⟨hderives, (parseTokens_grammar.1 _ _).2 ⟨f, hderives, rfl, rfl, by decide⟩, ?_⟩
  exact fun g hg htokens => (parseTokens_grammar.2 f g hderives hg htokens).1

end Workflow
