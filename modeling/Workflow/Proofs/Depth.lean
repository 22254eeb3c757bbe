import Workflow.Proofs.Printing

/-!
# Forms that are too deep

A form whose leaves have a meaning is read as its tree or refused as too deep; there is no third
way.  Together with what is known of printing this says of every expression, however it was made,
what becomes of its text.

* `Form.depth` is how much is open at most while a form is read.
* `Form.parseLevel_eq_parseChain` says that the parsers come through a form that is not too deep, and
  where they are then.
* `Form.parseLevel_eq_tooDeep` says that they refuse a form that is.
* `parseTokens_tokens` puts the two together.
* `parseExpr_print_adequate` says what a printed expression is read as.
-/

namespace Workflow

/-! ## Faults on the way -/

section Faults

variable {level tighter depth : Nat} {tokens : List Token} {fault : ExprError}

/-- A fault in a tighter level is a fault in every looser one. -/
theorem parseLevel_eq_error_of_le (hle : level ≤ tighter) (htighter : tighter ≤ unaryLevel)
    (h : parseLevel tighter depth tokens = .error fault) :
    parseLevel level depth tokens = .error fault := by
  induction hle using Nat.decreasingInduction with
  | self => exact h
  | of_succ level hlt ih => rw [parseLevel, if_pos (hlt.trans_le htighter), ih]

theorem parseLevel_unaryLevel (depth : Nat) (tokens : List Token) :
    parseLevel unaryLevel depth tokens = parseUnary depth tokens := by
  rw [parseLevel, if_neg (Nat.lt_irrefl _)]

/-- A fault in an operand is a fault at every level. -/
theorem parseLevel_eq_error_of_parseUnary (hlevel : level ≤ unaryLevel)
    (h : parseUnary depth tokens = .error fault) : parseLevel level depth tokens = .error fault :=
  parseLevel_eq_error_of_le hlevel le_rfl ((parseLevel_unaryLevel depth tokens).trans h)

end Faults

namespace Form

variable {f : Form} {level : Nat} {e : Expr}

/-! ## The depth of a form -/

/-- How much is open at most while a form is read. -/
def depth (f : Form) : Nat :=
  (f.counts 0).foldr max 0

theorem depth_le_iff {limit : Nat} : f.depth ≤ limit ↔ ∀ n ∈ f.counts 0, n ≤ limit := by
  rw [depth]
  induction f.counts 0 with
  | nil => simp
  | cons n counts ih => rw [List.foldr_cons, max_le_iff, ih, List.forall_mem_cons]

/-! ## Where the parsers come to -/

/-- A form that is no chain of the level is read as the first operand of one. -/
theorem parseLevel_eq_parseChain_of_links_eq_nil {n : Nat} (hlevel : level < unaryLevel)
    (hderives : f.Derives level) (hlinks : f.links level = [])
    (hexpr : f.expr? Token.literal? = some e) (hcounts : ∀ k ∈ f.counts n, k ≤ maxDepth)
    {more : List Token} (hmore : Ends (level + 1) more) :
    parseLevel level n (f.tokens ++ more) = parseChain level n e more := by
  have hhead : f.head level = f := by simpa [hlinks] using foldl_links level f
  have htighter : f.Derives (level + 1) := hhead ▸ hderives.head_derives hlevel
  have hread := parse_of_reads ((isRead htighter hexpr hcounts).reads hlevel htighter hmore)
  rw [Phrase.parse] at hread
  rw [parseLevel, if_pos hlevel, hread]

/-- The parsers come through a form that is not too deep to where its chain may go on. -/
theorem parseLevel_eq_parseChain {n : Nat} (hlevel : level < unaryLevel)
    (hderives : f.Derives level) (hexpr : f.expr? Token.literal? = some e)
    (hcounts : ∀ k ∈ f.counts n, k ≤ maxDepth) {more : List Token} (hmore : Ends (level + 1) more) :
    parseLevel level n (f.tokens ++ more) =
      parseChain level (n + (f.links level).length) e more := by
  induction f generalizing e more with
  | binary op l r ihl _ =>
      by_cases hop : op.level = level
      · subst hop
        obtain ⟨-, hl, hr⟩ := derives_binary_iff.1 hderives
        obtain ⟨left, right, hleft, hright, rfl⟩ := expr?_binary_eq_some_iff.1 hexpr
        simp only [counts, List.forall_mem_append, List.forall_mem_cons] at hcounts
        obtain ⟨hcountsL, hlt, hcountsR⟩ := hcounts
        have hdepth : n + (l.links op.level).length < maxDepth := hlt
        have hread := parse_of_reads ((isRead hr hright hcountsR).reads hlevel hr hmore)
        rw [Phrase.parse] at hread
        rw [tokens, List.append_assoc, List.cons_append,
          ihl hl hleft hcountsL (ends_symbol op _), parseChain,
          operatorAt?_symbol, links, if_pos rfl, List.length_append]
        simp only [if_pos hdepth, Nat.add_assoc, List.length_singleton, hread]
      · have hlinks : (Form.binary op l r).links level = [] := if_neg hop
        rw [hlinks]
        exact parseLevel_eq_parseChain_of_links_eq_nil hlevel hderives hlinks hexpr hcounts hmore
  | _ => exact parseLevel_eq_parseChain_of_links_eq_nil hlevel hderives rfl hexpr hcounts hmore

/-- The parsers refuse a form that is too deep, whatever follows it. -/
theorem parseLevel_eq_tooDeep {n : Nat} (hlevel : level ≤ unaryLevel) (hderives : f.Derives level)
    (hexpr : f.expr? Token.literal? = some e) (hn : n ≤ maxDepth)
    (hcounts : ¬∀ k ∈ f.counts n, k ≤ maxDepth) (more : List Token) :
    parseLevel level n (f.tokens ++ more) = .error .tooDeep := by
  induction f generalizing level n e more with
  | leaf token => simp [counts, hn] at hcounts
  | group f ih =>
      refine parseLevel_eq_error_of_parseUnary hlevel ?_
      have hinner := (derives_group_iff.1 hderives).2
      rw [tokens, List.cons_append, List.append_assoc, parseUnary.eq_def]
      simp only [Symbol.unaryOp?, parsePrimary]
      split
      · rename_i hlt
        have hdeep : ¬∀ k ∈ f.counts (n + 1), k ≤ maxDepth := by
          intro hfits
          refine hcounts ?_
          simp only [counts, List.forall_mem_cons, List.forall_mem_append]
          exact ⟨hlt, hfits, hn, List.forall_mem_nil _⟩
        rw [ih (Nat.zero_le _) hinner hexpr hlt hdeep]
      · rfl
  | unary op f ih =>
      refine parseLevel_eq_error_of_parseUnary hlevel ?_
      have hoperand := (derives_unary_iff.1 hderives).2
      obtain ⟨operand, hf, rfl⟩ := Option.map_eq_some_iff.1 hexpr
      rw [tokens, List.cons_append, parseUnary.eq_def]
      simp only [op.unaryOp?_toSymbol]
      split
      · rename_i hlt
        have hdeep : ¬∀ k ∈ f.counts (n + 1), k ≤ maxDepth := by
          intro hfits
          refine hcounts ?_
          simp only [counts, List.forall_mem_cons]
          exact ⟨hlt, hfits⟩
        rw [← parseLevel_unaryLevel, ih le_rfl hoperand hf hlt hdeep]
      · rfl
  | binary op l r ihl ihr =>
      obtain ⟨hle, hl, hr⟩ := derives_binary_iff.1 hderives
      obtain ⟨left, right, hleft, hright, rfl⟩ := expr?_binary_eq_some_iff.1 hexpr
      have hop := op.level_lt_unaryLevel
      refine parseLevel_eq_error_of_le hle hop.le ?_
      rw [tokens, List.append_assoc, List.cons_append]
      by_cases hcountsL : ∀ k ∈ l.counts n, k ≤ maxDepth
      · -- the left side is read, and the fault is at the operator or behind it
        rw [parseLevel_eq_parseChain hop hl hleft hcountsL (ends_symbol op _),
          parseChain, operatorAt?_symbol]
        simp only
        split
        · rename_i hlt
          have hdeep : ¬∀ k ∈ r.counts (n + (l.links op.level).length + 1), k ≤ maxDepth := by
            intro hfits
            refine hcounts ?_
            simp only [counts, List.forall_mem_append, List.forall_mem_cons]
            exact ⟨hcountsL, hlt, hfits⟩
          rw [ihr hop hr hright hlt hdeep]
        · rfl
      · exact ihl hop.le hl hleft hn hcountsL _

end Form

/-- **What becomes of a form**: it is read as its tree, or there is too much open in it. -/
theorem parseTokens_tokens {f : Form} {e : Expr} (hderives : f.Derives 0)
    (hexpr : f.expr? Token.literal? = some e) :
    parseTokens f.tokens = if f.depth ≤ maxDepth then .ok e else .error .tooDeep := by
  split
  · rename_i hdepth
    exact parseTokens_eq_ok_iff_form.2 ⟨f, hderives, rfl, hexpr, Form.depth_le_iff.1 hdepth⟩
  · rename_i hdepth
    rw [Form.depth_le_iff] at hdepth
    have hdeep := Form.parseLevel_eq_tooDeep (Nat.zero_le _) hderives hexpr (Nat.zero_le _) hdepth []
    rw [List.append_nil] at hdeep
    rw [parseTokens, hdeep]

/-! ## Expressions of any make -/

namespace Value

/-- A value whose text as a literal is read as the value: a number that is not finite only if it is
NaN or has no sign, a finite one that has no sign either, and a string in which no character is
spelt out but those with an escape of their own. -/
def IsPrintable : Value → Prop
  | .number x => x = nan ∨ x = infinity ∨ x.isFinite = true ∧ 0 ≤ x ∧ x ≠ -0.0
  | .string s => ∀ c ∈ s.toList, Text.ComesBack c
  | .bool _ | .null => True

instance : DecidablePred IsPrintable
  | .number x =>
    inferInstanceAs (Decidable (x = nan ∨ x = infinity ∨ x.isFinite = true ∧ 0 ≤ x ∧ x ≠ -0.0))
  | .string s => inferInstanceAs (Decidable (∀ c ∈ s.toList, Text.ComesBack c))
  | .bool _ | .null => inferInstanceAs (Decidable True)

variable {v : Value}

theorem IsPrintable.isLiteral (h : v.IsPrintable) : v.IsLiteral := by
  cases v with
  | number x =>
      rcases h with rfl | rfl | ⟨hfinite, hx, hzero⟩
      · exact .nan
      · exact .infinity
      · rw [← Magnitude.toFloat_ofFloat (Magnitude.toNat_toBits_lt_signBit hfinite hx hzero)]
        exact .finite ((Magnitude.isFinite_iff x).1 hfinite)
  | bool b => exact .bool b
  | string s => exact .string s
  | null => exact .null

theorem IsPrintable.reread_eq (h : v.IsPrintable) : v.reread = v := by
  rw [reread_eq_self_iff]
  rintro s rfl
  exact h

end Value

/-- **Printing is adequate for every expression**, of whatever shape, whose literals are printable.
The text is that of the printed form, and it is read as the expression if no more is open in it
anywhere than the depth allows; otherwise it is refused as too deep. -/
theorem parseExpr_print_adequate {e : Expr} (he : ∀ v ∈ e.literals, v.IsPrintable) :
    (e.formAt 0).Derives 0 ∧ tokenize e.print = .ok (e.formAt 0).tokens ∧
      parseExpr e.print = if (e.formAt 0).depth ≤ maxDepth then .ok e else .error .tooDeep := by
  have hliteral : ∀ v ∈ e.literals, v.IsLiteral := fun v hv => (he v hv).isLiteral
  have hreread : e.reread = e := by
    rw [Expr.reread_eq_self_iff]
    exact fun s hs => he (.string s) hs
  have hderives := e.derives_formAt (Nat.zero_le literalLevel)
  have htokens := Expr.tokenize_print hliteral
  have hexpr := Expr.expr?_formAt hliteral 0
  rw [hreread] at hexpr
  exact ⟨hderives, htokens, by rw [parseExpr, htokens]; exact parseTokens_tokens hderives hexpr⟩

/-- Operators before an operand side by side, a comma on the right of another, and an escape, below
as many operators as may be open, and below one more. -/
theorem parseExpr_print_adequate_minus_minus :
    let e : Expr := .binary .subtract (.literal (.number 0.5))
      (.unary .minus (.unary .minus (.binary .sequence (.literal (.string "a\t\""))
        (.binary .sequence (.literal (.number Value.nan)) (.literal .null)))))
    let deep : Expr := (Expr.unary .not)^[56] e
    e.print = "0.5 - --(\"a\\t\\\"\", (NaN, null))" ∧
      (∀ v ∈ deep.literals, v.IsPrintable) ∧ parseExpr deep.print = .ok deep ∧
      parseExpr (Expr.unary .not deep).print = .error .tooDeep := by
  intro e deep
  have he : ∀ v ∈ deep.literals, v.IsPrintable := by
    refine List.forall_iff_forall_mem.1 ⟨.inr (.inr (by decide +kernel)), ?_, .inl rfl, trivial⟩
    exact List.forall_iff_forall_mem.1 (by decide +kernel)
  have hdeep := (parseExpr_print_adequate he).2.2
  have hdeeper := (parseExpr_print_adequate (e := .unary .not deep) he).2.2
  rw [if_pos (by decide +kernel)] at hdeep
  rw [if_neg (by decide +kernel)] at hdeeper
  exact ⟨by decide +kernel, he, hdeep, hdeeper⟩

end Workflow
