import Workflow.Proofs.Depth
import Workflow.Proofs.Outcomes
import Workflow.Proofs.Traces

/-!
# What an explanation says

An explanation shows what was evaluated of an expression, with an outcome in brackets behind every
operator.  It decides by itself where parentheses are needed, and a connective that its left operand
decided is not shown; so it has to be proved that nothing else changed its place.

* `Expr.pruned` is what is left of an expression, `Expr.shownAt` the form in which it is shown.
* `Form.ends` are the operators of a form in the order in which their outcomes come.
* `Explains` relates a form to a text that shows it with its outcomes.
* `Expr.explain_faithful` says what can be read from an explanation.
-/

namespace Workflow

/-! ## What is shown -/

namespace Expr

/-- An expression with the left operand in the place of every connective that it decides. -/
def pruned : Expr → Expr
  | .literal v => .literal v
  | .unary op e => .unary op e.pruned
  | .binary op l r =>
    if op.isDecidedBy l.value then l.pruned else .binary op l.pruned r.pruned

/-- The form that an explanation shows at a place that asks for at least the level `context`. -/
def shownAt (context : Nat) : Expr → Form
  | .literal v => .parenthesize (literalLevel < context) (.leaf v.token)
  | .unary op e => .parenthesize (unaryLevel < context) (.unary op (e.shownAt unaryLevel))
  | .binary op l r =>
    .parenthesize (op.level < context)
      (if op.isDecidedBy l.value then l.shownAt op.level
      else .binary op (l.shownAt op.level) (r.shownAt (op.level + 1)))

/-- Leaving out what does not matter for the value leaves the value. -/
theorem value_pruned (e : Expr) : e.pruned.value = e.value := by
  induction e with
  | literal v => rfl
  | unary op e ih => rw [pruned, value, value, ih]
  | binary op l r ihl ihr =>
      rw [pruned, value]
      split
      · exact ihl
      · rename_i hdecided
        rw [value, ihl, ihr, if_neg hdecided]

/-- What is shown is a form of the grammar. -/
theorem derives_shownAt (e : Expr) {context : Nat} (hcontext : context ≤ literalLevel) :
    (e.shownAt context).Derives context := by
  induction e generalizing context with
  | literal v => exact (Expr.literal v).derives_formAt hcontext
  | unary op e ih => exact (Form.Derives.unary (ih (by decide))).parenthesize (by decide) hcontext
  | binary op l r ihl ihr =>
      have hop := op.level_lt_unaryLevel
      have hlevel : op.level + 1 ≤ literalLevel := hop.trans (by decide)
      rw [shownAt]
      refine Form.Derives.parenthesize ?_ (by omega) hcontext
      split
      · exact ihl (by omega)
      · exact .binary (ihl (by omega)) (ihr hlevel)

/-- What is shown has the tree of what is left. -/
theorem expr?_shownAt {e : Expr} (he : ∀ v ∈ e.literals, v.IsPrintable) (context : Nat) :
    (e.shownAt context).expr? Token.literal? = some e.pruned := by
  induction e generalizing context with
  | literal v =>
      have hv := he v (List.mem_singleton_self v)
      rw [shownAt, Form.expr?_parenthesize, Form.expr?, hv.isLiteral.literal?_token, hv.reread_eq]
      rfl
  | unary op e ih => rw [shownAt, Form.expr?_parenthesize, Form.expr?, ih he]; rfl
  | binary op l r ihl ihr =>
      have hl := ihl (fun v hv => he v (List.mem_append_left _ hv))
      have hr := ihr (fun v hv => he v (List.mem_append_right _ hv))
      rw [shownAt, Form.expr?_parenthesize, pruned]
      split
      · exact hl op.level
      · rw [Form.expr?, hl, hr]

/-- An expression of which everything was evaluated is shown as it is printed. -/
theorem shownAt_eq_formAt {e : Expr} (h : ∀ path, e.trace.at? path ≠ some .notEvaluated)
    (context : Nat) : e.shownAt context = e.formAt context := by
  induction e generalizing context with
  | literal v => rfl
  | unary op e ih =>
      have hoperand := ih fun path hpath => h (.only :: path) hpath
      rw [shownAt, formAt, hoperand]
  | binary op l r ihl ihr =>
      have hskips : ¬op.Skips l.trace.outcome := by
        intro hskips
        refine h [.right] ?_
        rw [trace_binary_of_skips hskips]
        rfl
      rw [trace_binary_of_not_skips hskips] at h
      have hl := ihl fun path hpath => h (.left :: path) hpath
      have hr := ihr fun path hpath => h (.right :: path) hpath
      rw [BinaryOp.skips_iff, outcome_trace] at hskips
      rw [shownAt, formAt, if_neg hskips, hl, hr]

end Expr

/-! ## Where operators end -/

/-- The operators of a form with their operands, in the order in which they end, each after the
tokens up to its end.  Before the form stand the tokens `before`. -/
def Form.ends (before : List Token) : Form → List (List Token × Form)
  | .leaf _ => []
  | .group f => f.ends (before ++ [.symbol .openParen])
  | .unary op f =>
    f.ends (before ++ [.symbol op.toSymbol]) ++ [(before ++ (Form.unary op f).tokens, .unary op f)]
  | .binary op l r =>
    l.ends before ++ r.ends (before ++ l.tokens ++ [.symbol op.toSymbol]) ++
      [(before ++ (Form.binary op l r).tokens, .binary op l r)]

/-- Whether the outcome that comes after a text is that of an operator which ends after the tokens
of the text: its value, written as a literal. -/
def IsOutcomeOf (outcome : List Char × List Char) (ended : List Token × Form) : Prop :=
  tokenize (String.ofList outcome.1) = .ok ended.1 ∧
    ∃ e, ended.2.expr? Token.literal? = some e ∧ outcome.2 = e.value.literalText

/-- Whether an operand may follow a text, which is then read as the tokens. -/
def Leads (front : List Char) (before : List Token) : Prop :=
  ∀ {cs tokens}, (∃ c ds, cs = c :: ds ∧ c ≠ '=') → Lexes cs tokens →
    Lexes (front ++ cs) (before ++ tokens)

section Leads

variable {front cs ds : List Char} {before : List Token} {f g l r : Form}

theorem leads_nil : Leads [] [] := fun _ h => h

theorem Leads.openParen (h : Leads front before) :
    Leads (front ++ ['(']) (before ++ [.symbol .openParen]) := by
  intro cs tokens _ hlexes
  rw [List.append_assoc, List.append_assoc]
  exact h ⟨'(', cs, rfl, by decide⟩ (.token (.symbol (s := .openParen) nofun) hlexes)

theorem Leads.unary (h : Leads front before) (op : UnaryOp) :
    Leads (front ++ op.symbol.toList) (before ++ [.symbol op.toSymbol]) := by
  rintro cs tokens ⟨c, ds, rfl, hc⟩ hlexes
  have hends : op.toSymbol.Ends (c :: ds) := fun _ heq => hc (Option.some.inj heq)
  rw [List.append_assoc, List.append_assoc, ← op.text_toSymbol]
  refine h ?_ (.token (.symbol hends) hlexes)
  cases op <;> exact ⟨_, _, rfl, by decide⟩

/-- Between two operands an explanation has the symbol with a blank on either side. -/
def spaced (op : BinaryOp) : List Char :=
  ' ' :: (op.symbol.toList ++ [' '])

theorem endsOperand_spaced_append (op : BinaryOp) (rest : List Char) :
    EndsOperand (spaced op ++ rest) := by
  simp [EndsOperand, spaced]

theorem lexes_spaced (op : BinaryOp) {rest : List Char} {tokens : List Token}
    (h : Lexes rest tokens) : Lexes (spaced op ++ rest) (.symbol op.toSymbol :: tokens) := by
  have hsymbol := Form.IsText.lexes_symbol op h
  exact .blank (by decide) (by simpa using hsymbol)

theorem Leads.binary (h : Leads front before) (hl : l.IsText cs) (op : BinaryOp) :
    Leads (front ++ (cs ++ spaced op)) (before ++ l.tokens ++ [.symbol op.toSymbol]) := by
  intro ds tokens _ hlexes
  have hleft := hl.lexes (endsOperand_spaced_append op ds) (lexes_spaced op hlexes)
  obtain ⟨c, more, rfl, hc⟩ := hl.exists_eq_cons
  have hall := h ⟨c, _, rfl, hc⟩ hleft
  simpa using hall

/-- A blank after the text of a form changes nothing. -/
theorem Form.IsText.append_blank (h : f.IsText cs) : f.IsText (cs ++ [' ']) := by
  refine ⟨?_, fun {rest tokens} _ hlexes => ?_⟩
  · obtain ⟨c, ds, rfl, hc⟩ := h.exists_eq_cons
    exact ⟨c, ds ++ [' '], rfl, hc⟩
  · rw [List.append_assoc]
    exact h.lexes (by simp [EndsOperand]) (.blank (by decide) hlexes)

theorem Leads.isOutcomeOf {e : Expr} (h : Leads front before) (hf : f.IsText cs)
    (hexpr : f.expr? Token.literal? = some e) :
    IsOutcomeOf (front ++ cs, e.value.literalText) (before ++ f.tokens, f) := by
  refine ⟨?_, e, hexpr, rfl⟩
  rw [tokenize_eq_ok_iff, String.toList_ofList]
  exact h hf.exists_eq_cons hf.lexes_self

end Leads

/-! ## Explanations of forms -/

/-- Whether a text explains a form: without its outcomes it is a text of the form, and the outcomes
are those of the form's operators. -/
structure Explains (f : Form) (cs : List Char) : Prop where
  closed : Closed cs
  isText : f.IsText (plain (pieces cs))
  outcomes : ∀ {front before}, Leads front before →
    List.Forall₂ IsOutcomeOf (outcomesFrom front (pieces cs)) (f.ends before)

namespace Explains

variable {cs ds : List Char} {f l r : Form}

theorem leaf {v : Value} (h : v.IsLiteral) : Explains (.leaf v.token) v.literalText where
  closed := (v.runs_literalText false).closed
  isText := by
    rw [(v.runs_literalText false).pieces_eq, plain_map_char]
    exact .leaf h
  outcomes _ := by
    rw [(v.runs_literalText false).pieces_eq, outcomesFrom_map_char]
    exact .nil

theorem parenthesize (h : Explains f cs) (wanted : Bool) :
    Explains (f.parenthesize wanted) (Workflow.parenthesize wanted cs) := by
  cases wanted with
  | false => exact h
  | true =>
      have hparen : ∀ c, Cursor.IsOrdinary c → Cursor.Runs .start [c] .start := fun c hc =>
        Cursor.runs_of_isOrdinary (by simpa using hc) false
      have hopen := hparen '(' (by decide)
      have hclose := hparen ')' (by decide)
      have hpieces : pieces ('(' :: cs ++ [')']) =
          ['('].map .char ++ (pieces cs ++ [')'].map .char) := by
        rw [← hopen.pieces_eq, ← hclose.pieces_eq, ← h.closed.pieces_append,
          ← hopen.closed.pieces_append]
        rfl
      refine ⟨?_, ?_, fun {front before} hfront => ?_⟩
      · exact (hopen.closed.append h.closed).append hclose.closed
      · have htext := h.isText.parenthesize true
        change Form.IsText _ (plain (pieces ('(' :: cs ++ [')'])))
        rw [hpieces]
        simpa [Workflow.parenthesize] using htext
      · have houtcomes := h.outcomes hfront.openParen
        change List.Forall₂ _ (outcomesFrom front (pieces ('(' :: cs ++ [')']))) _
        rw [hpieces]
        simpa [Form.parenthesize, Form.ends] using houtcomes

/-- A text of an operator and its operands, with the outcome behind it. -/
theorem of_outcome {e : Expr} (hclosed : Closed cs) (htext : f.IsText (plain (pieces cs)))
    (hexpr : f.expr? Token.literal? = some e)
    (houtcomes : ∀ {front before}, Leads front before → ∃ inner,
      f.ends before = inner ++ [(before ++ f.tokens, f)] ∧
        List.Forall₂ IsOutcomeOf (outcomesFrom front (pieces cs)) inner) :
    Explains f (cs ++ Trace.outcomeText e.value) := by
  have hpieces : pieces (cs ++ Trace.outcomeText e.value) =
      pieces cs ++ [.char ' ', .outcome e.value.literalText] := by
    rw [hclosed.pieces_append, pieces_outcomeText]
  refine ⟨hclosed.append (closed_outcomeText e.value), ?_, fun {front before} hfront => ?_⟩
  · rw [hpieces, plain_append]
    exact htext.append_blank
  · obtain ⟨inner, hends, hinner⟩ := houtcomes hfront
    have hlast := hfront.isOutcomeOf htext.append_blank hexpr
    rw [hpieces, outcomesFrom_append, hends]
    refine List.rel_append hinner ?_
    simpa using hlast

theorem runs_symbol (op : UnaryOp) : Cursor.Runs .start op.symbol.toList .start := by
  refine Cursor.runs_of_isOrdinary ?_ false
  cases op <;> exact List.forall_iff_forall_mem.1 (by decide)

theorem runs_spaced (op : BinaryOp) : Cursor.Runs .start (spaced op) .start := by
  refine Cursor.runs_of_isOrdinary ?_ false
  cases op <;> exact List.forall_iff_forall_mem.1 (by decide)

theorem unary (h : Explains f cs) {op : UnaryOp} {e : Expr}
    (hexpr : (Form.unary op f).expr? Token.literal? = some e) :
    Explains (.unary op f) (op.symbol.toList ++ cs ++ Trace.outcomeText e.value) := by
  have hpieces : pieces (op.symbol.toList ++ cs) = op.symbol.toList.map .char ++ pieces cs := by
    rw [(runs_symbol op).closed.pieces_append, (runs_symbol op).pieces_eq]
  refine of_outcome ((runs_symbol op).closed.append h.closed) ?_ hexpr
    fun {front before} hfront => ⟨_, rfl, ?_⟩
  · rw [hpieces, plain_append, plain_map_char]
    exact h.isText.unary op
  · have houtcomes := h.outcomes (hfront.unary op)
    rw [hpieces]
    simpa using houtcomes

theorem binary (hl : Explains l cs) (hr : Explains r ds) {op : BinaryOp} {e : Expr}
    (hexpr : (Form.binary op l r).expr? Token.literal? = some e) :
    Explains (.binary op l r)
      (cs ++ ' ' :: op.symbol.toList ++ ' ' :: ds ++ Trace.outcomeText e.value) := by
  have hsymbol := runs_spaced op
  have htext : cs ++ ' ' :: op.symbol.toList ++ ' ' :: ds = cs ++ spaced op ++ ds := by
    simp [spaced]
  have hpieces : pieces (cs ++ spaced op ++ ds) =
      pieces cs ++ (spaced op).map .char ++ pieces ds := by
    rw [(hl.closed.append hsymbol.closed).pieces_append, hl.closed.pieces_append,
      hsymbol.pieces_eq]
  rw [htext]
  refine of_outcome ((hl.closed.append hsymbol.closed).append hr.closed) ?_ hexpr
    fun {front before} hfront => ⟨_, rfl, ?_⟩
  · rw [hpieces, plain_append, plain_append, plain_map_char]
    exact hl.isText.binary_of_lexes hr.isText (endsOperand_spaced_append op) (lexes_spaced op)
  · have hleft := hl.outcomes hfront
    have hright := hr.outcomes (hfront.binary hl.isText op)
    rw [hpieces, outcomesFrom_append, outcomesFrom_append, outcomesFrom_map_char, plain_append,
      plain_map_char, List.append_nil]
    exact List.rel_append hleft hright

end Explains

/-! ## Explanations of expressions -/

namespace Expr

theorem explainAt_trace_of_skips {op : BinaryOp} {l : Expr} (h : op.Skips l.trace.outcome)
    (r : Expr) (context : Nat) :
    (Expr.binary op l r).trace.explainAt context =
      parenthesize (op.level < context) (l.trace.explainAt op.level) := by
  have hlevel := (records_trace (.binary op l r)).level_eq
  rw [trace_binary_of_skips h] at hlevel ⊢
  rw [Trace.explainAt, hlevel]
  rfl

theorem explainAt_trace_of_not_skips {op : BinaryOp} {l : Expr} (h : ¬op.Skips l.trace.outcome)
    (r : Expr) (context : Nat) :
    (Expr.binary op l r).trace.explainAt context =
      parenthesize (op.level < context)
        (l.trace.explainAt op.level ++ ' ' :: op.symbol.toList ++
          ' ' :: r.trace.explainAt (op.level + 1) ++
            Trace.outcomeText (op.apply l.trace.outcome r.trace.outcome)) := by
  have hlevel := (records_trace (.binary op l r)).level_eq
  have hright := r.trace_ne_notEvaluated
  rw [trace_binary_of_not_skips h] at hlevel ⊢
  rw [Trace.explainAt.eq_def]
  simp only [hlevel]
  rfl

/-- **The text of a trace explains what is left of the expression.** -/
theorem explains_shownAt {e : Expr} (he : ∀ v ∈ e.literals, v.IsPrintable) (context : Nat) :
    Explains (e.shownAt context) (e.trace.explainAt context) := by
  induction e generalizing context with
  | literal v =>
      exact (Explains.leaf (he v (List.mem_singleton_self v)).isLiteral).parenthesize _
  | unary op e ih =>
      have hexpr := expr?_shownAt (e := .unary op e) he unaryLevel
      rw [shownAt, Form.expr?_parenthesize] at hexpr
      have hexplains := ((ih he unaryLevel).unary hexpr).parenthesize (unaryLevel < context)
      rw [value_pruned] at hexplains
      rwa [shownAt, trace, Trace.explainAt, outcome_trace]
  | binary op l r ihl ihr =>
      have hl := ihl (fun v hv => he v (List.mem_append_left _ hv)) op.level
      have hr := ihr (fun v hv => he v (List.mem_append_right _ hv)) (op.level + 1)
      have hexpr := expr?_shownAt (e := .binary op l r) he op.level
      by_cases hskips : op.Skips l.trace.outcome
      · have hdecided := BinaryOp.skips_iff.1 hskips
        rw [outcome_trace] at hdecided
        rw [explainAt_trace_of_skips hskips, shownAt, if_pos hdecided]
        exact hl.parenthesize _
      · have hdecided := mt BinaryOp.skips_iff.2 hskips
        rw [outcome_trace] at hdecided
        rw [explainAt_trace_of_not_skips hskips, shownAt, if_neg hdecided]
        rw [shownAt, Form.expr?_parenthesize, if_neg hdecided] at hexpr
        have hvalue : op.apply l.trace.outcome r.trace.outcome = (binary op l r).pruned.value := by
          rw [value_pruned, value, if_neg hdecided, outcome_trace, outcome_trace]
        rw [hvalue]
        exact (hl.binary hr hexpr).parenthesize _

/-- Without its outcomes an explanation is read as what it shows. -/
theorem tokenize_withoutOutcomes {e : Expr} (he : ∀ v ∈ e.literals, v.IsPrintable) :
    tokenize (withoutOutcomes e.trace.explain) = .ok (e.shownAt 0).tokens := by
  rw [tokenize_eq_ok_iff, withoutOutcomes, String.toList_ofList, Trace.explain,
    String.toList_ofList]
  exact (explains_shownAt he 0).isText.lexes_self

/-- **Explanations are faithful.**  Take an explanation of an expression, of whatever shape, whose
literals are printable, apart into outcomes and what is left without them; nothing else is lost.
What is left is a text that the grammar reads in one way, as the expression with the left operand in
the place of every connective that it decided, and this has the value of the expression.  The
outcomes are those of the operators of that text, each behind the operator that it belongs to.  If
everything was evaluated, the text has the tokens that the printed expression has. -/
theorem explain_faithful {e : Expr} (he : ∀ v ∈ e.literals, v.IsPrintable) :
    (pieces e.trace.explain.toList).flatMap Piece.text = e.trace.explain.toList ∧
    (∃ f : Form, f.Derives 0 ∧ tokenize (withoutOutcomes e.trace.explain) = .ok f.tokens ∧
      (∀ g : Form, g.Derives 0 → g.tokens = f.tokens → g = f) ∧
      f.expr? Token.literal? = some e.pruned ∧
      List.Forall₂ IsOutcomeOf (outcomes e.trace.explain) (f.ends [])) ∧
    e.pruned.value = e.value ∧
    ((∀ path, e.trace.at? path ≠ some .notEvaluated) →
      tokenize (withoutOutcomes e.trace.explain) = tokenize e.print) := by
  have hexplains := explains_shownAt he 0
  have hderives := e.derives_shownAt (Nat.zero_le literalLevel)
  have htokens := tokenize_withoutOutcomes he
  refine ⟨?_, ⟨e.shownAt 0, hderives, htokens, ?_, expr?_shownAt he 0, ?_⟩, e.value_pruned, ?_⟩
  · rw [Trace.explain, String.toList_ofList]
    exact hexplains.closed.flatMap_text_pieces
  · exact fun g hg heq => Form.eq_of_tokens_eq hg hderives heq
  · rw [outcomes, Trace.explain, String.toList_ofList]
    exact hexplains.outcomes leads_nil
  · intro hall
    rw [htokens, shownAt_eq_formAt hall, tokenize_print fun v hv => (he v hv).isLiteral]

/-- A conjunction that is decided inside of a disjunction that is not, beside a string with a
bracket and a quote; and a comma, which is printed in another way. -/
theorem explain_faithful_or_of_and :
    let sum : Expr := .unary .minus (.binary .add (.literal (.number 1)) (.literal (.number 2)))
    let s : Expr := .literal (.string "]\"")
    let e : Expr := .binary .sequence
      (.binary .or (.binary .and (.literal .null) (.literal (.bool true))) sum) s
    let all : Expr := .binary .sequence (.literal .null) s
    (∀ v ∈ e.literals, v.IsPrintable) ∧
      e.trace.explain = "null || -(1 + 2 [3]) [-3] [-3] , \"]\\\"\" [\"]\\\"\"]" ∧
      (∃ f : Form, f.Derives 0 ∧
        tokenize "null || -(1 + 2 )   , \"]\\\"\" " = .ok f.tokens ∧
        f.expr? Token.literal? = some (.binary .sequence (.binary .or (.literal .null) sum) s)) ∧
      (∀ path, all.trace.at? path ≠ some .notEvaluated) ∧
      tokenize "null , \"]\\\"\" " = tokenize "null, \"]\\\"\"" := by
  intro sum s e all
  have he : ∀ v ∈ e.literals, v.IsPrintable := by
    refine List.forall_iff_forall_mem.1 ⟨trivial, trivial, .inr (.inr (by decide +kernel)),
      .inr (.inr (by decide +kernel)), ?_⟩
    exact List.forall_iff_forall_mem.1 (by decide +kernel)
  have hall : ∀ v ∈ all.literals, v.IsPrintable := by
    refine List.forall_iff_forall_mem.1 ⟨trivial, ?_⟩
    exact List.forall_iff_forall_mem.1 (by decide +kernel)
  have hevaluated : ∀ path, all.trace.at? path ≠ some .notEvaluated := by
    rintro (_ | ⟨_ | _ | _, _ | ⟨_ | _ | _, path⟩⟩) h <;> cases h
  obtain ⟨-, ⟨f, hf, htokens, -, hexpr, -⟩, -⟩ := explain_faithful he
  have htext : withoutOutcomes e.trace.explain = "null || -(1 + 2 )   , \"]\\\"\" " := by
    decide +kernel
  have hpruned : e.pruned = .binary .sequence (.binary .or (.literal .null) sum) s := by
    decide +kernel
  rw [htext] at htokens
  rw [hpruned] at hexpr
  have hsame := (explain_faithful hall).2.2.2 hevaluated
  have htextAll : withoutOutcomes all.trace.explain = "null , \"]\\\"\" " := by decide +kernel
  have hprint : all.print = "null, \"]\\\"\"" := by decide +kernel
  rw [htextAll, hprint] at hsame
  exact ⟨he, by decide +kernel, ⟨f, hf, htokens, hexpr⟩, hevaluated, hsame⟩

end Expr

end Workflow
