import Workflow.Expr.Trace
import Workflow.Proofs.Evaluation
import Workflow.Proofs.Grammar

/-!
# What a trace says

Laid over its expression, a trace has a node wherever the expression has one, except below a
connective that its left operand decided: there it ends in a mark.  Each node says which operator
stands there and what that operator made of the outcomes below it.

* `Expr.at?` and `Trace.at?` are the parts that a path leads to.
* `BinaryOp.Skips` is when an operator leaves its right operand alone.
* `Trace.Records` is what a node says about the part that it came from.
* `Expr.trace_mirrors` compares a trace with its expression, path by path.
-/

namespace Workflow

/-! ## Parts -/

/-- The operand that a turn leads to. -/
def Expr.operand? : Expr → Turn → Option Expr
  | .unary _ e, .only => some e
  | .binary _ l _, .left => some l
  | .binary _ _ r, .right => some r
  | _, _ => none

/-- The node below that a turn leads to. -/
def Trace.operand? : Trace → Turn → Option Trace
  | .unary _ t _, .only => some t
  | .binary _ l _ _, .left => some l
  | .binary _ _ r _, .right => some r
  | _, _ => none

/-- The part of an expression that a path leads to. -/
def Expr.at? (e : Expr) (path : List Turn) : Option Expr :=
  path.foldlM Expr.operand? e

/-- The part of a trace that a path leads to. -/
def Trace.at? (t : Trace) (path : List Turn) : Option Trace :=
  path.foldlM Trace.operand? t

theorem Expr.at?_cons (e : Expr) (turn : Turn) (path : List Turn) :
    e.at? (turn :: path) = (e.operand? turn).bind (·.at? path) :=
  List.foldlM_cons

theorem Trace.at?_cons (t : Trace) (turn : Turn) (path : List Turn) :
    t.at? (turn :: path) = (t.operand? turn).bind (·.at? path) :=
  List.foldlM_cons

theorem Trace.at?_concat (t : Trace) (front : List Turn) (turn : Turn) :
    t.at? (front ++ [turn]) = (t.at? front).bind (·.operand? turn) := by
  simp [at?, List.foldlM_append, Option.bind_eq_bind]

/-- Nothing lies below what was not evaluated. -/
theorem Trace.eq_nil_of_at?_notEvaluated {path : List Turn} {t : Trace}
    (h : Trace.notEvaluated.at? path = some t) : path = [] := by
  cases path with
  | nil => rfl
  | cons turn path => cases h

/-! ## Nodes -/

/-- When an operator leaves its right operand alone: what counts as false decides a conjunction, and
what does not decides a disjunction. -/
inductive BinaryOp.Skips : BinaryOp → Value → Prop
  | and {v : Value} : v.Falsy → Skips .and v
  | or {v : Value} : ¬v.Falsy → Skips .or v

theorem BinaryOp.skips_iff {op : BinaryOp} {v : Value} : op.Skips v ↔ op.isDecidedBy v = true := by
  constructor
  · intro h
    cases h with
    | and h => simp [isDecidedBy, Value.falsy_iff.1 h]
    | or h => simpa [isDecidedBy, Value.falsy_iff] using h
  · intro h
    cases op with
    | and => exact .and (Value.falsy_iff.2 (by simpa [isDecidedBy] using h))
    | or => exact .or (by simpa [isDecidedBy, Value.falsy_iff] using h)
    | _ => cases h

/-- What a node of a trace says about the part of the expression that it came from: the symbol is
the one that the operator is read from, and the outcome is what the operator makes of the outcomes
below. -/
inductive Trace.Records : Trace → Expr → Prop
  | literal (v : Value) : Records (.leaf v) (.literal v)
  | unary {s : Symbol} {op : UnaryOp} {e : Expr} {t : Trace} {v : Value} :
      s.unaryOp? = some op → Evaluates (.unary op (.literal t.outcome)) v →
      Records (.unary s.text t v) (.unary op e)
  | skipping {s : Symbol} {op : BinaryOp} {l r : Expr} {t : Trace} :
      (chainOperators op.level).lookup s = some op → op.Skips t.outcome →
      Records (.binary s.text t .notEvaluated t.outcome) (.binary op l r)
  | binary {s : Symbol} {op : BinaryOp} {l r : Expr} {t u : Trace} {v : Value} :
      (chainOperators op.level).lookup s = some op → ¬op.Skips t.outcome → u ≠ .notEvaluated →
      Evaluates (.binary op (.literal t.outcome) (.literal u.outcome)) v →
      Records (.binary s.text t u v) (.binary op l r)

/-- The traces' table of levels agrees with that of the expressions. -/
theorem Trace.levelOfSymbol_symbol (op : BinaryOp) : levelOfSymbol op.symbol = op.level := by
  cases op <;> rfl

/-- A node binds as tightly as the part that it came from. -/
theorem Trace.Records.level_eq {t : Trace} {e : Expr} (h : t.Records e) : t.level = e.level := by
  have hlevel : ∀ {s : Symbol} {op : BinaryOp} (left right : Trace) (v : Value),
      (chainOperators op.level).lookup s = some op →
        (Trace.binary s.text left right v).level = op.level := by
    intro s op left right v hs
    obtain ⟨-, rfl⟩ := lookup_chainOperators_eq_some_iff.1 hs
    rw [Trace.level, op.text_toSymbol, levelOfSymbol_symbol]
  cases h with
  | literal v => rfl
  | unary _ _ => rfl
  | skipping hs _ => exact hlevel _ _ _ hs
  | binary hs _ _ _ => exact hlevel _ _ _ hs

namespace Expr

theorem trace_ne_notEvaluated (e : Expr) : e.trace ≠ .notEvaluated := by
  cases e with
  | literal v => simp [trace]
  | unary op e => simp [trace]
  | binary op l r =>
      rw [trace]
      split <;> simp

theorem trace_binary_of_skips {op : BinaryOp} {l : Expr} (h : op.Skips l.trace.outcome) (r : Expr) :
    (Expr.binary op l r).trace = .binary op.symbol l.trace .notEvaluated l.trace.outcome := by
  rw [trace, if_pos (BinaryOp.skips_iff.1 h)]

theorem trace_binary_of_not_skips {op : BinaryOp} {l : Expr} (h : ¬op.Skips l.trace.outcome)
    (r : Expr) :
    (Expr.binary op l r).trace =
      .binary op.symbol l.trace r.trace (op.apply l.trace.outcome r.trace.outcome) := by
  rw [trace, if_neg (mt BinaryOp.skips_iff.2 h)]

/-- The root of a trace records its expression. -/
theorem records_trace (e : Expr) : e.trace.Records e := by
  cases e with
  | literal v => exact .literal v
  | unary op e =>
      rw [trace, ← op.text_toSymbol]
      exact .unary op.unaryOp?_toSymbol (evaluates_value (.unary op (.literal e.trace.outcome)))
  | binary op l r =>
      have hlookup : (chainOperators op.level).lookup op.toSymbol = some op :=
        lookup_chainOperators_eq_some_iff.2 ⟨rfl, rfl⟩
      by_cases hskips : op.Skips l.trace.outcome
      · rw [trace_binary_of_skips hskips, ← op.text_toSymbol]
        exact .skipping hlookup hskips
      · have hvalue := evaluates_value
          (.binary op (.literal l.trace.outcome) (.literal r.trace.outcome))
        rw [value, value, if_neg (mt BinaryOp.skips_iff.2 hskips), value] at hvalue
        rw [trace_binary_of_not_skips hskips, ← op.text_toSymbol]
        exact .binary hlookup hskips r.trace_ne_notEvaluated hvalue

/-! ## Paths -/

/-- Whether the left operand of the outermost operator decides. -/
def SkipsRight (e : Expr) : Prop :=
  ∃ op l r, e = .binary op l r ∧ op.Skips l.trace.outcome

theorem SkipsRight.operand?_trace {e : Expr} (h : e.SkipsRight) :
    e.trace.operand? .right = some .notEvaluated := by
  obtain ⟨op, l, r, rfl, hskips⟩ := h
  rw [trace_binary_of_skips hskips]
  rfl

/-- Elsewhere the nodes below are the traces of the operands. -/
theorem operand?_trace {e : Expr} {turn : Turn} (h : ¬(turn = .right ∧ e.SkipsRight)) :
    e.trace.operand? turn = (e.operand? turn).map trace := by
  cases e with
  | literal v => rfl
  | unary op e => cases turn <;> rfl
  | binary op l r =>
      by_cases hskips : op.Skips l.trace.outcome
      · rw [trace_binary_of_skips hskips]
        cases turn with
        | right => exact absurd ⟨rfl, op, l, r, rfl, hskips⟩ h
        | _ => rfl
      · rw [trace_binary_of_not_skips hskips]
        cases turn <;> rfl

/-- What was evaluated is the trace of what stands in the expression. -/
theorem exists_of_at?_trace {e : Expr} {path : List Turn} {t : Trace}
    (h : e.trace.at? path = some t) (ht : t ≠ .notEvaluated) :
    ∃ f, e.at? path = some f ∧ t = f.trace := by
  induction path generalizing e with
  | nil => exact ⟨e, rfl, (Option.some.inj h).symm⟩
  | cons turn path ih =>
      rw [Trace.at?_cons] at h
      by_cases hskips : turn = .right ∧ e.SkipsRight
      · -- below the mark there is nothing but the mark
        obtain ⟨rfl, hskips⟩ := hskips
        rw [hskips.operand?_trace, Option.bind_some] at h
        obtain rfl := Trace.eq_nil_of_at?_notEvaluated h
        exact absurd (Option.some.inj h).symm ht
      · rw [operand?_trace hskips, Option.bind_map] at h
        obtain ⟨operand, hoperand, h⟩ := Option.bind_eq_some_iff.1 h
        rw [at?_cons, hoperand]
        exact ih h

/-- What stands in the expression has its trace, if it is not part of a right operand that was left
alone. -/
theorem at?_trace_or_skipped {e f : Expr} {path : List Turn} (h : e.at? path = some f) :
    e.trace.at? path = some f.trace ∨
      ∃ front back : List Turn, path = front ++ .right :: back ∧
        e.trace.at? (front ++ [.right]) = some .notEvaluated := by
  induction path generalizing e with
  | nil => exact .inl (congrArg (some ∘ trace) (Option.some.inj h))
  | cons turn path ih =>
      by_cases hskips : turn = .right ∧ e.SkipsRight
      · obtain ⟨rfl, hskips⟩ := hskips
        refine .inr ⟨[], path, rfl, ?_⟩
        rw [Trace.at?_concat]
        exact hskips.operand?_trace
      · have hbelow := operand?_trace hskips
        rw [at?_cons] at h
        obtain ⟨operand, hoperand, h⟩ := Option.bind_eq_some_iff.1 h
        rw [hoperand, Option.map_some] at hbelow
        rcases ih h with htrace | ⟨front, back, rfl, hmark⟩
        · refine .inl ?_
          rwa [Trace.at?_cons, hbelow]
        · refine .inr ⟨turn :: front, back, rfl, ?_⟩
          rwa [List.cons_append, Trace.at?_cons, hbelow]

/-- The mark stands for the right operand of a connective that its left operand decided, and nowhere
else. -/
theorem at?_trace_eq_notEvaluated_iff {e : Expr} {path : List Turn} :
    e.trace.at? path = some .notEvaluated ↔
      ∃ (front : List Turn) (op : BinaryOp) (l r : Expr) (t : Trace),
        path = front ++ [.right] ∧ e.at? front = some (.binary op l r) ∧
        e.trace.at? (front ++ [.left]) = some t ∧ op.Skips t.outcome := by
  constructor
  · intro h
    rcases path.eq_nil_or_concat with rfl | ⟨front, turn, rfl⟩
    · exact absurd (Option.some.inj h) e.trace_ne_notEvaluated
    · rw [List.concat_eq_append, Trace.at?_concat] at h
      obtain ⟨above, habove, h⟩ := Option.bind_eq_some_iff.1 h
      obtain ⟨f, hf, rfl⟩ := exists_of_at?_trace habove (by rintro rfl; cases h)
      by_cases hskips : turn = .right ∧ f.SkipsRight
      · obtain ⟨rfl, op, l, r, rfl, hskips⟩ := hskips
        refine ⟨front, op, l, r, l.trace, List.concat_eq_append, hf, ?_, hskips⟩
        rw [Trace.at?_concat, habove, trace_binary_of_skips hskips]
        rfl
      · rw [operand?_trace hskips] at h
        obtain ⟨operand, -, h⟩ := Option.map_eq_some_iff.1 h
        exact absurd h operand.trace_ne_notEvaluated
  · rintro ⟨front, op, l, r, t, rfl, hf, ht, hskips⟩
    rw [Trace.at?_concat] at ht
    obtain ⟨above, habove, ht⟩ := Option.bind_eq_some_iff.1 ht
    obtain ⟨f, hfound, rfl⟩ := exists_of_at?_trace habove (by rintro rfl; cases ht)
    obtain rfl : f = .binary op l r := Option.some.inj (hfound.symm.trans hf)
    have hleft : (Expr.binary op l r).trace.operand? .left = some l.trace :=
      operand?_trace (by simp)
    rw [hleft] at ht
    obtain rfl : l.trace = t := Option.some.inj ht
    have hright : (Expr.binary op l r).SkipsRight := ⟨op, l, r, rfl, hskips⟩
    rw [Trace.at?_concat, habove]
    exact hright.operand?_trace

/-- **A trace mirrors its expression.**  A node of the trace that was evaluated came from the part of
the expression at the same path: it is the trace of that part, records it, and binds as tightly.
Every part of the expression has such a node, unless it lies in a right operand that was left alone.
The mark for what was left alone, which came from no part, stands to the right of a connective that
the outcome on the left decided, always and only there. -/
theorem trace_mirrors (e : Expr) (path : List Turn) :
    (∀ t, e.trace.at? path = some t → t ≠ .notEvaluated →
      ∃ f, e.at? path = some f ∧ t = f.trace ∧ t.Records f ∧ t.level = f.level) ∧
    (∀ f, e.at? path = some f →
      e.trace.at? path = some f.trace ∨
        ∃ front back : List Turn, path = front ++ .right :: back ∧
          e.trace.at? (front ++ [.right]) = some .notEvaluated) ∧
    (e.trace.at? path = some .notEvaluated ↔
      ∃ (front : List Turn) (op : BinaryOp) (l r : Expr) (t : Trace),
        path = front ++ [.right] ∧ e.at? front = some (.binary op l r) ∧
        e.trace.at? (front ++ [.left]) = some t ∧ op.Skips t.outcome) := by
  refine ⟨fun t h ht => ?_, fun f h => at?_trace_or_skipped h, at?_trace_eq_notEvaluated_iff⟩
  obtain ⟨f, hf, rfl⟩ := exists_of_at?_trace h ht
  exact ⟨f, hf, rfl, f.records_trace, f.records_trace.level_eq⟩

/-- A disjunction that is decided by the negation of a conjunction that is decided, too. -/
theorem trace_mirrors_or_not_and :
    let inner : Expr := .binary .and (.literal .null) (.literal (.bool true))
    let e : Expr := .binary .or (.unary .not inner) (.literal (.string "a"))
    let decided : Trace := .binary "&&" (.leaf .null) .notEvaluated .null
    e.trace = .binary "||" (.unary "!" decided (.bool true)) .notEvaluated (.bool true) ∧
      e.at? [.left, .only] = some inner ∧ decided.Records inner ∧ decided.level = inner.level ∧
      e.trace.at? [.right] = some .notEvaluated ∧
      e.trace.at? [.left, .only, .right] = some .notEvaluated := by
  intro inner e decided
  have hat : e.at? [.left, .only] = some inner := rfl
  obtain ⟨hnodes, -, -⟩ := trace_mirrors e [.left, .only]
  obtain ⟨f, hf, -, hrecords, hlevel⟩ := hnodes decided rfl nofun
  obtain rfl : inner = f := Option.some.inj (hat.symm.trans hf)
  refine ⟨rfl, hat, hrecords, hlevel, ?_, ?_⟩
  · exact (trace_mirrors e [.right]).2.2.2
      ⟨[], .or, _, _, _, rfl, rfl, rfl, .or fun h => by cases h⟩
  · exact (trace_mirrors e [.left, .only, .right]).2.2.2
      ⟨[.left, .only], .and, _, _, _, rfl, hat, rfl, .and .null⟩

end Expr
end Workflow
