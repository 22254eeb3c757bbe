import Workflow.Expr.Parser

/-!
# What the parsers read

The parsers as a relation: one rule for each way in which one of them comes to a tree, with the
depth at which it is called.  What holds of every tree that is read is proved by induction on these
rules, without the order in which the parsers try them.

* `lookup_chainOperators_eq_some_iff` says that the parsers and the printer give an operator the same
  level.
* `Phrase` is what a parser can be asked for, `Phrase.parse` the parser that is asked.
* `Reads` is the relation.
* `Phrase.parse_eq_ok_iff` says that the parsers come to a tree exactly where the relation does.
-/

namespace Workflow

/-! ## Operators and their symbols -/

/-- The symbol that stands before an operand. -/
def UnaryOp.toSymbol : UnaryOp → Symbol
  | .not => .bang
  | .minus => .minus
  | .plus => .plus

/-- The symbol that stands between two operands. -/
def BinaryOp.toSymbol : BinaryOp → Symbol
  | .sequence => .comma
  | .or => .or
  | .and => .and
  | .equal => .equal
  | .notEqual => .notEqual
  | .strictEqual => .strictEqual
  | .strictNotEqual => .strictNotEqual
  | .less => .less
  | .greater => .greater
  | .lessEqual => .lessEqual
  | .greaterEqual => .greaterEqual
  | .add => .plus
  | .subtract => .minus
  | .multiply => .star
  | .divide => .slash

/-- An operator is printed as the symbol that it is read from. -/
theorem UnaryOp.text_toSymbol (op : UnaryOp) : op.toSymbol.text = op.symbol := by
  cases op <;> rfl

theorem BinaryOp.text_toSymbol (op : BinaryOp) : op.toSymbol.text = op.symbol := by
  cases op <;> rfl

theorem Symbol.unaryOp?_eq_some_iff {s : Symbol} {op : UnaryOp} :
    s.unaryOp? = some op ↔ s = op.toSymbol := by
  constructor
  · intro h
    cases s <;> simp only [unaryOp?, Option.some.injEq, reduceCtorEq] at h <;> subst h <;> rfl
  · rintro rfl
    cases op <;> rfl

@[simp] theorem UnaryOp.unaryOp?_toSymbol (op : UnaryOp) : op.toSymbol.unaryOp? = some op :=
  Symbol.unaryOp?_eq_some_iff.2 rfl

theorem UnaryOp.toSymbol_inj {op other : UnaryOp} : op.toSymbol = other.toSymbol ↔ op = other := by
  rw [← Symbol.unaryOp?_eq_some_iff, unaryOp?_toSymbol, Option.some_inj]

theorem UnaryOp.toSymbol_ne_openParen (op : UnaryOp) : op.toSymbol ≠ .openParen := by
  cases op <;> decide

theorem BinaryOp.toSymbol_inj {op other : BinaryOp} :
    op.toSymbol = other.toSymbol ↔ op = other := by
  refine ⟨fun h => ?_, congrArg toSymbol⟩
  cases op <;> cases other <;> first | rfl | cases h

theorem forall_mem_chainOperators (level : Nat) :
    ∀ entry ∈ chainOperators level, entry.2.level = level ∧ entry.1 = entry.2.toSymbol := by
  match level with
  | 0 | 1 | 2 | 3 | 4 | 5 | 6 => decide
  | _ + 7 => exact nofun

/-- The operators of a level are those that are printed at it. -/
theorem lookup_chainOperators_eq_some_iff {level : Nat} {s : Symbol} {op : BinaryOp} :
    (chainOperators level).lookup s = some op ↔ op.level = level ∧ s = op.toSymbol := by
  constructor
  · intro h
    obtain ⟨front, back, hlist, -⟩ := List.lookup_eq_some_iff.1 h
    exact forall_mem_chainOperators level (s, op) (hlist ▸ by simp)
  · rintro ⟨rfl, rfl⟩
    cases op <;> rfl

/-- What the operator of a level at the front of some tokens is, if there is one. -/
theorem operatorAt?_eq_some_iff {level : Nat} {tokens rest : List Token} {op : BinaryOp} :
    operatorAt? level tokens = some (op, rest) ↔
      op.level = level ∧ tokens = .symbol op.toSymbol :: rest := by
  unfold operatorAt?
  split
  · rename_i s more
    simp only [Option.map_eq_some_iff, lookup_chainOperators_eq_some_iff, Prod.mk.injEq,
      List.cons.injEq, Token.symbol.injEq]
    constructor
    · rintro ⟨found, ⟨hlevel, hs⟩, rfl, rfl⟩
      exact ⟨hlevel, hs, rfl⟩
    · rintro ⟨hlevel, hs, rfl⟩
      exact ⟨op, ⟨hlevel, hs⟩, rfl, rfl⟩
  · rename_i hsymbol
    refine iff_of_false (Option.some_ne_none _).symm ?_
    rintro ⟨-, rfl⟩
    exact hsymbol _ _ rfl

theorem operatorAt?_symbol (op : BinaryOp) (rest : List Token) :
    operatorAt? op.level (.symbol op.toSymbol :: rest) = some (op, rest) :=
  operatorAt?_eq_some_iff.2 ⟨rfl, rfl⟩

/-! ## Rules -/

/-- What a parser can be asked for. -/
inductive Phrase where
  /-- A chain of the given level, or anything that binds more tightly. -/
  | chain (level : Nat)
  /-- The rest of a chain of the given level, after the operands so far. -/
  | tail (level : Nat) (left : Expr)
  /-- Operators before an operand, and the operand. -/
  | unary
  /-- A literal or a group. -/
  | primary

/-- Asks the parser for a phrase. -/
def Phrase.parse : Phrase → Nat → List Token → Parsed
  | .chain level, depth, tokens => parseLevel level depth tokens
  | .tail level left, depth, tokens => parseChain level depth left tokens
  | .unary, depth, tokens => parseUnary depth tokens
  | .primary, depth, tokens => parsePrimary depth tokens

/-- The literal that a token is. -/
def Token.literal? : Token → Option Value
  | .number x => some (.number x)
  | .string s => some (.string s)
  | .ident name => keyword? name
  | .symbol _ => none

/-- The phrase at the front of the tokens, read at the given depth, is the tree, and the last tokens
are left. -/
inductive Reads : Phrase → Nat → List Token → Expr → List Token → Prop
  | chain {level depth : Nat} {tokens more rest : List Token} {left e : Expr} :
      level < unaryLevel → Reads (.chain (level + 1)) depth tokens left more →
      Reads (.tail level left) depth more e rest → Reads (.chain level) depth tokens e rest
  | tightest {level depth : Nat} {tokens rest : List Token} {e : Expr} :
      ¬level < unaryLevel → Reads .unary depth tokens e rest →
      Reads (.chain level) depth tokens e rest
  | tailEnd {level depth : Nat} {tokens : List Token} {left : Expr} :
      operatorAt? level tokens = none → Reads (.tail level left) depth tokens left tokens
  | operator {level depth : Nat} {tokens operand more rest : List Token} {op : BinaryOp}
      {left right e : Expr} :
      operatorAt? level tokens = some (op, operand) → depth < maxDepth →
      Reads (.chain (level + 1)) (depth + 1) operand right more →
      Reads (.tail level (.binary op left right)) (depth + 1) more e rest →
      Reads (.tail level left) depth tokens e rest
  | unary {depth : Nat} {s : Symbol} {op : UnaryOp} {tokens rest : List Token} {operand : Expr} :
      s.unaryOp? = some op → depth < maxDepth → Reads .unary (depth + 1) tokens operand rest →
      Reads .unary depth (.symbol s :: tokens) (.unary op operand) rest
  | primary {depth : Nat} {tokens rest : List Token} {e : Expr} :
      Reads .primary depth tokens e rest → Reads .unary depth tokens e rest
  | literal {depth : Nat} {token : Token} {rest : List Token} {v : Value} :
      token.literal? = some v → Reads .primary depth (token :: rest) (.literal v) rest
  | group {depth : Nat} {tokens rest : List Token} {e : Expr} :
      depth < maxDepth → Reads (.chain 0) (depth + 1) tokens e (.symbol .closeParen :: rest) →
      Reads .primary depth (.symbol .openParen :: tokens) e rest

/-! ## What a call that succeeds has done -/

variable {level depth : Nat} {tokens rest : List Token} {left e : Expr}

theorem closeGroup_cases {inner : Expr} (h : closeGroup inner tokens = .ok (e, rest)) :
    inner = e ∧ tokens = .symbol .closeParen :: rest := by
  unfold closeGroup at h
  split at h
  · cases h
    exact ⟨rfl, rfl⟩
  · cases h
  · cases h

theorem parseLevel_cases (h : parseLevel level depth tokens = .ok (e, rest)) :
    (level < unaryLevel ∧ ∃ left more, parseLevel (level + 1) depth tokens = .ok (left, more) ∧
      parseChain level depth left more = .ok (e, rest)) ∨
    (¬level < unaryLevel ∧ parseUnary depth tokens = .ok (e, rest)) := by
  rw [parseLevel] at h
  split at h
  · rename_i hlevel
    split at h
    · cases h
    · rename_i left more hleft
      exact .inl ⟨hlevel, left, more, hleft, h⟩
  · rename_i hlevel
    exact .inr ⟨hlevel, h⟩

theorem parseChain_cases (h : parseChain level depth left tokens = .ok (e, rest)) :
    (operatorAt? level tokens = none ∧ left = e ∧ tokens = rest) ∨
    ∃ op operand right more, operatorAt? level tokens = some (op, operand) ∧ depth < maxDepth ∧
      parseLevel (level + 1) (depth + 1) operand = .ok (right, more) ∧
      parseChain level (depth + 1) (.binary op left right) more = .ok (e, rest) := by
  rw [parseChain] at h
  split at h
  · rename_i hop
    cases h
    exact .inl ⟨hop, rfl, rfl⟩
  · rename_i op operand hop
    split at h
    · rename_i hdepth
      split at h
      · cases h
      · rename_i right more hright
        exact .inr ⟨op, operand, right, more, hop, hdepth, hright, h⟩
    · cases h

theorem parseUnary_cases (h : parseUnary depth tokens = .ok (e, rest)) :
    (∃ s op more operand, tokens = .symbol s :: more ∧ s.unaryOp? = some op ∧ depth < maxDepth ∧
      parseUnary (depth + 1) more = .ok (operand, rest) ∧ e = .unary op operand) ∨
    parsePrimary depth tokens = .ok (e, rest) := by
  unfold parseUnary at h
  split at h
  · rename_i s more
    split at h
    · rename_i op hop
      split at h
      · rename_i hdepth
        split at h
        · cases h
        · rename_i operand after hoperand
          cases h
          exact .inl ⟨s, op, more, operand, rfl, hop, hdepth, hoperand, rfl⟩
      · cases h
    · exact .inr h
  · exact .inr h

theorem parsePrimary_cases (h : parsePrimary depth tokens = .ok (e, rest)) :
    (∃ token v, tokens = token :: rest ∧ token.literal? = some v ∧ e = .literal v) ∨
    ∃ more, tokens = .symbol .openParen :: more ∧ depth < maxDepth ∧
      parseLevel 0 (depth + 1) more = .ok (e, .symbol .closeParen :: rest) := by
  unfold parsePrimary at h
  split at h
  · cases h
    exact .inl ⟨_, _, rfl, rfl, rfl⟩
  · cases h
    exact .inl ⟨_, _, rfl, rfl, rfl⟩
  · split at h
    · rename_i v hv
      cases h
      exact .inl ⟨_, v, rfl, hv, rfl⟩
    · cases h
  · rename_i more
    split at h
    · rename_i hdepth
      split at h
      · cases h
      · rename_i inner after hinner
        obtain ⟨rfl, rfl⟩ := closeGroup_cases h
        exact .inr ⟨more, rfl, hdepth, hinner⟩
    · cases h
  · cases h
  · cases h

/-! ## The parsers keep to the rules -/

mutual

theorem reads_of_parseLevel {level depth : Nat} {tokens rest : List Token} {e : Expr}
    (h : parseLevel level depth tokens = .ok (e, rest)) :
    Reads (.chain level) depth tokens e rest := by
  rcases parseLevel_cases h with ⟨hlevel, left, more, hleft, htail⟩ | ⟨hlevel, h⟩
  · exact .chain hlevel (reads_of_parseLevel hleft) (reads_of_parseChain htail)
  · exact .tightest hlevel (reads_of_parseUnary h)
termination_by (maxDepth - depth, 2 + (unaryLevel - level))

theorem reads_of_parseChain {level depth : Nat} {tokens rest : List Token} {left e : Expr}
    (h : parseChain level depth left tokens = .ok (e, rest)) :
    Reads (.tail level left) depth tokens e rest := by
  rcases parseChain_cases h with
    ⟨hop, rfl, rfl⟩ | ⟨op, operand, right, more, hop, hdepth, hright, htail⟩
  · exact .tailEnd hop
  · exact .operator hop hdepth (reads_of_parseLevel hright) (reads_of_parseChain htail)
termination_by (maxDepth - depth, 0)

theorem reads_of_parseUnary {depth : Nat} {tokens rest : List Token} {e : Expr}
    (h : parseUnary depth tokens = .ok (e, rest)) : Reads .unary depth tokens e rest := by
  rcases parseUnary_cases h with ⟨s, op, more, operand, rfl, hop, hdepth, hoperand, rfl⟩ | h
  · exact .unary hop hdepth (reads_of_parseUnary hoperand)
  · exact .primary (reads_of_parsePrimary h)
termination_by (maxDepth - depth, 1)

theorem reads_of_parsePrimary {depth : Nat} {tokens rest : List Token} {e : Expr}
    (h : parsePrimary depth tokens = .ok (e, rest)) : Reads .primary depth tokens e rest := by
  rcases parsePrimary_cases h with ⟨token, v, rfl, hv, rfl⟩ | ⟨more, rfl, hdepth, hinner⟩
  · exact .literal hv
  · exact .group hdepth (reads_of_parseLevel hinner)
termination_by (maxDepth - depth, 0)

end

/-! ## The rules keep to the parsers -/

/-- What begins with an operator before an operand is no literal and no group. -/
theorem parseUnary_eq_of_parsePrimary (h : parsePrimary depth tokens = .ok (e, rest)) :
    parseUnary depth tokens = .ok (e, rest) := by
  rcases parsePrimary_cases h with ⟨token, v, rfl, hv, rfl⟩ | ⟨more, rfl, hdepth, hinner⟩
  · cases token with
    | symbol s => cases hv
    | _ => rw [parseUnary, h]; simp
  · rw [parseUnary]
    exact h

theorem parse_of_reads {phrase : Phrase} (h : Reads phrase depth tokens e rest) :
    phrase.parse depth tokens = .ok (e, rest) := by
  induction h with
  | chain hlevel _ _ ihLeft ihTail =>
      simp only [Phrase.parse] at ihLeft ihTail ⊢
      rw [parseLevel, if_pos hlevel, ihLeft]
      exact ihTail
  | tightest hlevel _ ih =>
      simp only [Phrase.parse] at ih ⊢
      rw [parseLevel, if_neg hlevel, ih]
  | tailEnd hop =>
      simp only [Phrase.parse]
      rw [parseChain, hop]
  | operator hop hdepth _ _ ihRight ihTail =>
      simp only [Phrase.parse] at ihRight ihTail ⊢
      rw [parseChain, hop]
      simp only [if_pos hdepth, ihRight]
      exact ihTail
  | unary hop hdepth _ ih =>
      simp only [Phrase.parse] at ih ⊢
      simp only [parseUnary, hop, if_pos hdepth, ih]
  | primary _ ih => exact parseUnary_eq_of_parsePrimary ih
  | @literal depth token rest v hv =>
      simp only [Phrase.parse]
      cases token with
      | symbol s => cases hv
      | ident name =>
          change keyword? name = some v at hv
          simp only [parsePrimary, hv]
      | _ =>
          cases hv
          rw [parsePrimary]
  | group hdepth _ ih =>
      simp only [Phrase.parse] at ih ⊢
      simp only [parsePrimary, if_pos hdepth, ih, closeGroup]

/-- **The parsers and the rules agree.**  A parser comes to a tree exactly where the rules read
it. -/
theorem Phrase.parse_eq_ok_iff {phrase : Phrase} :
    phrase.parse depth tokens = .ok (e, rest) ↔ Reads phrase depth tokens e rest := by
  constructor
  · intro h
    cases phrase with
    | chain level => exact reads_of_parseLevel h
    | tail level left => exact reads_of_parseChain h
    | unary => exact reads_of_parseUnary h
    | primary => exact reads_of_parsePrimary h
  · exact parse_of_reads

theorem parseTokens_eq_ok_iff : parseTokens tokens = .ok e ↔ Reads (.chain 0) 0 tokens e [] := by
  rw [← Phrase.parse_eq_ok_iff, Phrase.parse, parseTokens]
  rcases parseLevel 0 0 tokens with fault | ⟨e', _ | ⟨token, more⟩⟩ <;> simp

theorem parseExpr_eq_ok_iff {source : String} :
    parseExpr source = .ok e ↔
      ∃ tokens, tokenize source = .ok tokens ∧ Reads (.chain 0) 0 tokens e [] := by
  rw [parseExpr]
  rcases tokenize source with fault | tokens
  · simp
  · simp [parseTokens_eq_ok_iff]

end Workflow
