import Mathlib
import Workflow.Proofs.Reading

/-!
# How high an accepted tree can be

The parsers count what is open when a token is read.  The operators of a chain are open while its
later operands are read, but not while the first one is, which comes to lie below all of them: the
count says nothing about a path that turns left at an operator.

* `Expr.HasPath` are the paths from the root of a tree to its literals, and `Expr.height_le_iff`
  says that the height is the length of the longest.
* `Reads.countP_le` is what the count bounds on every path: the operators at which it does not turn
  left.
* `Reads.height_le` bounds the height of what is read at a depth, and `exists_parseTokens_height_eq`
  says that the bound is attained.
* `height_of_parseExpr` says which accepted trees are at most `maxDepth` high, and
  `maxDepth_lt_height_of_not_add` that not all of them are.
-/

namespace Workflow

/-! ## Paths -/

/-- The way that a path takes at an operator. -/
inductive Turn where
  | only
  | left
  | right
deriving DecidableEq

/-- The paths from the root of a tree to its literals. -/
inductive Expr.HasPath : Expr → List Turn → Prop
  | literal {v : Value} : (Expr.literal v).HasPath []
  | only {op : UnaryOp} {operand : Expr} {path : List Turn} :
      operand.HasPath path → (Expr.unary op operand).HasPath (.only :: path)
  | left {op : BinaryOp} {l r : Expr} {path : List Turn} :
      l.HasPath path → (Expr.binary op l r).HasPath (.left :: path)
  | right {op : BinaryOp} {l r : Expr} {path : List Turn} :
      r.HasPath path → (Expr.binary op l r).HasPath (.right :: path)

theorem Expr.HasPath.length_le_height {e : Expr} {path : List Turn} (h : e.HasPath path) :
    path.length ≤ e.height := by
  induction h with
  | literal => exact Nat.zero_le _
  | only _ ih =>
      simp only [List.length_cons, height]
      omega
  | left _ ih | right _ ih =>
      simp only [List.length_cons, height]
      omega

theorem Expr.exists_hasPath_length_eq_height (e : Expr) :
    ∃ path, e.HasPath path ∧ path.length = e.height := by
  induction e with
  | literal v => exact ⟨[], .literal, rfl⟩
  | unary op operand ih =>
      obtain ⟨path, hpath, hlength⟩ := ih
      exact ⟨.only :: path, .only hpath, by rw [List.length_cons, hlength, height]⟩
  | binary op l r ihl ihr =>
      rcases Nat.le_total r.height l.height with hle | hle
      · obtain ⟨path, hpath, hlength⟩ := ihl
        exact ⟨.left :: path, .left hpath, by
          rw [List.length_cons, hlength, height, Nat.max_eq_left hle]⟩
      · obtain ⟨path, hpath, hlength⟩ := ihr
        exact ⟨.right :: path, .right hpath, by
          rw [List.length_cons, hlength, height, Nat.max_eq_right hle]⟩

/-- The height is the length of the longest path. -/
theorem Expr.height_le_iff {e : Expr} {n : Nat} :
    e.height ≤ n ↔ ∀ path, e.HasPath path → path.length ≤ n := by
  constructor
  · intro h path hpath
    exact hpath.length_le_height.trans h
  · intro h
    obtain ⟨path, hpath, hlength⟩ := e.exists_hasPath_length_eq_height
    rw [← hlength]
    exact h path hpath

/-! ## What the count bounds -/

/-- The operand that has been read when a phrase begins. -/
def Phrase.before? : Phrase → Option Expr
  | .tail _ left => some left
  | _ => none

/-- The count bounds the operators at which a path does not turn left, because they are open while
what lies on the other side is read.  The operand that is there already may have been read with more
depth to spare, which `limit` stands for. -/
theorem Reads.countP_le {phrase : Phrase} {depth : Nat} {tokens rest : List Token} {e : Expr}
    (h : Reads phrase depth tokens e rest) :
    ∀ limit, maxDepth - depth ≤ limit →
      (∀ left ∈ phrase.before?, ∀ path, left.HasPath path → path.countP (· ≠ .left) ≤ limit) →
      ∀ path, e.HasPath path → path.countP (· ≠ .left) ≤ limit := by
  induction h with
  | chain _ _ _ ihLeft ihTail =>
      intro limit hlimit _
      refine ihTail limit hlimit ?_
      rintro _ ⟨⟩
      exact ihLeft limit hlimit (by rintro _ ⟨⟩)
  | tightest _ _ ih => exact ih
  | tailEnd _ =>
      intro limit _ hbefore
      exact hbefore _ rfl
  | operator _ hdepth _ _ ihRight ihTail =>
      intro limit hlimit hbefore
      refine ihTail limit (by omega) ?_
      rintro _ ⟨⟩ path hpath
      cases hpath with
      | left hpath =>
          rw [List.countP_cons_of_neg (by decide)]
          exact hbefore _ rfl _ hpath
      | right hpath =>
          -- the operator is open while its right operand is read, which has one less to spare
          rw [List.countP_cons_of_pos (by decide)]
          have := ihRight (limit - 1) (by omega) (by rintro _ ⟨⟩) _ hpath
          omega
  | unary _ hdepth _ ih =>
      intro limit hlimit _ path hpath
      cases hpath with
      | only hpath =>
          rw [List.countP_cons_of_pos (by decide)]
          have := ih (limit - 1) (by omega) (by rintro _ ⟨⟩) _ hpath
          omega
  | primary _ ih => exact ih
  | literal _ =>
      intro limit _ _ path hpath
      cases hpath
      exact Nat.zero_le _
  | group hdepth _ ih =>
      intro limit hlimit _
      exact ih limit (by omega) (by rintro _ ⟨⟩)

/-- A path that never turns left is counted in full. -/
theorem countP_eq_length_of_left_not_mem {path : List Turn} (h : .left ∉ path) :
    path.countP (· ≠ .left) = path.length := by
  rw [List.countP_eq_length]
  intro turn hturn
  simpa using ne_of_mem_of_not_mem hturn h

/-- Where the count is bounded, only the paths that turn left somewhere can be too long. -/
theorem Expr.height_le_iff_of_countP_le {e : Expr} {n : Nat}
    (hcount : ∀ path, e.HasPath path → path.countP (· ≠ .left) ≤ n) :
    e.height ≤ n ↔ ∀ path, e.HasPath path → .left ∈ path → path.length ≤ n := by
  rw [height_le_iff]
  constructor
  · intro h path hpath _
    exact h path hpath
  · intro h path hpath
    by_cases hmem : .left ∈ path
    · exact h path hpath hmem
    · rw [← countP_eq_length_of_left_not_mem hmem]
      exact hcount path hpath

/-! ## A bound on the height -/

/-- How high an operand can be that is read with so much depth to spare: a group takes one from it
and allows a chain of each level. -/
def operandLimit (spare : Nat) : Nat := unaryLevel * spare.choose 2 + min spare 1

theorem operandLimit_succ (spare : Nat) :
    operandLimit (spare + 1) = unaryLevel * spare + unaryLevel * spare.choose 2 + 1 := by
  have hchoose : (spare + 1).choose 2 = spare + spare.choose 2 := by
    rw [Nat.choose_succ_succ' spare 1, Nat.choose_one_right]
  rw [operandLimit, hchoose, Nat.mul_add]
  omega

theorem operandLimit_lt_succ (spare : Nat) : operandLimit spare < operandLimit (spare + 1) := by
  rw [operandLimit_succ, operandLimit, unaryLevel]
  omega

theorem operandLimit_succ_of_pos {spare : Nat} (h : 0 < spare) :
    operandLimit (spare + 1) = unaryLevel * spare + operandLimit spare := by
  rw [operandLimit_succ, operandLimit]
  omega

theorem group_le_operandLimit_succ (spare : Nat) :
    unaryLevel * spare + operandLimit spare ≤ operandLimit (spare + 1) := by
  rw [operandLimit_succ, operandLimit]
  omega

theorem operandLimit_eq_of_pos {spare : Nat} (h : 0 < spare) :
    operandLimit spare = unaryLevel * spare.choose 2 + 1 := by
  rw [operandLimit, Nat.min_eq_right h]

/-- How high the tree of a phrase can be that is read with so much depth to spare. -/
def Phrase.heightLimit : Phrase → Nat → Nat
  | .chain level, spare => (unaryLevel - level) * spare + operandLimit spare
  | .tail level left, spare =>
      max left.height ((unaryLevel - (level + 1)) * spare + operandLimit spare) + spare
  | .unary, spare | .primary, spare => operandLimit spare

/-- What is opened takes one from the depth to spare. -/
theorem spare_eq_succ {depth : Nat} (h : depth < maxDepth) :
    maxDepth - depth = maxDepth - (depth + 1) + 1 := by
  omega

/-- The height of what is read is bounded by the depth to spare. -/
theorem Reads.height_le {phrase : Phrase} {depth : Nat} {tokens rest : List Token} {e : Expr}
    (h : Reads phrase depth tokens e rest) :
    e.height ≤ phrase.heightLimit (maxDepth - depth) := by
  induction h with
  | @chain level depth _ _ _ left e hlevel _ _ ihLeft ihTail =>
      -- the whole chain lies above its first operand, which was read with the same depth to spare
      simp only [Phrase.heightLimit] at ihLeft ihTail ⊢
      have hstep : unaryLevel - level = unaryLevel - (level + 1) + 1 := by omega
      rw [hstep, Nat.succ_mul]
      omega
  | tightest _ _ ih =>
      simp only [Phrase.heightLimit] at ih ⊢
      omega
  | tailEnd _ =>
      simp only [Phrase.heightLimit]
      omega
  | @operator _ depth _ _ _ _ _ _ _ _ _ hdepth _ _ ihRight ihTail =>
      simp only [Phrase.heightLimit, Expr.height] at ihRight ihTail ⊢
      have hlt := operandLimit_lt_succ (maxDepth - (depth + 1))
      rw [spare_eq_succ hdepth, Nat.mul_succ]
      omega
  | @unary depth _ _ _ _ _ _ hdepth _ ih =>
      simp only [Phrase.heightLimit, Expr.height] at ih ⊢
      have hlt := operandLimit_lt_succ (maxDepth - (depth + 1))
      rw [spare_eq_succ hdepth]
      omega
  | primary _ ih => exact ih
  | literal _ => exact Nat.zero_le _
  | @group depth _ _ _ hdepth _ ih =>
      simp only [Phrase.heightLimit, Nat.sub_zero] at ih ⊢
      rw [spare_eq_succ hdepth]
      exact ih.trans (group_le_operandLimit_succ _)

/-! ## The bound is attained -/

/-- No operator of the level, or of a tighter one, stands at the front. -/
def Ends (level : Nat) (tokens : List Token) : Prop :=
  ∀ tighter, level ≤ tighter → operatorAt? tighter tokens = none

theorem ends_of_forall_ne {level : Nat} {tokens : List Token}
    (h : ∀ (op : BinaryOp) (rest : List Token), level ≤ op.level →
      tokens ≠ .symbol op.toSymbol :: rest) : Ends level tokens := by
  intro tighter hle
  rw [Option.eq_none_iff_forall_ne_some]
  rintro ⟨op, rest⟩ hop
  obtain ⟨rfl, htokens⟩ := operatorAt?_eq_some_iff.1 hop
  exact h op rest hle htokens

theorem ends_nil (level : Nat) : Ends level [] := fun _ _ => rfl

theorem ends_closeParen (level : Nat) (rest : List Token) :
    Ends level (.symbol .closeParen :: rest) :=
  ends_of_forall_ne fun op _ _ h => by cases op <;> cases h

theorem Ends.succ {level : Nat} {tokens : List Token} (h : Ends level tokens) :
    Ends (level + 1) tokens :=
  fun tighter hle => h tighter (by omega)

theorem ends_symbol (op : BinaryOp) (rest : List Token) :
    Ends (op.level + 1) (.symbol op.toSymbol :: rest) := by
  refine ends_of_forall_ne fun other more hlevel h => ?_
  rw [List.cons.injEq, Token.symbol.injEq, BinaryOp.toSymbol_inj] at h
  rw [← h.1] at hlevel
  omega

/-- No operator on two operands binds as tightly as one before an operand. -/
theorem ends_unaryLevel (tokens : List Token) : Ends unaryLevel tokens :=
  ends_of_forall_ne fun op _ hlevel _ => absurd op.level_lt_unaryLevel (Nat.not_lt.2 hlevel)

/-- Every level of chains has an operator. -/
theorem exists_level_eq : ∀ level < unaryLevel, ∃ op : BinaryOp, op.level = level := by
  intro level hlevel
  match level with
  | 0 => exact ⟨.sequence, rfl⟩
  | 1 => exact ⟨.or, rfl⟩
  | 2 => exact ⟨.and, rfl⟩
  | 3 => exact ⟨.equal, rfl⟩
  | 4 => exact ⟨.less, rfl⟩
  | 5 => exact ⟨.add, rfl⟩
  | 6 => exact ⟨.multiply, rfl⟩
  | _ + 7 =>
      rw [unaryLevel] at hlevel
      omega

/-- The literal with which the tallest trees are filled up. -/
def filler : Expr := .literal (.bool true)

theorem reads_filler (depth : Nat) : ∀ n level rest, unaryLevel - level = n → Ends level rest →
    Reads (.chain level) depth (.ident "true" :: rest) filler rest := by
  intro n
  induction n with
  | zero =>
      intro level rest hn _
      exact .tightest (by omega) (.primary (.literal rfl))
  | succ n ih =>
      intro level rest hn hends
      have hlevel : level < unaryLevel := by omega
      have hfirst := ih (level + 1) rest (by omega) hends.succ
      exact .chain hlevel hfirst (.tailEnd (hends level le_rfl))

/-- A chain can be gone on with as long as there is depth to spare, and grows by one each time. -/
theorem exists_reads_tail {level : Nat} (hlevel : level < unaryLevel) :
    ∀ n depth left, depth + n ≤ maxDepth →
      ∃ tokens e, (∀ rest, Ends level rest →
        Ends (level + 1) (tokens ++ rest) ∧
          Reads (.tail level left) depth (tokens ++ rest) e rest) ∧
        e.height = left.height + n := by
  obtain ⟨op, rfl⟩ := exists_level_eq level hlevel
  intro n
  induction n with
  | zero =>
      intro depth left _
      exact ⟨[], left, fun rest hends => ⟨hends.succ, .tailEnd (hends _ le_rfl)⟩, rfl⟩
  | succ n ih =>
      intro depth left hdepth
      obtain ⟨tokens, e, hreads, hheight⟩ := ih (depth + 1) (.binary op left filler) (by omega)
      refine ⟨.symbol op.toSymbol :: .ident "true" :: tokens, e, ?_, ?_⟩
      · intro rest hends
        obtain ⟨hmore, htail⟩ := hreads rest hends
        exact ⟨ends_symbol op _, .operator (operatorAt?_symbol op _) (by omega)
          (reads_filler _ _ _ _ rfl hmore) htail⟩
      · rw [hheight, Expr.height, filler, Expr.height, Nat.max_zero]
        omega

/-- From an operand of the greatest height come chains of the greatest height: each level goes on
for as long as there is depth to spare. -/
theorem exists_reads_chain {depth : Nat} {operand : List Token} {e₀ : Expr}
    (hoperand : ∀ rest, Reads .unary depth (operand ++ rest) e₀ rest) (hdepth : depth ≤ maxDepth) :
    ∀ n level, unaryLevel - level = n →
      ∃ tokens e, (∀ rest, Ends level rest → Reads (.chain level) depth (tokens ++ rest) e rest) ∧
        e.height = n * (maxDepth - depth) + e₀.height := by
  intro n
  induction n with
  | zero =>
      intro level hn
      exact ⟨operand, e₀, fun rest _ => .tightest (by omega) (hoperand rest), by omega⟩
  | succ n ih =>
      intro level hn
      have hlevel : level < unaryLevel := by omega
      obtain ⟨first, left, hfirst, hleft⟩ := ih (level + 1) (by omega)
      obtain ⟨more, e, hmore, he⟩ :=
        exists_reads_tail hlevel (maxDepth - depth) depth left (by omega)
      refine ⟨first ++ more, e, fun rest hends => ?_, ?_⟩
      · obtain ⟨hnext, htail⟩ := hmore rest hends
        rw [List.append_assoc]
        exact .chain hlevel (hfirst _ hnext) htail
      · rw [he, hleft, Nat.succ_mul]
        omega

/-- At every depth some operand is as high as the bound allows: with more than one to spare, a group
of the highest chains one deeper. -/
theorem exists_reads_unary : ∀ spare depth, maxDepth - depth = spare →
    ∃ tokens e, (∀ rest, Reads .unary depth (tokens ++ rest) e rest) ∧
      e.height = operandLimit spare := by
  intro spare
  induction spare with
  | zero =>
      intro depth _
      exact ⟨[.ident "true"], filler, fun rest => .primary (.literal rfl), rfl⟩
  | succ spare ih =>
      intro depth hspare
      have hdepth : depth < maxDepth := by omega
      obtain ⟨tokens, e, hreads, he⟩ := ih (depth + 1) (by omega)
      cases spare with
      | zero =>
          exact ⟨[.symbol .bang, .ident "true"], .unary .not filler,
            fun rest => .unary rfl hdepth (.primary (.literal rfl)), rfl⟩
      | succ spare =>
          obtain ⟨inner, e', hinner, he'⟩ := exists_reads_chain hreads hdepth unaryLevel 0 rfl
          refine ⟨.symbol .openParen :: (inner ++ [.symbol .closeParen]), e', fun rest => ?_, ?_⟩
          · rw [List.cons_append, List.append_assoc]
            exact .primary (.group hdepth (hinner _ (ends_closeParen 0 rest)))
          · have hless : maxDepth - (depth + 1) = spare + 1 := by omega
            rw [he', he, hless, operandLimit_succ_of_pos (Nat.succ_pos spare)]

/-- **The bound is attained.**  Some list of tokens has a tree of the greatest height. -/
theorem exists_parseTokens_height_eq :
    ∃ tokens e, parseTokens tokens = .ok e ∧
      e.height = unaryLevel * (maxDepth + 1).choose 2 + 1 := by
  obtain ⟨operand, e₀, hoperand, he₀⟩ := exists_reads_unary maxDepth 0 rfl
  obtain ⟨tokens, e, hreads, he⟩ := exists_reads_chain hoperand (Nat.zero_le _) unaryLevel 0 rfl
  refine ⟨tokens, e, parseTokens_eq_ok_iff.2 ?_, ?_⟩
  · simpa using hreads [] (ends_nil 0)
  · rw [he, he₀, Nat.sub_zero, ← operandLimit_succ_of_pos (by decide),
      operandLimit_eq_of_pos (Nat.succ_pos maxDepth)]

/-! ## Accepted texts -/

/-- **Which accepted trees keep to the depth.**  The tree of an accepted text is at most `maxDepth`
high exactly when no path that turns left somewhere is longer.  On every path there are at most
`maxDepth` operators at which it does not turn left, and with the others the height comes to no more
than 14561. -/
theorem height_of_parseExpr {source : String} {e : Expr} (h : parseExpr source = .ok e) :
    (e.height ≤ maxDepth ↔
      ∀ path, e.HasPath path → .left ∈ path → path.length ≤ maxDepth) ∧
    (∀ path, e.HasPath path → path.countP (· ≠ .left) ≤ maxDepth) ∧
    e.height ≤ unaryLevel * (maxDepth + 1).choose 2 + 1 := by
  obtain ⟨tokens, -, hreads⟩ := parseExpr_eq_ok_iff.1 h
  have hcount : ∀ path, e.HasPath path → path.countP (· ≠ .left) ≤ maxDepth :=
    hreads.countP_le maxDepth (Nat.sub_le _ _) (by rintro _ ⟨⟩)
  refine ⟨Expr.height_le_iff_of_countP_le hcount, hcount, ?_⟩
  calc e.height
      ≤ unaryLevel * maxDepth + operandLimit maxDepth := hreads.height_le
    _ ≤ operandLimit (maxDepth + 1) := group_le_operandLimit_succ maxDepth
    _ = unaryLevel * (maxDepth + 1).choose 2 + 1 := operandLimit_eq_of_pos (Nat.succ_pos _)

theorem height_of_parseExpr_not_true_and_true :
    ∃ e, parseExpr "!true && true" = .ok e ∧
      (e.height ≤ maxDepth ↔
        ∀ path, e.HasPath path → .left ∈ path → path.length ≤ maxDepth) ∧
      (∀ path, e.HasPath path → path.countP (· ≠ .left) ≤ maxDepth) ∧
      e.height ≤ unaryLevel * (maxDepth + 1).choose 2 + 1 := by
  have hparse : parseExpr "!true && true" =
      .ok (.binary .and (.unary .not (.literal (.bool true))) (.literal (.bool true))) := by
    cbv
  exact ⟨_, hparse, height_of_parseExpr hparse⟩

/-- Before the first operand of a chain there are as many operators as the depth allows, and the
chain still counts from nothing. -/
theorem maxDepth_lt_height_of_not_add :
    ∃ e, parseExpr (String.ofList (List.replicate 64 '!') ++ "true + true") = .ok e ∧
      ¬e.height ≤ maxDepth := by
  have hheight : (parseExpr (String.ofList (List.replicate 64 '!') ++ "true + true")).map
      Expr.height = .ok 65 := by
    cbv
  rcases hparse : parseExpr (String.ofList (List.replicate 64 '!') ++ "true + true") with fault | e
  · rw [hparse] at hheight
    cases hheight
  · rw [hparse] at hheight
    have he : e.height = 65 := Except.ok.inj hheight
    exact ⟨e, rfl, by rw [he]; decide⟩

end Workflow
