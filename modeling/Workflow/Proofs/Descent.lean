import Workflow.Proofs.Grammar

/-!
# Descent

The parsers hand down how much is open, so that nothing has to be taken back.  The same reading can
be done with one position and one counter that all parsers share: the counter goes up with every
parenthesis and every operator, and has to come down again where what was opened is complete, by as
many as were read of a chain.

* `Descent` is a moment of such a reading, with all that has been begun on a stack, and
  `Descent.next` is the moment after it.
* `Descent.owed` is by how much the counter has yet to come down.  `Descent.Counts` says that the
  counter stands at what is owed: `Counts.next` for one step, `Counts.reaches` for all.
* `Descent.Advances` is how the position moves on: `advances_next` and `advances_of_reaches`.
* `Descent.answers_parseAt` says that a descent comes to what the parser gives, whatever else has
  been begun.
* `parseAt_descent` is the law of descents.
-/

namespace Workflow

/-- Reads the front of a token list at a level: a chain, operators before an operand or, at the
tightest level, a literal or a group. -/
def parseAt (level depth : Nat) (tokens : List Token) : Parsed :=
  if level ≤ unaryLevel then parseLevel level depth tokens else parsePrimary depth tokens

/-- What a parser waits for while another one reads. -/
inductive Frame where
  /-- The first operand of a chain. -/
  | first (level : Nat)
  /-- The operand to the right of an operator, with which `read` operators of the chain are read. -/
  | right (level : Nat) (op : BinaryOp) (left : Expr) (read : Nat)
  /-- The operand of an operator before it. -/
  | unary (op : UnaryOp)
  /-- What stands in parentheses. -/
  | group

/-- What is to be done. -/
inductive Control where
  /-- To read what a level asks for. -/
  | call (level : Nat)
  /-- To go on with a chain of which `read` operators have been read. -/
  | chain (level : Nat) (left : Expr) (read : Nat)
  /-- To give back a tree. -/
  | tree (e : Expr)
  /-- To give back a fault. -/
  | fault (fault : ExprError)
  /-- Nothing, because the counter was to come down below zero. -/
  | underflow

/-- A moment of reading. -/
structure Descent where
  control : Control
  /-- How many tokens have been taken. -/
  pos : Nat
  /-- The counter of what is open. -/
  depth : Nat
  /-- What has been begun, the latest first. -/
  stack : List Frame

/-- The operator before an operand at the front of a token list. -/
def unaryAt? : List Token → Option UnaryOp
  | .symbol s :: _ => s.unaryOp?
  | _ => none

/-- What becomes of a token where a literal is asked for. -/
def Token.literalControl : Token → Control
  | .number x => .tree (.literal (.number x))
  | .string s => .tree (.literal (.string s))
  | .ident name =>
    match keyword? name with
    | some v => .tree (.literal v)
    | none => .fault (.unknownIdentifier name)
  | token => .fault (.unexpectedToken token .operand)

/-- What is to be done when something was read or could not be read. -/
def Control.ofParsed : Parsed → Control
  | .ok (e, _) => .tree e
  | .error reason => .fault reason

namespace Descent

/-- Takes the token at the position, if there is one. -/
def advance (tokens : List Token) (d : Descent) : Descent :=
  { d with pos := if d.pos < tokens.length then d.pos + 1 else d.pos }

/-- Raises the counter for something that is opened by a token, and refuses it if too much is open
then. -/
def enter (d : Descent) (frame : Frame) (control : Control) : Descent where
  control := if d.depth + 1 ≤ maxDepth then control else .fault .tooDeep
  pos := d.pos + 1
  depth := d.depth + 1
  stack := frame :: d.stack

/-- Brings the counter down. -/
def lower (d : Descent) (n : Nat) : Descent :=
  if n ≤ d.depth then { d with depth := d.depth - n } else { d with control := .underflow }

/-- Begins with what a level asks for. -/
def call (tokens : List Token) (d : Descent) (level : Nat) : Descent :=
  if level < unaryLevel then
    { d with control := .call (level + 1), stack := .first level :: d.stack }
  else if level = unaryLevel then
    match unaryAt? (tokens.drop d.pos) with
    | some op => d.enter (.unary op) (.call unaryLevel)
    | none => { d with control := .call literalLevel }
  else
    match tokens.drop d.pos with
    | .symbol .openParen :: _ => d.enter .group (.call 0)
    | token :: _ => { d with control := token.literalControl, pos := d.pos + 1 }
    | [] => { d with control := .fault (.unexpectedEnd .operand) }

/-- Looks for the next operator of a chain. -/
def goOn (tokens : List Token) (d : Descent) (level : Nat) (left : Expr) (read : Nat) : Descent :=
  match operatorAt? level (tokens.drop d.pos) with
  | some (op, _) => d.enter (.right level op left (read + 1)) (.call (level + 1))
  | none => { d with control := .tree left }.lower read

/-- Gives a tree to what was waiting for it. -/
def resume (tokens : List Token) (d : Descent) (e : Expr) : Frame → Descent
  | .first level => { d with control := .chain level e 0 }
  | .right level op left read => { d with control := .chain level (.binary op left e) read }
  | .unary op => { d with control := .tree (.unary op e) }.lower 1
  | .group =>
    ({ d with control := .ofParsed (closeGroup e (tokens.drop d.pos)) }.advance tokens).lower 1

/-- The moment after this one.  A fault takes away one after the other what was begun, and leaves
the counter as it is. -/
def next (tokens : List Token) (d : Descent) : Option Descent :=
  match d.control, d.stack with
  | .call level, _ => some (d.call tokens level)
  | .chain level left read, _ => some (d.goOn tokens level left read)
  | .tree e, frame :: stack => some ({ d with stack }.resume tokens e frame)
  | .fault _, _ :: stack => some { d with stack }
  | .tree _, [] => none
  | .fault _, [] => none
  | .underflow, _ => none

/-- The beginning of reading what a level asks for. -/
def start (level pos depth : Nat) : Descent :=
  ⟨.call level, pos, depth, []⟩

end Descent

/-! ## What the counter owes -/

/-- By how much the counter has to come down for something that was begun. -/
def Frame.owed : Frame → Nat
  | .first _ => 0
  | .right _ _ _ read => read
  | .unary _ => 1
  | .group => 1

/-- By how much the counter has to come down for what is to be done. -/
def Control.owed : Control → Nat
  | .chain _ _ read => read
  | _ => 0

/-- Whether what is to be done comes after something was read. -/
def Control.HasRead : Control → Prop
  | .chain _ _ _ => True
  | .tree _ => True
  | _ => False

/-- What is to be done with nothing owed for it. -/
inductive Control.IsFree : Control → Prop
  | call (level : Nat) : IsFree (.call level)
  | tree (e : Expr) : IsFree (.tree e)
  | fault (fault : ExprError) : IsFree (.fault fault)

theorem isFree_literalControl (token : Token) : token.literalControl.IsFree := by
  cases token with
  | ident name =>
      rw [Token.literalControl]
      cases keyword? name with
      | none => exact .fault _
      | some v => exact .tree _
  | number x => exact .tree _
  | string s => exact .tree _
  | symbol s => exact .fault _

theorem isFree_ofParsed (parsed : Parsed) : (Control.ofParsed parsed).IsFree := by
  cases parsed with
  | error fault => exact .fault fault
  | ok read => exact .tree read.1

/-- Whether something that was begun is an operator before an operand or a parenthesis. -/
def Frame.isOpen : Frame → Bool
  | .unary _ => true
  | .group => true
  | _ => false

namespace Descent

/-- By how much the counter has yet to come down. -/
def owed (d : Descent) : Nat :=
  d.control.owed + (d.stack.map Frame.owed).sum

/-- How many operators before an operand and parentheses are being read. -/
def opened (d : Descent) : Nat :=
  d.stack.countP Frame.isOpen

theorem countP_isOpen_le (stack : List Frame) :
    stack.countP Frame.isOpen ≤ (stack.map Frame.owed).sum := by
  induction stack with
  | nil => exact Nat.le_refl _
  | cons frame stack ih =>
      rw [List.countP_cons, List.map_cons, List.sum_cons]
      cases frame <;> simp [Frame.isOpen, Frame.owed] <;> omega

theorem opened_le_owed (d : Descent) : d.opened ≤ d.owed :=
  (countP_isOpen_le d.stack).trans (Nat.le_add_left _ _)

/-! ## What holds at every moment -/

/-- How the counter of a descent that began at `depth` stands: at what it owes, unless the descent
is on its way back with a fault. -/
def Counts (depth : Nat) (d : Descent) : Prop :=
  match d.control with
  | .fault _ => depth + d.opened ≤ d.depth ∧ d.depth ≤ maxDepth + 1
  | .underflow => False
  | _ => d.depth = depth + d.owed ∧ d.depth ≤ maxDepth

variable {tokens : List Token} {pos depth : Nat} {d d' : Descent} {stack : List Frame}

/-- A moment at which what is to be done owes nothing. -/
theorem counts_of_isFree {control : Control} {pos count : Nat} (hcontrol : control.IsFree)
    (hcount : count = depth + (stack.map Frame.owed).sum) (hle : count ≤ maxDepth) :
    Counts depth ⟨control, pos, count, stack⟩ := by
  cases hcontrol with
  | call level => exact ⟨by simpa [owed, Control.owed] using hcount, hle⟩
  | tree e => exact ⟨by simpa [owed, Control.owed] using hcount, hle⟩
  | fault fault =>
      have hopened := countP_isOpen_le stack
      refine ⟨?_, Nat.le_succ_of_le hle⟩
      change depth + stack.countP Frame.isOpen ≤ count
      omega

theorem counts_enter {frame : Frame} (level : Nat)
    (hcount : d.depth + 1 = depth + (frame.owed + (d.stack.map Frame.owed).sum))
    (hle : d.depth ≤ maxDepth) : (d.enter frame (.call level)).Counts depth := by
  by_cases hfits : d.depth + 1 ≤ maxDepth
  · rw [enter, if_pos hfits]
    exact counts_of_isFree (.call level) (by rw [List.map_cons, List.sum_cons, hcount]) hfits
  · -- what is refused is open, too, and the counter stays where it is
    have hopened := countP_isOpen_le (frame :: d.stack)
    rw [List.map_cons, List.sum_cons] at hopened
    rw [enter, if_neg hfits]
    refine ⟨?_, Nat.succ_le_succ hle⟩
    change depth + (frame :: d.stack).countP Frame.isOpen ≤ d.depth + 1
    omega

theorem counts_lower {n : Nat} (hcontrol : d.control.IsFree)
    (hcount : d.depth = depth + (n + (d.stack.map Frame.owed).sum)) (hle : d.depth ≤ maxDepth) :
    (d.lower n).Counts depth := by
  rw [lower, if_pos (by omega)]
  exact counts_of_isFree hcontrol (by omega) (by omega)

/-- Beginning with a level opens no more than the counter is raised by. -/
theorem counts_call (hcount : d.depth = depth + (d.stack.map Frame.owed).sum)
    (hle : d.depth ≤ maxDepth) (level : Nat) : (d.call tokens level).Counts depth := by
  unfold call
  split_ifs with hchain hunary
  · exact counts_of_isFree (.call _) (by simpa [Frame.owed] using hcount) hle
  · split
    · exact counts_enter _ (by rw [Frame.owed]; omega) hle
    · exact counts_of_isFree (.call _) hcount hle
  · split
    · exact counts_enter _ (by rw [Frame.owed]; omega) hle
    · exact counts_of_isFree (isFree_literalControl _) hcount hle
    · exact counts_of_isFree (.fault _) hcount hle

theorem counts_goOn {read : Nat}
    (hcount : d.depth = depth + (read + (d.stack.map Frame.owed).sum)) (hle : d.depth ≤ maxDepth)
    (level : Nat) (left : Expr) : (d.goOn tokens level left read).Counts depth := by
  unfold goOn
  split
  · exact counts_enter _ (by rw [Frame.owed]; omega) hle
  · exact counts_lower (.tree left) hcount hle

theorem counts_resume {frame : Frame}
    (hcount : d.depth = depth + (frame.owed + (d.stack.map Frame.owed).sum))
    (hle : d.depth ≤ maxDepth) (e : Expr) : (d.resume tokens e frame).Counts depth := by
  cases frame with
  | first level => exact ⟨hcount, hle⟩
  | right level op left read => exact ⟨hcount, hle⟩
  | unary op => exact counts_lower (.tree _) hcount hle
  | group => exact counts_lower (isFree_ofParsed _) hcount hle

/-- **A step keeps the counter** at what is owed. -/
theorem Counts.next (h : d.Counts depth) (hnext : d' ∈ d.next tokens) : d'.Counts depth := by
  obtain ⟨control, pos, count, stack⟩ := d
  cases control with
  | call level =>
      cases hnext
      obtain ⟨hcount, hle⟩ := h
      exact counts_call (by simpa [owed, Control.owed] using hcount) hle level
  | chain level left read =>
      cases hnext
      exact counts_goOn h.1 h.2 level left
  | tree e =>
      cases stack with
      | nil => cases hnext
      | cons frame stack =>
          cases hnext
          have hle : count ≤ maxDepth := h.2
          refine counts_resume ?_ hle e
          simpa [owed, Control.owed] using h.1
  | fault fault =>
      cases stack with
      | nil => cases hnext
      | cons frame stack =>
          cases hnext
          have hopened : stack.countP Frame.isOpen ≤ (frame :: stack).countP Frame.isOpen :=
            (List.sublist_cons_self frame stack).countP_le
          exact ⟨(Nat.add_le_add_left hopened depth).trans h.1, h.2⟩
  | underflow => exact h.elim

theorem counts_start (level pos : Nat) (hdepth : depth ≤ maxDepth) :
    (start level pos depth).Counts depth :=
  counts_of_isFree (.call level) (by simp) hdepth

theorem Counts.control_ne_underflow (h : d.Counts depth) : d.control ≠ .underflow := by
  intro hcontrol
  simp [Counts, hcontrol] at h

theorem Counts.depth_le (h : d.Counts depth) :
    d.depth ≤ maxDepth ∨ ∃ fault, d.control = .fault fault := by
  obtain ⟨control, pos, count, frames⟩ := d
  cases control with
  | fault fault => exact .inr ⟨fault, rfl⟩
  | underflow => exact h.elim
  | _ => exact .inl h.2

theorem Counts.opened_le (h : d.Counts depth) :
    depth + d.opened ≤ d.depth ∧ d.depth ≤ maxDepth + 1 := by
  have hopened := d.opened_le_owed
  obtain ⟨control, pos, count, frames⟩ := d
  cases control with
  | fault fault => exact h
  | underflow => exact h.elim
  | _ => exact ⟨(Nat.add_le_add_left hopened depth).trans h.1.ge, Nat.le_succ_of_le h.2⟩

/-! ## Where a descent stands -/

/-- How a descent comes from one moment to a later one: never back, never beyond the end, and to
something that was read only past a token. -/
structure Advances (tokens : List Token) (d d' : Descent) : Prop where
  le_pos : d.pos ≤ d'.pos
  pos_le : d'.pos ≤ max d.pos tokens.length
  hasRead : d'.control.HasRead → d.control.HasRead ∨ d.pos < d'.pos

theorem Advances.refl (d : Descent) : Advances tokens d d :=
  ⟨Nat.le_refl _, Nat.le_max_left _ _, .inl⟩

theorem Advances.trans {d'' : Descent} (h : Advances tokens d d') (h' : Advances tokens d' d'') :
    Advances tokens d d'' where
  le_pos := h.le_pos.trans h'.le_pos
  pos_le := by
    have := h.pos_le
    have := h'.pos_le
    omega
  hasRead hread := by
    have := h.le_pos
    have := h'.le_pos
    rcases h'.hasRead hread with hread | hlt
    · exact (h.hasRead hread).imp_right fun hlt => by omega
    · exact .inr (by omega)

theorem advances_of_pos_eq (hpos : d'.pos = d.pos)
    (hread : d'.control.HasRead → d.control.HasRead) : Advances tokens d d' :=
  ⟨hpos.ge, hpos ▸ Nat.le_max_left _ _, fun h => .inl (hread h)⟩

theorem lt_length_of_drop_eq_cons {token : Token} {rest : List Token}
    (h : tokens.drop pos = token :: rest) : pos < tokens.length := by
  by_contra hle
  rw [List.drop_eq_nil_of_le (Nat.not_lt.1 hle)] at h
  cases h

theorem drop_succ_of_drop_eq_cons {token : Token} {rest : List Token}
    (h : tokens.drop pos = token :: rest) : tokens.drop (pos + 1) = rest := by
  rw [← List.drop_drop, h, List.drop_one, List.tail_cons]

theorem advances_of_token {token : Token} {rest : List Token}
    (hfront : tokens.drop d.pos = token :: rest) (hpos : d'.pos = d.pos + 1) :
    Advances tokens d d' := by
  have hlt := lt_length_of_drop_eq_cons hfront
  exact ⟨by omega, by omega, fun _ => .inr (by omega)⟩

theorem pos_lower (d : Descent) (n : Nat) : (d.lower n).pos = d.pos := by
  rw [lower]
  split <;> rfl

theorem hasRead_of_lower {n : Nat} (h : (d.lower n).control.HasRead) : d.control.HasRead := by
  rw [lower] at h
  split at h
  · exact h
  · exact h.elim

theorem advances_lower {n : Nat} (h : Advances tokens d d') : Advances tokens d (d'.lower n) where
  le_pos := by rw [pos_lower]; exact h.le_pos
  pos_le := by rw [pos_lower]; exact h.pos_le
  hasRead hread := by rw [pos_lower]; exact h.hasRead (hasRead_of_lower hread)

theorem advances_call (level : Nat) : Advances tokens d (d.call tokens level) := by
  unfold call
  split_ifs
  · exact advances_of_pos_eq rfl False.elim
  · split
    · rename_i op hop
      obtain ⟨s, rest, hfront⟩ : ∃ s rest, tokens.drop d.pos = .symbol s :: rest := by
        unfold unaryAt? at hop
        split at hop
        · rename_i s rest hfront
          exact ⟨s, rest, hfront⟩
        · cases hop
      exact advances_of_token hfront rfl
    · exact advances_of_pos_eq rfl False.elim
  · split
    · rename_i hfront
      exact advances_of_token hfront rfl
    · rename_i hfront
      exact advances_of_token hfront rfl
    · exact advances_of_pos_eq rfl False.elim

theorem advances_goOn (level : Nat) (left : Expr) (read : Nat) (h : d.control.HasRead) :
    Advances tokens d (d.goOn tokens level left read) := by
  unfold goOn
  split
  · rename_i op rest hop
    exact advances_of_token (operatorAt?_eq_some_iff.1 hop).2 rfl
  · exact advances_lower (advances_of_pos_eq rfl fun _ => h)

theorem advances_resume (e : Expr) (frame : Frame) (h : d.control.HasRead) :
    Advances tokens d (d.resume tokens e frame) := by
  cases frame with
  | first level => exact advances_of_pos_eq rfl fun _ => h
  | right level op left read => exact advances_of_pos_eq rfl fun _ => h
  | unary op => exact advances_lower (advances_of_pos_eq rfl fun _ => h)
  | group =>
      refine advances_lower ⟨?_, ?_, fun _ => .inl h⟩ <;>
        (simp only [advance]; split <;> omega)

/-- **A step takes a descent on.** -/
theorem advances_next (hnext : d' ∈ d.next tokens) : Advances tokens d d' := by
  obtain ⟨control, pos, count, stack⟩ := d
  cases control with
  | call level =>
      cases hnext
      exact advances_call level
  | chain level left read =>
      cases hnext
      exact advances_goOn level left read trivial
  | tree e =>
      cases stack with
      | nil => cases hnext
      | cons frame stack =>
          cases hnext
          have hpop : Advances tokens ⟨.tree e, pos, count, frame :: stack⟩
              ⟨.tree e, pos, count, stack⟩ := advances_of_pos_eq rfl id
          exact hpop.trans (advances_resume e frame trivial)
  | fault fault =>
      cases stack with
      | nil => cases hnext
      | cons frame stack =>
          cases hnext
          exact advances_of_pos_eq rfl id
  | underflow => cases hnext

/-! ## Whole descents -/

open StateTransition (Reaches eval)

theorem Counts.reaches (h : d.Counts depth) (hreach : Reaches (Descent.next tokens) d d') :
    d'.Counts depth := by
  induction hreach with
  | refl => exact h
  | tail _ hnext ih => exact ih.next hnext

theorem advances_of_reaches (hreach : Reaches (next tokens) d d') : Advances tokens d d' := by
  induction hreach with
  | refl => exact .refl d
  | tail _ hnext ih => exact ih.trans (advances_next hnext)

/-- A descent with a fault comes to nothing but the fault. -/
theorem control_eq_fault_of_reaches {fault : ExprError} (h : d.control = .fault fault)
    (hreach : Reaches (next tokens) d d') : d'.control = .fault fault := by
  induction hreach with
  | refl => exact h
  | @tail d₁ d₂ _ hnext ih =>
      obtain ⟨control, pos, count, stack⟩ := d₁
      obtain rfl : control = .fault fault := ih
      cases stack with
      | nil => cases hnext
      | cons frame stack =>
          cases hnext
          rfl

/-! ## What a descent comes to -/

/-- Whether a descent has come to what a parser gives, with the counter at `depth` again if that is
a tree, and with what was on the stack before. -/
def Gives (tokens : List Token) (depth : Nat) (stack : List Frame) (d : Descent) : Parsed → Prop
  | .ok (e, rest) =>
    d.control = .tree e ∧ tokens.drop d.pos = rest ∧ d.depth = depth ∧ d.stack = stack
  | .error fault => d.control = .fault fault ∧ d.stack = stack

/-- Whether a descent comes to what a parser gives. -/
def Answers (tokens : List Token) (depth : Nat) (stack : List Frame) (d : Descent)
    (parsed : Parsed) : Prop :=
  ∃ last, Reaches (next tokens) d last ∧ last.Gives tokens depth stack parsed

theorem Answers.head {parsed : Parsed} (hnext : d.next tokens = some d')
    (h : Answers tokens depth stack d' parsed) : Answers tokens depth stack d parsed := by
  obtain ⟨last, hreach, hgives⟩ := h
  exact ⟨last, hreach.head hnext, hgives⟩

/-- What was begun last is given to what was begun before it, and a fault in it is a fault in
that. -/
theorem Answers.bind {frame : Frame} {inner : Nat} {parsed : Parsed}
    {more : Expr → List Token → Parsed} :
    Answers tokens inner (frame :: stack) d parsed →
      (∀ e pos, Answers tokens depth stack (resume tokens ⟨.tree e, pos, inner, stack⟩ e frame)
        (more e (tokens.drop pos))) →
      Answers tokens depth stack d
        (match parsed with
        | .error fault => .error fault
        | .ok (e, rest) => more e rest) := by
  rintro ⟨⟨control, pos, count, frames⟩, hreach, hgives⟩ hresume
  cases parsed with
  | error fault =>
      obtain ⟨hcontrol, hstack⟩ := hgives
      obtain rfl : control = .fault fault := hcontrol
      obtain rfl : frames = frame :: stack := hstack
      exact ⟨⟨.fault fault, pos, count, stack⟩, hreach.tail rfl, rfl, rfl⟩
  | ok read =>
      obtain ⟨e, rest⟩ := read
      obtain ⟨hcontrol, hrest, hcount, hstack⟩ := hgives
      obtain rfl : control = .tree e := hcontrol
      obtain rfl : tokens.drop pos = rest := hrest
      obtain rfl : count = inner := hcount
      obtain rfl : frames = frame :: stack := hstack
      obtain ⟨last, hmore, hlast⟩ := hresume e pos
      exact ⟨last, (hreach.tail rfl).trans hmore, hlast⟩

/-- What a token opens is taken, or refused because too much is open. -/
theorem answers_enter {frame : Frame} {control before : Control} {pos count : Nat} {parsed : Parsed}
    (h : count < maxDepth →
      Answers tokens depth stack ⟨control, pos + 1, count + 1, frame :: stack⟩ parsed) :
    Answers tokens depth stack (enter ⟨before, pos, count, stack⟩ frame control)
      (if count < maxDepth then parsed else .error .tooDeep) := by
  by_cases hlt : count < maxDepth
  · have hfits : count + 1 ≤ maxDepth := hlt
    simpa only [enter, if_pos hfits, if_pos hlt] using h hlt
  · have hfits : ¬count + 1 ≤ maxDepth := hlt
    simp only [enter, if_neg hfits, if_neg hlt]
    exact ⟨⟨.fault .tooDeep, pos + 1, count + 1, stack⟩, .single rfl, rfl, rfl⟩

/-- The end of a group is looked for after the counter has come down. -/
theorem answers_closeGroup (e : Expr) (pos depth : Nat) (stack : List Frame) :
    Answers tokens depth stack (resume tokens ⟨.tree e, pos, depth + 1, stack⟩ e .group)
      (closeGroup e (tokens.drop pos)) := by
  have hlower : resume tokens ⟨.tree e, pos, depth + 1, stack⟩ e .group =
      advance tokens ⟨.ofParsed (closeGroup e (tokens.drop pos)), pos, depth, stack⟩ := by
    simp [resume, advance, lower]
  rw [hlower]
  refine ⟨_, .refl, ?_⟩
  cases hclose : closeGroup e (tokens.drop pos) with
  | error fault => exact ⟨rfl, rfl⟩
  | ok read =>
      obtain ⟨rfl, hfront⟩ := closeGroup_cases hclose
      refine ⟨rfl, ?_, rfl, rfl⟩
      simpa only [advance, if_pos (lt_length_of_drop_eq_cons hfront)] using
        drop_succ_of_drop_eq_cons hfront

/-- A literal is read where a literal is asked for, and nothing else but a group. -/
theorem gives_literalControl {token : Token} {rest : List Token}
    (hopen : token ≠ .symbol .openParen) (hrest : tokens.drop (pos + 1) = rest) :
    Gives tokens depth stack ⟨token.literalControl, pos + 1, depth, stack⟩
      (parsePrimary depth (token :: rest)) := by
  rw [parsePrimary.eq_def]
  cases token with
  | number x => exact ⟨rfl, hrest, rfl, rfl⟩
  | string s => exact ⟨rfl, hrest, rfl, rfl⟩
  | ident name =>
      simp only [Token.literalControl]
      cases keyword? name with
      | some v => exact ⟨rfl, hrest, rfl, rfl⟩
      | none => exact ⟨rfl, rfl⟩
  | symbol s => cases s with
    | openParen => exact (hopen rfl).elim
    | _ => exact ⟨rfl, rfl⟩

mutual

-- The descent follows the parsers call by call, whatever was begun before.  Where the parsers hand
-- down that `read` operators of a chain are open, the counter of the descent has been raised by
-- `read`, and comes down at the end of the chain at once.

theorem answers_parseLevel {level : Nat} (hlevel : level ≤ unaryLevel) (tokens : List Token)
    (pos depth : Nat) (stack : List Frame) :
    Answers tokens depth stack ⟨.call level, pos, depth, stack⟩
      (parseLevel level depth (tokens.drop pos)) := by
  rw [parseLevel]
  split
  · rename_i hchain
    have hfirst := answers_parseLevel hchain tokens pos depth (.first level :: stack)
    have hnext : next tokens ⟨.call level, pos, depth, stack⟩ =
        some ⟨.call (level + 1), pos, depth, .first level :: stack⟩ := by
      simp [next, call, hchain]
    exact .head hnext (hfirst.bind fun left after =>
      answers_parseChain hchain tokens left 0 after depth stack)
  · rename_i hchain
    obtain rfl := Nat.le_antisymm hlevel (Nat.not_lt.1 hchain)
    exact answers_parseUnary tokens pos depth stack
termination_by (maxDepth - depth, 2 + (unaryLevel - level))

theorem answers_parseChain {level : Nat} (hlevel : level < unaryLevel) (tokens : List Token)
    (left : Expr) (read pos depth : Nat) (stack : List Frame) :
    Answers tokens depth stack ⟨.chain level left read, pos, depth + read, stack⟩
      (parseChain level (depth + read) left (tokens.drop pos)) := by
  rw [parseChain]
  cases hop : operatorAt? level (tokens.drop pos) with
  | none =>
      have hnext : next tokens ⟨.chain level left read, pos, depth + read, stack⟩ =
          some ⟨.tree left, pos, depth, stack⟩ := by
        simp [next, goOn, hop, lower]
      exact .head hnext ⟨_, .refl, rfl, rfl, rfl, rfl⟩
  | some found =>
      obtain ⟨op, rest⟩ := found
      have hrest := drop_succ_of_drop_eq_cons (operatorAt?_eq_some_iff.1 hop).2
      have hnext : next tokens ⟨.chain level left read, pos, depth + read, stack⟩ =
          some (enter ⟨.chain level left read, pos, depth + read, stack⟩
            (.right level op left (read + 1)) (.call (level + 1))) := by
        simp [next, goOn, hop]
      refine .head hnext (answers_enter fun hlt => ?_)
      have hright := answers_parseLevel hlevel tokens (pos + 1) (depth + read + 1)
        (.right level op left (read + 1) :: stack)
      rw [hrest] at hright
      exact hright.bind fun right after =>
        answers_parseChain hlevel tokens (.binary op left right) (read + 1) after depth stack
termination_by (maxDepth - (depth + read), 0)

theorem answers_parseUnary (tokens : List Token) (pos depth : Nat) (stack : List Frame) :
    Answers tokens depth stack ⟨.call unaryLevel, pos, depth, stack⟩
      (parseUnary depth (tokens.drop pos)) := by
  have hprimary : Answers tokens depth stack ⟨.call literalLevel, pos, depth, stack⟩
      (parsePrimary depth (tokens.drop pos)) :=
    answers_parsePrimary (by decide) tokens pos depth stack
  rw [parseUnary.eq_def]
  split
  · rename_i s rest hfront
    split
    · rename_i op hop
      have hrest := drop_succ_of_drop_eq_cons hfront
      have hnext : next tokens ⟨.call unaryLevel, pos, depth, stack⟩ =
          some (enter ⟨.call unaryLevel, pos, depth, stack⟩ (.unary op) (.call unaryLevel)) := by
        simp [next, call, unaryAt?, hfront, hop]
      refine .head hnext (answers_enter fun hlt => ?_)
      have hoperand := answers_parseUnary tokens (pos + 1) (depth + 1) (.unary op :: stack)
      rw [hrest] at hoperand
      refine hoperand.bind fun operand after => ?_
      exact ⟨⟨.tree (.unary op operand), after, depth, stack⟩, .refl, rfl, rfl, rfl, rfl⟩
    · rename_i hop
      refine .head ?_ hprimary
      simp [next, call, unaryAt?, hfront, hop]
  · rename_i hfront
    refine .head ?_ hprimary
    simp [next, call, unaryAt?]
termination_by (maxDepth - depth, 1)

theorem answers_parsePrimary {level : Nat} (hlevel : unaryLevel < level) (tokens : List Token)
    (pos depth : Nat) (stack : List Frame) :
    Answers tokens depth stack ⟨.call level, pos, depth, stack⟩
      (parsePrimary depth (tokens.drop pos)) := by
  cases hfront : tokens.drop pos with
  | nil =>
      rw [parsePrimary.eq_def]
      refine ⟨⟨.fault (.unexpectedEnd .operand), pos, depth, stack⟩, .single ?_, rfl, rfl⟩
      simp [next, call, hlevel.not_gt, hlevel.ne', hfront]
  | cons token rest =>
      have hrest := drop_succ_of_drop_eq_cons hfront
      by_cases hopen : token = .symbol .openParen
      · subst hopen
        have hnext : next tokens ⟨.call level, pos, depth, stack⟩ =
            some (enter ⟨.call level, pos, depth, stack⟩ .group (.call 0)) := by
          simp [next, call, hlevel.not_gt, hlevel.ne', hfront]
        rw [parsePrimary.eq_def]
        refine .head hnext (answers_enter fun hlt => ?_)
        have hinner := answers_parseLevel (Nat.zero_le unaryLevel) tokens (pos + 1) (depth + 1)
          (.group :: stack)
        rw [hrest] at hinner
        exact hinner.bind fun e after => answers_closeGroup e after depth stack
      · have hnext : next tokens ⟨.call level, pos, depth, stack⟩ =
            some ⟨token.literalControl, pos + 1, depth, stack⟩ := by
          simp [next, call, hlevel.not_gt, hlevel.ne', hfront]
        exact .head hnext ⟨_, .refl, gives_literalControl hopen hrest⟩
termination_by (maxDepth - depth, 0)

end

theorem answers_parseAt (tokens : List Token) (level pos depth : Nat) (stack : List Frame) :
    Answers tokens depth stack ⟨.call level, pos, depth, stack⟩
      (parseAt level depth (tokens.drop pos)) := by
  unfold parseAt
  split
  · rename_i hlevel
    exact answers_parseLevel hlevel tokens pos depth stack
  · rename_i hlevel
    exact answers_parsePrimary (Nat.not_le.1 hlevel) tokens pos depth stack

/-- A descent that has come to what a parser gives is over. -/
theorem next_eq_none_of_gives {parsed : Parsed} (h : d.Gives tokens depth [] parsed) :
    d.next tokens = none := by
  obtain ⟨control, pos, count, frames⟩ := d
  cases parsed with
  | error fault =>
      obtain ⟨rfl, rfl⟩ := h
      rfl
  | ok read =>
      obtain ⟨rfl, -, -, rfl⟩ := h
      rfl

theorem exists_mem_eval (tokens : List Token) (level pos depth : Nat) :
    ∃ last ∈ eval (next tokens) (start level pos depth),
      last.Gives tokens depth [] (parseAt level depth (tokens.drop pos)) := by
  obtain ⟨last, hreach, hgives⟩ := answers_parseAt tokens level pos depth []
  exact ⟨last, StateTransition.mem_eval.2 ⟨hreach, next_eq_none_of_gives hgives⟩, hgives⟩

theorem Gives.depth_eq {parsed : Parsed} {e : Expr} (h : d.Gives tokens depth stack parsed)
    (htree : d.control = .tree e) : d.depth = depth := by
  cases parsed with
  | error fault =>
      have hfault : d.control = .fault fault := h.1
      rw [htree] at hfault
      cases hfault
  | ok read => exact h.2.2.1

/-- On the way to a tree nothing is refused. -/
theorem depth_le_of_mem_eval {last : Descent} {e : Expr} (h : d.Counts depth)
    (hlast : last ∈ eval (Descent.next tokens) d) (htree : last.control = .tree e)
    (hreach : Reaches (Descent.next tokens) d d') : d'.depth ≤ maxDepth := by
  refine (h.reaches hreach).depth_le.resolve_right ?_
  rintro ⟨fault, hfault⟩
  rw [StateTransition.reaches_eval hreach] at hlast
  have hend := control_eq_fault_of_reaches hfault (StateTransition.mem_eval.1 hlast).1
  rw [htree] at hend
  cases hend

end Descent

open StateTransition (Reaches eval) in
open Descent (start next) in
/-- **The law of descents.**  From every position and with every counter that is not too great, the
reading of what a level asks for comes to an end, with what the parser of the level gives.  If that
is a tree, at least one token was taken, the counter is where it was, and it was never greater than
`maxDepth`.  At every moment, also on the way to a fault, the counter can come down by what it has
to, the position is not beyond the end, and of operators before an operand and of parentheses no
more are being read than there was room for, and one that is refused. -/
theorem parseAt_descent (tokens : List Token) (level pos depth : Nat) (hdepth : depth ≤ maxDepth) :
    (∃ last ∈ eval (next tokens) (start level pos depth),
      last.Gives tokens depth [] (parseAt level depth (tokens.drop pos)) ∧
      ∀ e, last.control = .tree e → pos < last.pos ∧ last.depth = depth ∧
        ∀ d, Reaches (next tokens) (start level pos depth) d → d.depth ≤ maxDepth) ∧
    ∀ d, Reaches (next tokens) (start level pos depth) d →
      d.control ≠ .underflow ∧ d.pos ≤ max pos tokens.length ∧ depth + d.opened ≤ maxDepth + 1 := by
  have hstart := Descent.counts_start level pos hdepth
  constructor
  · obtain ⟨last, hlast, hgives⟩ := Descent.exists_mem_eval tokens level pos depth
    refine ⟨last, hlast, hgives, fun e htree => ⟨?_, hgives.depth_eq htree, ?_⟩⟩
    · have hadvances := Descent.advances_of_reaches (StateTransition.mem_eval.1 hlast).1
      have hread : last.control.HasRead := by
        rw [htree]
        trivial
      exact (hadvances.hasRead hread).resolve_left id
    · exact fun d hreach => Descent.depth_le_of_mem_eval hstart hlast htree hreach
  · intro d hreach
    have hcounts := hstart.reaches hreach
    obtain ⟨hopened, hle⟩ := hcounts.opened_le
    exact ⟨hcounts.control_ne_underflow, (Descent.advances_of_reaches hreach).pos_le,
      hopened.trans hle⟩

open StateTransition (Reaches eval) in
open Descent (start next) in
/-- With 62 open there is room for the operator and the parenthesis of `!(true)`. -/
theorem parseAt_descent_not_true :
    let tokens : List Token :=
      [.symbol .bang, .symbol .openParen, .ident "true", .symbol .closeParen]
    62 ≤ maxDepth ∧
      (∃ last ∈ eval (next tokens) (start unaryLevel 0 62),
        last.control = .tree (.unary .not (.literal (.bool true))) ∧ last.pos = 4 ∧
          last.depth = 62) ∧
      ∀ d, Reaches (next tokens) (start unaryLevel 0 62) d → d.opened ≤ 3 := by
  intro tokens
  have hdepth : 62 ≤ maxDepth := by decide
  obtain ⟨⟨last, hlast, hgives, -⟩, hall⟩ := parseAt_descent tokens unaryLevel 0 62 hdepth
  have hparse : parseAt unaryLevel 62 (tokens.drop 0) =
      .ok (.unary .not (.literal (.bool true)), []) := by cbv
  rw [hparse] at hgives
  obtain ⟨htree, hrest, hcount, -⟩ := hgives
  have hle := (hall last (StateTransition.mem_eval.1 hlast).1).2.1
  have hpos : last.pos = 4 := Nat.le_antisymm hle (List.drop_eq_nil_iff.1 hrest)
  refine ⟨hdepth, ⟨last, hlast, htree, hpos, hcount⟩, fun d hreach => ?_⟩
  have hopened := (hall d hreach).2.2
  have hmax : maxDepth = 64 := rfl
  omega

end Workflow
