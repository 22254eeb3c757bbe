import Workflow.Expr.Trace
import Workflow.Proofs.Identifiers
import Workflow.Proofs.Printing

/-!
# Outcomes in a text

An explanation is the text of an expression with outcomes in brackets.  Strings may hold brackets,
too, in the expression and in the outcomes, so a reader who wants to tell the two apart has to know
where a string ends.

* `Cursor` is what such a reader knows at a place of the text.
* `pieces` takes a text apart into the characters of an expression and the outcomes, and
  `flatMap_text_piecesFrom` says that nothing is lost.
* `withoutOutcomes` is what is left without the outcomes, `outcomes` are the outcomes with what
  comes before each of them.
* `Value.runs_literalText` says that the reader comes through every literal, and `Closed` texts are
  taken apart one after the other.
-/

namespace Workflow

/-! ## The reader -/

/-- Where a reader of an explanation is. -/
structure Cursor where
  /-- Between the brackets of an outcome. -/
  bracketed : Bool
  /-- Between quotes. -/
  quoted : Bool
  /-- Between quotes and behind a backslash. -/
  escaped : Bool
deriving DecidableEq

namespace Cursor

/-- Outside of brackets and quotes. -/
def start : Cursor := ⟨false, false, false⟩

/-- Where the reader is after one more character.  Between quotes brackets mean nothing. -/
def next (s : Cursor) (c : Char) : Cursor :=
  if s.quoted then
    if s.escaped then { s with escaped := false }
    else if c = '\\' then { s with escaped := true }
    else if c = '"' then { s with quoted := false }
    else s
  else if c = '"' then { s with quoted := true }
  else if c = '[' then { s with bracketed := true }
  else if c = ']' then { s with bracketed := false }
  else s

/-- From one place to another the reader comes neither to an outcome nor to the end of one. -/
inductive Runs : Cursor → List Char → Cursor → Prop
  | nil (s : Cursor) : Runs s [] s
  | cons {s t u : Cursor} {c : Char} {cs : List Char} :
      s.next c = t → t.bracketed = s.bracketed → Runs t cs u → Runs s (c :: cs) u

theorem Runs.append {s t u : Cursor} {cs ds : List Char} (hcs : Runs s cs t) (hds : Runs t ds u) :
    Runs s (cs ++ ds) u := by
  induction hcs with
  | nil s => exact hds
  | cons hnext hbracketed _ ih => exact .cons hnext hbracketed (ih hds)

/-- A character without a meaning for the reader. -/
def IsOrdinary (c : Char) : Prop :=
  c ≠ '"' ∧ c ≠ '[' ∧ c ≠ ']'

instance : DecidablePred IsOrdinary := fun c =>
  inferInstanceAs (Decidable (c ≠ '"' ∧ c ≠ '[' ∧ c ≠ ']'))

theorem runs_of_isOrdinary {cs : List Char} (h : ∀ c ∈ cs, IsOrdinary c) (b : Bool) :
    Runs ⟨b, false, false⟩ cs ⟨b, false, false⟩ := by
  induction cs with
  | nil => exact .nil _
  | cons c cs ih =>
      obtain ⟨⟨hquote, hopen, hclose⟩, hcs⟩ := List.forall_mem_cons.1 h
      exact .cons (by simp [next, hquote, hopen, hclose]) rfl (ih hcs)

theorem runs_of_quoted {body s : List Char} (h : Quoted '"' body s) (b : Bool) :
    Runs ⟨b, true, false⟩ body ⟨b, true, false⟩ := by
  induction h with
  | nil => exact .nil _
  | escape _ ih => exact .cons rfl rfl (.cons rfl rfl ih)
  | plain hquote hescape _ _ ih => exact .cons (by simp [next, hquote, hescape]) rfl ih

end Cursor

/-! ## Pieces -/

/-- What an explanation is made of. -/
inductive Piece where
  /-- A character of the expression. -/
  | char (c : Char)
  /-- What stands between two brackets. -/
  | outcome (cs : List Char)

/-- What a piece is written as. -/
def Piece.text : Piece → List Char
  | .char c => [c]
  | .outcome cs => '[' :: (cs ++ [']'])

/-- The pieces of what a reader comes to, after what it has read of an outcome. -/
def piecesFrom (s : Cursor) (inside : List Char) : List Char → List Piece
  | [] => []
  | c :: cs =>
    let t := s.next c
    match s.bracketed, t.bracketed with
    | false, false => .char c :: piecesFrom t [] cs
    | false, true => piecesFrom t [] cs
    | true, true => piecesFrom t (inside ++ [c]) cs
    | true, false => .outcome inside :: piecesFrom t [] cs

/-- The pieces of a text. -/
def pieces (cs : List Char) : List Piece :=
  piecesFrom .start [] cs

/-- The characters of the expression. -/
def plain : List Piece → List Char
  | [] => []
  | .char c :: ps => c :: plain ps
  | .outcome _ :: ps => plain ps

/-- The outcomes, each with the characters of the expression before it. -/
def outcomesFrom (before : List Char) : List Piece → List (List Char × List Char)
  | [] => []
  | .char c :: ps => outcomesFrom (before ++ [c]) ps
  | .outcome cs :: ps => (before, cs) :: outcomesFrom before ps

/-- A text without its outcomes. -/
def withoutOutcomes (text : String) : String :=
  String.ofList (plain (pieces text.toList))

/-- The outcomes of a text, each with what comes before it without outcomes. -/
def outcomes (text : String) : List (List Char × List Char) :=
  outcomesFrom [] (pieces text.toList)

/-! ## Nothing is lost -/

section Reading

variable {s : Cursor} {cs : List Char}

theorem piecesFrom_of_bracketed_eq_false (hs : s.bracketed = false) (inside cs : List Char) :
    piecesFrom s inside cs = piecesFrom s [] cs := by
  cases cs with
  | nil => rfl
  | cons c cs =>
      rw [piecesFrom, piecesFrom, hs]
      cases (s.next c).bracketed <;> rfl

/-- Behind a text that ends outside of brackets the reader goes on as if it started there. -/
theorem piecesFrom_append (h : (cs.foldl Cursor.next s).bracketed = false)
    (inside rest : List Char) :
    piecesFrom s inside (cs ++ rest) =
      piecesFrom s inside cs ++ piecesFrom (cs.foldl Cursor.next s) [] rest := by
  induction cs generalizing s inside with
  | nil => exact piecesFrom_of_bracketed_eq_false h inside rest
  | cons c cs ih =>
      rw [List.foldl_cons] at h
      rw [List.cons_append, piecesFrom, piecesFrom, List.foldl_cons]
      cases s.bracketed <;> cases (s.next c).bracketed <;> simp only [ih h, List.cons_append]

theorem Cursor.eq_openBracket {c : Char} (hs : s.bracketed = false)
    (hnext : (s.next c).bracketed = true) : c = '[' := by
  unfold next at hnext
  split_ifs at hnext <;> simp_all

theorem Cursor.eq_closeBracket {c : Char} (hs : s.bracketed = true)
    (hnext : (s.next c).bracketed = false) : c = ']' := by
  unfold next at hnext
  split_ifs at hnext <;> simp_all

/-- Nothing is lost of a text that ends outside of brackets. -/
theorem flatMap_text_piecesFrom (h : (cs.foldl Cursor.next s).bracketed = false)
    (inside : List Char) :
    (piecesFrom s inside cs).flatMap Piece.text =
      (if s.bracketed then '[' :: inside else []) ++ cs := by
  induction cs generalizing s inside with
  | nil =>
      rw [List.foldl_nil] at h
      simp [piecesFrom, h]
  | cons c cs ih =>
      rw [List.foldl_cons] at h
      have hrest := ih h
      rw [piecesFrom]
      cases hs : s.bracketed <;> cases hnext : (s.next c).bracketed <;> rw [hnext] at hrest
      · simp [hrest, Piece.text]
      · obtain rfl := Cursor.eq_openBracket hs hnext
        simp [hrest]
      · obtain rfl := Cursor.eq_closeBracket hs hnext
        simp [hrest, Piece.text]
      · simp [hrest]

end Reading

/-! ## Characters in a row -/

namespace Cursor.Runs

variable {s t : Cursor} {cs : List Char}

theorem foldl_next (h : Runs s cs t) : cs.foldl Cursor.next s = t := by
  induction h with
  | nil s => rfl
  | cons hnext _ _ ih => rw [List.foldl_cons, hnext, ih]

theorem piecesFrom_append (h : Runs s cs t) (hs : s.bracketed = false) (rest : List Char) :
    piecesFrom s [] (cs ++ rest) = cs.map .char ++ piecesFrom t [] rest := by
  induction h with
  | nil s => rfl
  | cons hnext hbracketed _ ih =>
      have ht := hbracketed.trans hs
      simp only [List.cons_append, piecesFrom, hnext, hs, ht, ih ht, List.map_cons]

theorem piecesFrom_append_of_bracketed (h : Runs s cs t) (hs : s.bracketed = true)
    (inside rest : List Char) :
    piecesFrom s inside (cs ++ rest) = piecesFrom t (inside ++ cs) rest := by
  induction h generalizing inside with
  | nil s => rw [List.append_nil, List.nil_append]
  | cons hnext hbracketed _ ih =>
      have ht := hbracketed.trans hs
      simp only [List.cons_append, piecesFrom, hnext, hs, ht, ih ht, List.append_assoc,
        List.nil_append]

end Cursor.Runs

section Pieces

variable (c : Char) (cs before : List Char) (ps qs : List Piece)

@[simp] theorem plain_nil : plain [] = [] := rfl

@[simp] theorem plain_char : plain (.char c :: ps) = c :: plain ps := rfl

@[simp] theorem plain_outcome : plain (.outcome cs :: ps) = plain ps := rfl

@[simp] theorem outcomesFrom_nil : outcomesFrom before [] = [] := rfl

@[simp] theorem outcomesFrom_char :
    outcomesFrom before (.char c :: ps) = outcomesFrom (before ++ [c]) ps := rfl

@[simp] theorem outcomesFrom_outcome :
    outcomesFrom before (.outcome cs :: ps) = (before, cs) :: outcomesFrom before ps := rfl

@[simp] theorem plain_append : plain (ps ++ qs) = plain ps ++ plain qs := by
  induction ps with
  | nil => rfl
  | cons p ps ih => cases p <;> simp [ih]

@[simp] theorem plain_map_char : plain (cs.map .char) = cs := by
  induction cs with
  | nil => rfl
  | cons c cs ih => simp [ih]

@[simp] theorem outcomesFrom_append :
    outcomesFrom before (ps ++ qs) =
      outcomesFrom before ps ++ outcomesFrom (before ++ plain ps) qs := by
  induction ps generalizing before with
  | nil => simp
  | cons p ps ih => cases p <;> simp [ih]

@[simp] theorem outcomesFrom_map_char : outcomesFrom before (cs.map .char) = [] := by
  induction cs generalizing before with
  | nil => rfl
  | cons c cs ih => exact ih (before ++ [c])

end Pieces

/-! ## Literals -/

theorem Numeral.isOrdinary_of_mem_text {n : Numeral} {c : Char} (h : c ∈ n.text) :
    Cursor.IsOrdinary c := by
  refine ⟨?_, ?_, ?_⟩ <;> rintro rfl <;> exact absurd (mem_text h) (by decide)

/-- What is neither NaN nor an infinite number is finite. -/
theorem isFinite_of_isNaN_of_isInf {x : Float} (hnan : x.isNaN = false) (hinf : x.isInf = false) :
    x.isFinite = true := by
  change x.toModel.unpack.isNaN = false at hnan
  change x.toModel.unpack.isInf = false at hinf
  change x.toModel.unpack.isFinite = true
  cases hparts : x.toModel.unpack with
  | notANumber => rw [hparts] at hnan; cases hnan
  | infinity s => rw [hparts] at hinf; cases hinf
  | zero s => rfl
  | finite s m e hm => rfl

namespace Value

theorem isOrdinary_of_mem_numberText {x : Float} {c : Char} (h : c ∈ numberText x) :
    Cursor.IsOrdinary c := by
  have hwords : ∀ word ∈ ["NaN".toList, "-Infinity".toList, "Infinity".toList, ['0']], c ∈ word →
      Cursor.IsOrdinary c := by
    intro word hword
    fin_cases hword <;> exact List.forall_iff_forall_mem.1 (by decide) c
  unfold numberText at h
  split_ifs at h with hnan hinf hnegative hzero
  · exact hwords _ (by simp) h
  · exact hwords _ (by simp) h
  · exact hwords _ (by simp) h
  · exact hwords _ (by simp) h
  · rw [Bool.not_eq_true] at hnan hinf
    obtain ⟨n, htext, -⟩ := Decimal.Layout.exists_text_eq isReadable_numberLayout
      (isFinite_of_isNaN_of_isInf hnan hinf)
    rw [htext, List.mem_append] at h
    rcases h with h | h
    · split at h
      · obtain rfl := List.mem_singleton.1 h
        decide
      · cases h
    · exact n.isOrdinary_of_mem_text h

/-- A literal is read from its first character to its last without a bracket that counts. -/
theorem runs_literalText (v : Value) (b : Bool) :
    Cursor.Runs ⟨b, false, false⟩ v.literalText ⟨b, false, false⟩ := by
  cases v with
  | number x => exact Cursor.runs_of_isOrdinary (fun c => isOrdinary_of_mem_numberText) b
  | bool truth =>
      refine Cursor.runs_of_isOrdinary ?_ b
      cases truth <;> exact List.forall_iff_forall_mem.1 (by decide)
  | string s =>
      have hbody := Cursor.runs_of_quoted (Text.quoted_flatMap_escape s.toList) b
      exact .cons rfl rfl (hbody.append (.cons rfl rfl (.nil _)))
  | null => exact Cursor.runs_of_isOrdinary (List.forall_iff_forall_mem.1 (by decide)) b

end Value

/-! ## Texts that are closed -/

/-- Whether a text leaves the reader where it started, outside of brackets and quotes. -/
def Closed (cs : List Char) : Prop :=
  cs.foldl Cursor.next .start = .start

namespace Closed

variable {cs ds : List Char}

theorem append (hcs : Closed cs) (hds : Closed ds) : Closed (cs ++ ds) := by
  rw [Closed, List.foldl_append, hcs, hds]

theorem pieces_append (h : Closed cs) (rest : List Char) :
    pieces (cs ++ rest) = pieces cs ++ pieces rest := by
  have hend : (cs.foldl Cursor.next .start).bracketed = false := by
    rw [h]
    rfl
  have hpieces := piecesFrom_append hend [] rest
  rwa [h] at hpieces

theorem flatMap_text_pieces (h : Closed cs) : (pieces cs).flatMap Piece.text = cs :=
  flatMap_text_piecesFrom (by rw [h]; rfl) []

end Closed

theorem Cursor.Runs.closed {cs : List Char} (h : Runs start cs start) : Closed cs :=
  h.foldl_next

/-- A text in which the reader comes to no outcome. -/
theorem Cursor.Runs.pieces_eq {cs : List Char} (h : Runs start cs start) :
    pieces cs = cs.map .char := by
  have hnone := h.piecesFrom_append rfl []
  rwa [List.append_nil, piecesFrom, List.append_nil] at hnone

theorem outcomeText_eq (v : Value) :
    Trace.outcomeText v = ' ' :: '[' :: (v.literalText ++ [']']) := by
  simp [Trace.outcomeText]

theorem closed_outcomeText (v : Value) : Closed (Trace.outcomeText v) := by
  have hinside := (v.runs_literalText true).foldl_next
  rw [outcomeText_eq, Closed, List.foldl_cons, List.foldl_cons, List.foldl_append]
  change List.foldl _ (List.foldl _ (Cursor.mk true false false) _) _ = _
  rw [hinside]
  rfl

/-- An outcome is a blank and what stands in the brackets. -/
theorem pieces_outcomeText (v : Value) :
    pieces (Trace.outcomeText v) = [.char ' ', .outcome v.literalText] := by
  have hinside := (v.runs_literalText true).piecesFrom_append_of_bracketed rfl [] [']']
  rw [outcomeText_eq, pieces]
  change _ :: piecesFrom (Cursor.mk true false false) [] _ = _
  rw [hinside]
  rfl

end Workflow
