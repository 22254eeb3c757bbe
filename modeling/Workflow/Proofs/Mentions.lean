import Workflow.Proofs.Words

/-!
# Variables that are not mentioned

A variable has no influence on a condition that does not hold its name as a whole word, provided that
no other value brings the name in.  The empty name is a case apart: it stands at every word boundary,
so it is without influence only on a condition without words.

* `Context.not_hasWord_foldl` says that putting other variables in place brings no name in.
* `Context.foldl_of_not_isWord` says that nothing happens to a text without words.
* `evaluateCondition_of_not_mentioned` says that the variable may as well be left out.
* `evaluateCondition_ne_of_empty_name` is what the empty name does to a condition.
-/

namespace Workflow

namespace Text

variable {name replacement cs : List Char}

/-- The empty name stands at no place of a text without words. -/
theorem replaceFrom_nil_of_not_isWord (hcs : ∀ c ∈ cs, isWord c = false) {before : Option Char}
    (hbefore : before.any isWord = false) : replaceFrom [] replacement 0 before cs = cs := by
  induction cs generalizing before with
  | nil => simp [replaceFrom, isBoundary, hbefore]
  | cons c cs ih =>
      obtain ⟨hc, hcs⟩ := List.forall_mem_cons.1 hcs
      have hstands : standsAt [] before (c :: cs) = false := by
        simp [standsAt, isBoundary, hbefore, hc]
      have hrest : replaceFrom [] replacement 0 (some c) cs = cs := ih hcs hc
      rw [replaceFrom_cons_of_not hstands, hrest]

/-- Where there are no words nothing is replaced, not even the empty name. -/
theorem replaceWhole_of_not_isWord (hname : ∀ c ∈ name, isWord c = true)
    (hcs : ∀ c ∈ cs, isWord c = false) : replaceWhole name replacement cs = cs := by
  by_cases hempty : name = []
  · rw [hempty]
    exact replaceFrom_nil_of_not_isWord hcs rfl
  · have hwhole : IsWhole name := ⟨hempty, hname⟩
    rw [replaceWhole_eq_mapWords hwhole]
    refine mapWords_of_not_hasWord fun h => ?_
    obtain ⟨c, more, rfl⟩ := List.exists_cons_of_ne_nil hempty
    have hc := hcs c (h.isInfix.subset List.mem_cons_self)
    rw [hname c List.mem_cons_self] at hc
    cases hc

/-- A replacement brings in no name but those of the text that it puts in. -/
theorem not_hasWord_replaceWhole {other : List Char} (hother : IsWhole other) (hname : IsWhole name)
    (hreplacement : ¬HasWord name replacement) (hcs : ¬HasWord name cs) :
    ¬HasWord name (replaceWhole other replacement cs) := by
  rw [replaceWhole_eq_mapWords hother]
  intro h
  obtain ⟨w, hw, hmem, hσ⟩ := h.exists_of_mapWords hname
  split at hσ
  · exact hreplacement hσ
  · rw [hasWord_whole_iff hname hw] at hσ
    exact hcs (hσ ▸ hmem)

end Text

namespace Context

open Text

variable {entries : List (String × Scalar)} {cs : List Char}

/-- Putting variables in place brings no name in that is in none of their values. -/
theorem not_hasWord_foldl {name : List Char} (hname : IsWhole name)
    (hnames : ∀ e ∈ entries, IsWhole e.1.toList)
    (hliterals : ∀ e ∈ entries, ¬HasWord name e.2.literal) (hcs : ¬HasWord name cs) :
    ¬HasWord name
      (entries.foldl (fun cs (other, s) => replaceWhole other.toList s.literal cs) cs) := by
  induction entries generalizing cs with
  | nil => exact hcs
  | cons e entries ih =>
      obtain ⟨hother, hnames⟩ := List.forall_mem_cons.1 hnames
      obtain ⟨hliteral, hliterals⟩ := List.forall_mem_cons.1 hliterals
      exact ih hnames hliterals (not_hasWord_replaceWhole hother hname hliteral hcs)

/-- Variables do nothing to a text without words. -/
theorem foldl_of_not_isWord (hnames : ∀ e ∈ entries, ∀ c ∈ e.1.toList, isWord c = true)
    (hcs : ∀ c ∈ cs, isWord c = false) :
    entries.foldl (fun cs (other, s) => replaceWhole other.toList s.literal cs) cs = cs := by
  induction entries with
  | nil => rfl
  | cons e entries ih =>
      obtain ⟨name, s⟩ := e
      obtain ⟨hname, hnames⟩ := List.forall_mem_cons.1 hnames
      have hsame : replaceWhole name.toList s.literal cs = cs := replaceWhole_of_not_isWord hname hcs
      simp only [List.foldl_cons, hsame, ih hnames]

/-- A variable that finds nothing to replace may as well be left out, wherever it stands. -/
theorem substituteChars_eq_of_replaceWhole_eq {c d : Context} {name : String} {s : Scalar}
    {front back : List (String × Scalar)} (hc : c.entries = front ++ back)
    (hd : d.entries = front ++ (name, s) :: back)
    (h : replaceWhole name.toList s.literal
        (front.foldl (fun cs (other, s) => replaceWhole other.toList s.literal cs) cs) =
      front.foldl (fun cs (other, s) => replaceWhole other.toList s.literal cs) cs) :
    d.substituteChars cs = c.substituteChars cs := by
  rw [substituteChars, substituteChars, hc, hd, List.foldl_append, List.foldl_append,
    List.foldl_cons]
  exact congrArg (back.foldl _) h

end Context

/-- **A variable that is not mentioned has no influence**: wherever it stands among the variables, the
condition comes to the same end with it and without it.  Its name must be in the condition and in the
values of the other variables at most as a part of a longer word; and if the name is empty, the
condition must have no words at all. -/
theorem evaluateCondition_of_not_mentioned {source name : String} {c d : Context} {s : Scalar}
    {front back : List (String × Scalar)} (hc : c.entries = front ++ back)
    (hd : d.entries = front ++ (name, s) :: back)
    (hnames : ∀ e ∈ c.entries, Text.IsWhole e.1.toList)
    (hname : ∀ a ∈ name.toList, Text.isWord a = true)
    (hempty : name = "" → ∀ a ∈ source.toList, Text.isWord a = false)
    (hsource : name ≠ "" → ¬Text.HasWord name.toList source.toList)
    (hliterals : name ≠ "" → ∀ e ∈ c.entries, ¬Text.HasWord name.toList e.2.literal) :
    d.substitute source = c.substitute source ∧
      evaluateCondition source d = evaluateCondition source c := by
  have hfront : ∀ e ∈ front, e ∈ c.entries := fun e he => hc ▸ List.mem_append_left _ he
  have hchars : d.substituteChars source.toList = c.substituteChars source.toList := by
    refine Context.substituteChars_eq_of_replaceWhole_eq hc hd ?_
    by_cases hne : name = ""
    · rw [Context.foldl_of_not_isWord (fun e he => (hnames e (hfront e he)).2) (hempty hne)]
      exact Text.replaceWhole_of_not_isWord hname (hempty hne)
    · have hwhole : Text.IsWhole name.toList := ⟨mt String.toList_eq_nil_iff.1 hne, hname⟩
      rw [Text.replaceWhole_eq_mapWords hwhole]
      exact Text.mapWords_of_not_hasWord <|
        Context.not_hasWord_foldl hwhole (fun e he => hnames e (hfront e he))
          (fun e he => hliterals hne e (hfront e he)) (hsource hne)
  have hsubstitute : d.substitute source = c.substitute source := by
    rw [Context.substitute, Context.substitute, hchars]
  exact ⟨hsubstitute, by rw [evaluateCondition, evaluateCondition, hsubstitute]⟩

/-- A name that is only a part of longer words, between a variable whose value brings in one of these
words and a variable that the condition mentions. -/
theorem evaluateCondition_of_not_mentioned_part :
    let c : Context := (OrderedMap.empty.insert "s" (.string "x10")).insert "y" (.ofNat 3)
    let d : Context := ((OrderedMap.empty.insert "s" (.string "x10")).insert "x1" .null).insert "y"
      (.ofNat 3)
    d.substitute "y > 2 && s == 'x10'" = c.substitute "y > 2 && s == 'x10'" ∧
      evaluateCondition "y > 2 && s == 'x10'" d = evaluateCondition "y > 2 && s == 'x10'" c := by
  intro c d
  have hnames : ∀ e ∈ c.entries, Text.IsWhole e.1.toList := by
    refine List.forall_iff_forall_mem.1 ⟨⟨by decide, ?_⟩, ⟨by decide, ?_⟩⟩ <;>
      exact List.forall_iff_forall_mem.1 (by decide +kernel)
  have hname : ∀ a ∈ "x1".toList, Text.isWord a = true :=
    List.forall_iff_forall_mem.1 (by decide +kernel)
  have hsource : ¬Text.HasWord "x1".toList "y > 2 && s == 'x10'".toList := by decide +kernel
  have hliterals : ∀ e ∈ c.entries, ¬Text.HasWord "x1".toList e.2.literal := by decide +kernel
  have hc : c.entries = c.entries.take 1 ++ c.entries.drop 1 := rfl
  have hd : d.entries = c.entries.take 1 ++ ("x1", .null) :: c.entries.drop 1 := rfl
  exact evaluateCondition_of_not_mentioned hc hd hnames hname nofun (fun _ => hsource)
    fun _ => hliterals

/-- The empty name is put in at both ends of every word: a condition that is false can no longer be
read, and so counts as true. -/
theorem evaluateCondition_ne_of_empty_name :
    let c : Context := OrderedMap.empty
    let d : Context := OrderedMap.empty.insert "" .null
    d.entries = [] ++ ("", .null) :: c.entries ∧
      c.substitute "false" = "false" ∧ d.substitute "false" = "nullfalsenull" ∧
      (evaluateCondition "false" c).result = false ∧
      (evaluateCondition "false" d).result = true := by
  intro c d
  have hc : c.substitute "false" = "false" := by decide +kernel
  have hd : d.substitute "false" = "nullfalsenull" := by decide +kernel
  have hread : parseExpr "false" = .ok (.literal (.bool false)) := by cbv
  have hfault : parseExpr "nullfalsenull" = .error (.unknownIdentifier "nullfalsenull") := by cbv
  refine ⟨rfl, hc, hd, ?_, ?_⟩
  · rw [evaluateCondition, if_neg (by decide +kernel), hc]
    simp only [if_pos (by decide +kernel : isPermitted "false" = true), hread]
    rfl
  · rw [evaluateCondition, if_neg (by decide +kernel), hd]
    simp only [if_pos (by decide +kernel : isPermitted "nullfalsenull" = true), hfault]
    rfl

end Workflow
