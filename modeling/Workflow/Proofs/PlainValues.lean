import Workflow.Proofs.Substitution

/-!
# Contexts without strings

Variables are put in place one after the other, each in the text that the one before left.  As long as
the values are numbers, booleans and null this is as good as putting them all in place at once: the
words of such a value begin with a digit or are keywords, so no variable finds its name in the value
of another one, nor in its own.

* `IsPlainName` are names that can be told from the words of numbers and from keywords, and
  `IsPlainName.not_hasWord_literal` says that no value but a string holds one.
* `Context.IsPlain.mapWords_wordText` says that a value stays as it is when the context is put in
  place again.
* `Context.substitute_of_isPlain` is the result for a whole text.
-/

namespace Workflow

open Text (HasWord IsWhole hasWord_cons_iff hasWord_whole_iff not_hasWord_nil)

/-! ## Names that a value does not hold -/

/-- A name that can be told from the words of a number, from `true`, `false` and `null`. -/
structure IsPlainName (name : String) : Prop where
  isWhole : IsWhole name.toList
  isDigit_eq_false : ∀ c ∈ name.toList.head?, c.isDigit = false
  ne_keyword : name ≠ "true" ∧ name ≠ "false" ∧ name ≠ "null"

variable {name : String}

/-- The words of a numeral begin with digits, unless its exponent stands right after the point. -/
theorem Numeral.not_hasWord_text (n : Numeral)
    (hpoint : n.fraction? = some [] → n.exponent? = none) {w : List Char} (hw : IsWhole w)
    (hdigit : ∀ c ∈ w.head?, c.isDigit = false) : ¬HasWord w n.text := by
  intro h
  -- leaving the word out changes nothing in a numeral
  have hsame : Text.mapWords (fun v => if v = w then [] else v) n.text = n.text := by
    refine n.mapWords_text (fun d ds hd => if_neg ?_) hpoint
    rintro rfl
    rw [hdigit d rfl] at hd
    cases hd
  rw [← hsame] at h
  obtain ⟨v, hv, -, hleft⟩ := h.exists_of_mapWords hw
  split at hleft
  · exact not_hasWord_nil hw hleft
  · rename_i hne
    exact hne ((hasWord_whole_iff hw hv).1 hleft)

theorem IsPlainName.not_hasWord_number (h : IsPlainName name) (j : JsonNumber) :
    ¬HasWord name.toList j.text := by
  obtain ⟨n, htext, -, hstrict, -⟩ := j.exists_text_eq
  have hn : ¬HasWord name.toList n.text :=
    n.not_hasWord_text (fun hfraction => absurd hfraction hstrict.fraction_ne_nil) h.isWhole
      h.isDigit_eq_false
  rw [htext]
  cases j.isNegative with
  | false => exact hn
  | true => exact mt (hasWord_cons_iff h.isWhole (by decide)).1 hn

/-- A value that is no string does not hold the name of a variable. -/
theorem IsPlainName.not_hasWord_literal (h : IsPlainName name) {s : Scalar}
    (hs : ∀ t, s ≠ .string t) : ¬HasWord name.toList s.literal := by
  have hkeyword : ∀ word : String, (keyword? word).isSome → name ≠ word →
      ¬HasWord name.toList word.toList := fun word hword hne hhas =>
    hne (String.toList_inj.1
      ((hasWord_whole_iff h.isWhole (isName_of_keyword? hword).isWhole).1 hhas).symm)
  obtain ⟨htrue, hfalse, hnull⟩ := h.ne_keyword
  cases s with
  | null => exact hkeyword "null" rfl hnull
  | bool b =>
      cases b with
      | false => exact hkeyword "false" rfl hfalse
      | true => exact hkeyword "true" rfl htrue
  | number j => exact h.not_hasWord_number j
  | string t => exact absurd rfl (hs t)

/-! ## Putting a context in place twice -/

namespace Context

/-- The variables of a context do not get in each other's way: their names can be told from the words
of their values. -/
structure IsPlain (c : Context) : Prop where
  isPlainName : ∀ e ∈ c.entries, IsPlainName e.1
  ne_string : ∀ e ∈ c.entries, ∀ t, e.2 ≠ .string t

variable {c : Context}

theorem IsPlain.of_perm {order : Context} (h : c.IsPlain) (horder : order.entries.Perm c.entries) :
    order.IsPlain where
  isPlainName e he := h.isPlainName e (horder.mem_iff.1 he)
  ne_string e he := h.ne_string e (horder.mem_iff.1 he)

theorem IsPlain.not_hasWord_literal (h : c.IsPlain) {e f : String × Scalar} (he : e ∈ c.entries)
    (hf : f ∈ c.entries) : ¬HasWord e.1.toList f.2.literal :=
  (h.isPlainName e he).not_hasWord_literal (h.ne_string f hf)

/-- What a word gives way to stays as it is when the context is put in place again. -/
theorem IsPlain.mapWords_wordText (h : c.IsPlain) {w : List Char} (hw : IsWhole w) :
    Text.mapWords (wordText c.entries) (wordText c.entries w) = wordText c.entries w := by
  cases hfound : c.entries.find? (·.1.toList = w) with
  | none =>
      have hsame : wordText c.entries w = w := by rw [wordText, hfound, Option.elim_none]
      rw [hsame, Text.mapWords_whole hw, hsame]
  | some f =>
      have hf : f ∈ c.entries := List.mem_of_find?_eq_some hfound
      rw [wordText, hfound, Option.elim_some]
      refine Text.mapWords_of_hasWord fun v _ hmem => wordText_of_forall_ne fun e he => ?_
      rintro rfl
      exact h.not_hasWord_literal he hf hmem

/-- **Putting plain variables in place.**  Every word of a text that is the name of a variable gives
way to the value, and nothing else is changed; the order of the variables does not matter, and putting
them in place a second time changes nothing. -/
theorem substitute_of_isPlain (h : c.IsPlain) (source : String) :
    (c.substitute source).toList =
        Text.mapWords (fun w => ((c.get? (String.ofList w)).map Scalar.literal).getD w)
          source.toList ∧
      (∀ order : Context, order.entries.Perm c.entries →
        order.substitute source = c.substitute source) ∧
      c.substitute (c.substitute source) = c.substitute source := by
  have hchars : ∀ order : Context, order.entries.Perm c.entries → ∀ cs,
      order.substituteChars cs = Text.mapWords (wordText c.entries) cs := by
    intro order horder cs
    have hplain := h.of_perm horder
    rw [order.substituteChars_eq_mapWords (fun e he => (hplain.isPlainName e he).isWhole)
      (fun e he f hf _ => hplain.not_hasWord_literal he hf) cs]
    refine Text.mapWords_congr (fun w _ => ?_) cs
    rw [wordText_eq, wordText_eq, OrderedMap.get?_eq_of_perm horder]
  have hself := hchars c (.refl _)
  refine ⟨?_, fun order horder => ?_, ?_⟩
  · rw [substitute, String.toList_ofList, hself]
    exact Text.mapWords_congr (fun w _ => c.wordText_eq w) _
  · rw [substitute, substitute, hchars order horder, hself]
  · rw [substitute, substitute, String.toList_ofList, hself, hself, Text.mapWords_mapWords]
    exact congrArg String.ofList (Text.mapWords_congr (fun w hw => h.mapWords_wordText hw) _)

/-- A name that looks like an exponent, beside a value that has one. -/
theorem substitute_of_isPlain_exponent :
    let c : Context := OrderedMap.ofList [("e5", .number (.float 1.5e-7 (by decide))),
      ("été", .number (.negative 4 (by decide))), ("_", .null), ("y", .bool true)]
    let order : Context := OrderedMap.ofList c.entries.reverse
    let source := "1.e5 < été && \"_\" != y - éte5"
    let result := "1.1.5e-7 < -4 && \"null\" != true - éte5"
    c.IsPlain ∧
      result.toList =
        Text.mapWords (fun w => ((c.get? (String.ofList w)).map Scalar.literal).getD w)
          source.toList ∧
      order.substitute source = result ∧ c.substitute result = result := by
  intro c order source result
  have hnames : ∀ e ∈ c.entries, IsPlainName e.1 := by
    refine List.forall_iff_forall_mem.1 ⟨?_, ?_, ?_, ?_⟩ <;>
      exact ⟨⟨by decide, List.forall_iff_forall_mem.1 (by decide +kernel)⟩,
        by rintro _ ⟨⟩; decide, by decide⟩
  have hplain : c.IsPlain := by
    refine ⟨hnames, List.forall_iff_forall_mem.1 ⟨?_, ?_, ?_, ?_⟩⟩ <;> exact nofun
  have hresult : c.substitute source = result := by decide +kernel
  obtain ⟨hwords, horder, hagain⟩ := substitute_of_isPlain hplain source
  rw [hresult] at hwords horder hagain
  exact ⟨hplain, hwords, horder order (by decide), hagain⟩

end Context
end Workflow
