import Workflow.Proofs.Substitution

/-!
# Identifiers and whole words

A variable is put in place of the whole words that are its name, before the text is read; the
identifiers are what is found when it is read.  The two go apart in two ways.  A dollar sign is part
of an identifier but of no word, and after a point without digits the exponent of a number is a word
by itself.

* `mapIdents` changes the identifiers of a text, and `Lexeme.mapIdents_append` says that it goes
  lexeme by lexeme.
* `IsIdent.exists_of_standsAt` says where in a run of characters an identifier can stand as a whole
  word, and `Numeral.followsPoint_text_append_iff` where in a numeral.
* `Lexes.replaceFrom_eq_iff` compares the two ways from left to right.
* `toList_substitute_eq_mapIdents_iff` says when they agree.
-/

namespace Workflow

open Text (IsWhole Stops isBoundary isWord replaceFrom replaceFrom_cons_of_not
  replaceFrom_cons_of_standsAt replaceFrom_skip replaceFrom_word standsAt)

/-! ## Changing the identifiers of a text -/

/-- What is written for a token that was written as `chars`. -/
def Token.rewrite (σ : String → List Char) (chars : List Char) : Token → List Char
  | .ident name => σ name
  | .number _ | .string _ | .symbol _ => chars

/-- A text with every identifier changed.  From where it cannot be read it stays as it is. -/
def mapIdents (σ : String → List Char) : List Char → List Char
  | [] => []
  | c :: rest =>
    if Text.isBlank c then c :: mapIdents σ rest
    else
      match lexeme 0 c rest with
      | .error _ => c :: rest
      | .ok (token, width) =>
        token.rewrite σ (c :: rest.take (width - 1)) ++ mapIdents σ (rest.drop (width - 1))
termination_by cs => cs.length

variable {σ : String → List Char} {cs chars rest : List Char} {tokens : List Token} {token : Token}

@[simp] theorem mapIdents_nil : mapIdents σ [] = [] := by
  rw [mapIdents.eq_def]

theorem mapIdents_blank {c : Char} (hc : Text.isBlank c = true) :
    mapIdents σ (c :: cs) = c :: mapIdents σ cs := by
  rw [mapIdents.eq_def]
  exact if_pos hc

theorem Lexeme.mapIdents_append (h : Lexeme chars token rest) :
    mapIdents σ (chars ++ rest) = token.rewrite σ chars ++ mapIdents σ rest := by
  obtain ⟨c, cs, rfl, hstart⟩ := h.exists_eq_cons
  have hread : lexeme 0 c (cs ++ rest) = .ok (token, cs.length + 1) := h.lexeme_eq 0 rfl
  rw [List.cons_append, mapIdents.eq_def]
  simp only [hstart.isBlank_eq_false, Bool.false_eq_true, if_false, hread, Nat.add_sub_cancel,
    List.drop_left, List.take_left]

/-- The characters of an identifier. -/
def IsIdent (cs : List Char) : Prop :=
  ∃ c more, cs = c :: more ∧ isIdentStart c = true ∧ ∀ d ∈ more, isIdentContinue d = true

theorem Lexeme.ident_inv {name : String} (h : Lexeme chars (.ident name) rest) :
    chars = name.toList ∧ IsIdent name.toList ∧ ∀ d ∈ rest.head?, isIdentContinue d = false := by
  cases h with
  | ident hstart hcontinue hends =>
      rw [String.toList_ofList]
      exact ⟨rfl, ⟨_, _, rfl, hstart, hcontinue⟩, hends⟩

/-- A token stands somewhere in the text. -/
theorem Lexes.exists_lexeme (h : Lexes cs tokens) (hmem : token ∈ tokens) :
    ∃ before chars after, cs = before ++ (chars ++ after) ∧ Lexeme chars token after := by
  induction h with
  | nil => cases hmem
  | @blank c cs tokens _ _ ih =>
      obtain ⟨before, chars, after, rfl, hlexeme⟩ := ih hmem
      exact ⟨c :: before, chars, after, rfl, hlexeme⟩
  | @token front rest t tokens hfront _ ih =>
      rcases List.mem_cons.1 hmem with rfl | hmem
      · exact ⟨[], front, rest, rfl, hfront⟩
      · obtain ⟨before, chars, after, rfl, hlexeme⟩ := ih hmem
        exact ⟨front ++ before, chars, after, by rw [List.append_assoc], hlexeme⟩

/-- A text whose identifiers stay as they are stays as it is. -/
theorem Lexes.mapIdents_toList (h : Lexes cs tokens) : mapIdents String.toList cs = cs := by
  induction h with
  | nil => exact mapIdents_nil
  | blank hblank _ ih => rw [mapIdents_blank hblank, ih]
  | token hlexeme _ ih =>
      rw [hlexeme.mapIdents_append, ih]
      cases hlexeme with
      | ident => rw [Token.rewrite, String.toList_ofList]
      | number | string | symbol => rfl

/-! ## Dollar signs -/

theorem Symbol.isIdentContinue_eq_false (s : Symbol) :
    ∀ c ∈ s.text.toList, isIdentContinue c = false := by
  cases s <;> simp only [text, String.reduceToList, List.mem_cons, List.not_mem_nil, or_false,
    forall_eq_or_imp, forall_eq] <;> decide

theorem Symbol.point_notMem_text (s : Symbol) : '.' ∉ s.text.toList := by
  cases s <;> decide

theorem Exponent.isWord_of_isIdentContinue {x : Exponent} {c : Char} (h : c ∈ x.text)
    (hcontinue : isIdentContinue c = true) : isWord c = true := by
  rw [isWord_iff_of_isIdentContinue hcontinue]
  rintro rfl
  exact absurd (x.mem_text h) (by decide)

/-! ## Where a name stands -/

/-- Whether a text begins and ends with a word character. -/
def WordEnds (cs : List Char) : Prop :=
  (∀ c ∈ cs.head?, isWord c = true) ∧ ∀ c ∈ cs.getLast?, isWord c = true

/-- Whether a name stands as a whole word directly after a point. -/
def FollowsPoint (name cs : List Char) : Prop :=
  ∃ before after, cs = before ++ '.' :: (name ++ after) ∧ Stops after

section Name

variable {name replacement run : List Char} {before : Option Char}

/-- Where the name does not stand the text stays as it is. -/
theorem replaceFrom_append_of_not_standsAt
    (h : ∀ as bs, run = as ++ bs → bs ≠ [] →
      standsAt name (as.getLast?.or before) (bs ++ rest) = false) :
    replaceFrom name replacement 0 before (run ++ rest) =
      run ++ replaceFrom name replacement 0 (run.getLast?.or before) rest := by
  induction run generalizing before with
  | nil => rfl
  | cons c run ih =>
      have hlast : ∀ cs : List Char, (c :: cs).getLast?.or before = cs.getLast?.or (some c) := by
        intro cs
        rw [List.getLast?_cons]
        cases cs.getLast? <;> rfl
      have hstands : standsAt name before (c :: (run ++ rest)) = false :=
        h [] (c :: run) rfl (List.cons_ne_nil _ _)
      rw [List.cons_append, replaceFrom_cons_of_not hstands, hlast, ih, List.cons_append]
      rintro as bs rfl hbs
      rw [← hlast]
      exact h (c :: as) bs rfl hbs

/-- Characters that the name does not start with are passed over. -/
theorem replaceFrom_append_of_ne (hname : name ≠ []) (hrun : ∀ c ∈ run, name.head? ≠ some c) :
    replaceFrom name replacement 0 before (run ++ rest) =
      run ++ replaceFrom name replacement 0 (run.getLast?.or before) rest := by
  refine replaceFrom_append_of_not_standsAt ?_
  rintro as bs rfl hbs
  obtain ⟨c, bs, rfl⟩ := List.exists_cons_of_ne_nil hbs
  obtain ⟨d, more, rfl⟩ := List.exists_cons_of_ne_nil hname
  have hne : d ≠ c := fun heq => hrun c (by simp) (congrArg some heq)
  simp [standsAt, hne]

/-- A name that begins and ends with word characters is replaced where it is a whole word. -/
theorem replaceFrom_append_of_wordEnds (hname : name ≠ []) (hends : WordEnds name)
    (hbefore : before.any isWord = false) (hrest : Stops rest) :
    replaceFrom name replacement 0 before (name ++ rest) =
      replacement ++ replaceFrom name replacement 0 name.getLast? rest := by
  obtain ⟨c, more, rfl⟩ := List.exists_cons_of_ne_nil hname
  obtain ⟨last, hlast⟩ := Option.isSome_iff_exists.1 (List.getLast?_isSome.2 hname)
  have hstands : standsAt (c :: more) before (c :: (more ++ rest)) = true := by
    have hhead : isWord c = true := hends.1 c rfl
    have hback : rest.head?.any isWord = false := by
      cases rest with
      | nil => rfl
      | cons d rest => exact hrest d rfl
    simp [standsAt, isBoundary, hlast, hends.2 last hlast, hhead, hbefore, hback]
  rw [List.cons_append, replaceFrom_cons_of_standsAt hstands, replaceFrom_skip, List.getLast?_cons]
  cases more.getLast? <;> rfl

namespace IsIdent

theorem ne_nil (hname : IsIdent name) : name ≠ [] := by
  obtain ⟨c, more, rfl, -⟩ := hname
  exact List.cons_ne_nil _ _

theorem isIdentStart_of_mem_head? (hname : IsIdent name) :
    ∀ c ∈ name.head?, isIdentStart c = true := by
  obtain ⟨c, more, rfl, hstart, -⟩ := hname
  rintro d hd
  cases hd
  exact hstart

theorem isIdentContinue_of_mem (hname : IsIdent name) : ∀ c ∈ name, isIdentContinue c = true := by
  obtain ⟨c, more, rfl, hstart, hmore⟩ := hname
  rw [List.forall_mem_cons]
  exact ⟨isIdentContinue_iff.2 (.inl hstart), hmore⟩

theorem head?_ne (hname : IsIdent name) {c : Char} (hc : isIdentStart c = false) :
    name.head? ≠ some c := by
  intro hhead
  rw [hname.isIdentStart_of_mem_head? c hhead] at hc
  cases hc

theorem wordEnds_iff (hname : IsIdent name) :
    WordEnds name ↔ name.head? ≠ some '$' ∧ name.getLast? ≠ some '$' := by
  have hword : ∀ c ∈ name, isWord c = true ↔ c ≠ '$' := fun c hc =>
    isWord_iff_of_isIdentContinue (hname.isIdentContinue_of_mem c hc)
  constructor
  · rintro ⟨hhead, hlast⟩
    exact ⟨fun h => (hword _ (List.mem_of_head? h)).1 (hhead _ h) rfl,
      fun h => (hword _ (List.mem_of_getLast? h)).1 (hlast _ h) rfl⟩
  · rintro ⟨hhead, hlast⟩
    refine ⟨fun c hc => (hword c (List.mem_of_head? hc)).2 ?_,
      fun c hc => (hword c (List.mem_of_getLast? hc)).2 ?_⟩
    · rintro rfl
      exact hhead hc
    · rintro rfl
      exact hlast hc

/-- An identifier that stands in a run before which and in which it could not go on is in the run,
and has a word boundary at both ends. -/
theorem exists_of_standsAt (hname : IsIdent name)
    (hrest : ∀ c ∈ rest.head?, isIdentContinue c = false)
    (h : standsAt name before (run ++ rest) = true) :
    ∃ more, run = name ++ more ∧ isBoundary before name.head? = true ∧
      isBoundary name.getLast? (more ++ rest).head? = true := by
  rw [standsAt, Bool.and_eq_true, Bool.and_eq_true, List.isPrefixOf_iff_prefix] at h
  obtain ⟨⟨⟨after, hafter⟩, hfront⟩, hback⟩ := h
  obtain ⟨last, hlast⟩ := List.getLast?_isSome.2 hname.ne_nil |> Option.isSome_iff_exists.1
  rw [← hafter, List.drop_left, hlast, Option.some_or] at hback
  rw [← hafter, List.head?_append_of_ne_nil _ hname.ne_nil] at hfront
  rcases List.append_eq_append_iff.1 hafter with ⟨more, rfl, rfl⟩ | ⟨more, hsplit, rfl⟩
  · exact ⟨more, rfl, hfront, hlast ▸ hback⟩
  · cases more with
    | nil =>
        rw [List.append_nil] at hsplit
        exact ⟨[], by rw [hsplit, List.append_nil], hfront, hlast ▸ hback⟩
    | cons c more =>
        -- the name would go on where no identifier does
        have hc := hname.isIdentContinue_of_mem c (by simp [hsplit])
        rw [hrest c rfl] at hc
        cases hc

/-- A word without dollar signs holds no other identifier as a whole word. -/
theorem replaceFrom_whole (hname : IsIdent name) (hrun : IsWhole run) (hne : run ≠ name)
    (hrest : ∀ c ∈ rest.head?, isIdentContinue c = false) :
    replaceFrom name replacement 0 before (run ++ rest) =
      run ++ replaceFrom name replacement 0 (run.getLast?.or before) rest := by
  refine replaceFrom_append_of_not_standsAt fun as bs hsplit hbs => ?_
  rw [← Bool.not_eq_true]
  intro hstands
  obtain ⟨more, rfl, hfront, hback⟩ := hname.exists_of_standsAt hrest hstands
  have hword : ∀ c ∈ name, isWord c = true := fun c hc => hrun.2 c (by simp [hsplit, hc])
  obtain ⟨c, tail, rfl⟩ := List.exists_cons_of_ne_nil hname.ne_nil
  obtain ⟨last, hlast⟩ :=
    Option.isSome_iff_exists.1 (List.getLast?_isSome.2 (List.cons_ne_nil c tail))
  rcases List.eq_nil_or_concat as with rfl | ⟨as, b, rfl⟩
  · cases more with
    | nil => exact hne (by simpa using hsplit)
    | cons d more =>
        have hd : isWord d = true := hrun.2 d (by simp [hsplit])
        simp [isBoundary, hlast, hword last (List.mem_of_getLast? hlast), hd] at hback
  · have hb : isWord b = true := hrun.2 b (by simp [hsplit])
    simp [isBoundary, hb, hword c List.mem_cons_self] at hfront

/-- An identifier that begins or ends with a dollar sign is no whole word. -/
theorem replaceFrom_self (hname : IsIdent name) (hends : ¬WordEnds name)
    (hbefore : before.any isWord = false) (hrest : ∀ c ∈ rest.head?, isIdentContinue c = false)
    (hstops : Stops rest) :
    replaceFrom name replacement 0 before (name ++ rest) =
      name ++ replaceFrom name replacement 0 name.getLast? rest := by
  have hlast : name.getLast?.or before = name.getLast? :=
    Option.or_of_isSome (List.getLast?_isSome.2 hname.ne_nil)
  rw [replaceFrom_append_of_not_standsAt, hlast]
  intro as bs hsplit hbs
  rw [← Bool.not_eq_true]
  intro hstands
  obtain ⟨more, rfl, hfront, hback⟩ := hname.exists_of_standsAt hrest hstands
  -- nothing but the whole is as long as the name
  have hlength := congrArg List.length hsplit
  rw [List.length_append, List.length_append] at hlength
  obtain rfl : as = [] := List.eq_nil_of_length_eq_zero (by omega)
  obtain rfl : more = [] := List.eq_nil_of_length_eq_zero (by omega)
  have hafter : rest.head?.any isWord = false := by
    cases rest with
    | nil => rfl
    | cons d rest => exact hstops d rfl
  simp only [List.getLast?_nil, Option.none_or, isBoundary, hbefore, List.nil_append, hafter] at hfront hback
  exact hends ⟨fun c hc => by simpa [Option.mem_def.1 hc] using hfront,
    fun c hc => by simpa [Option.mem_def.1 hc] using hback⟩

end IsIdent

end Name

/-! ## Names after a point -/

section Point

variable {name replacement run : List Char} {before : Option Char}

theorem followsPoint_cons_iff {c : Char} : FollowsPoint name (c :: cs) ↔
    (c = '.' ∧ ∃ after, cs = name ++ after ∧ Stops after) ∨ FollowsPoint name cs := by
  constructor
  · rintro ⟨before, after, heq, hafter⟩
    cases before with
    | nil =>
        obtain ⟨rfl, rfl⟩ := List.cons.inj heq
        exact .inl ⟨rfl, after, rfl, hafter⟩
    | cons b before =>
        obtain ⟨rfl, rfl⟩ := List.cons.inj heq
        exact .inr ⟨before, after, rfl, hafter⟩
  · rintro (⟨rfl, after, rfl, hafter⟩ | ⟨before, after, rfl, hafter⟩)
    · exact ⟨[], after, rfl, hafter⟩
    · exact ⟨c :: before, after, rfl, hafter⟩

theorem not_followsPoint_nil : ¬FollowsPoint name [] := by
  rintro ⟨before, after, heq, -⟩
  exact List.cons_ne_nil _ _ (List.append_eq_nil_iff.1 heq.symm).2

theorem followsPoint_append_iff (hrun : '.' ∉ run) :
    FollowsPoint name (run ++ rest) ↔ FollowsPoint name rest := by
  induction run with
  | nil => rfl
  | cons c run ih =>
      rw [List.mem_cons, not_or] at hrun
      rw [List.cons_append, followsPoint_cons_iff, ih hrun.2, or_iff_right]
      exact fun h => hrun.1 h.1.symm

namespace Numeral

/-- Whether the exponent of a numeral stands right after the point and begins with the name as a
whole word. -/
def ShowsWord (n : Numeral) (name rest : List Char) : Prop :=
  n.fraction? = some [] ∧
    ∃ x after, n.exponent? = some x ∧ x.text ++ rest = name ++ after ∧ Stops after

variable {n : Numeral}

theorem point_notMem_exponent (x? : Option Exponent) : '.' ∉ x?.elim [] Exponent.text := by
  cases x? with
  | none => exact List.not_mem_nil
  | some x =>
      intro h
      exact absurd (Exponent.mem_text h) (by decide)

theorem point_notMem_digits {ds : List Char} (hds : ∀ c ∈ ds, c.isDigit = true) : '.' ∉ ds :=
  fun h => absurd (hds _ h) (by decide)

/-- In a numeral a name follows the point only as its exponent. -/
theorem followsPoint_text_append_iff (hname : IsIdent name) (hn : n.Ends rest) :
    FollowsPoint name (n.text ++ rest) ↔ n.ShowsWord name rest ∨ FollowsPoint name rest := by
  have hwhole := point_notMem_digits n.isDigit_whole
  rw [ShowsWord, text, mantissa]
  cases hfraction : n.fraction? with
  | none =>
      rw [Option.elim_none, List.append_nil, List.append_assoc, followsPoint_append_iff hwhole,
        followsPoint_append_iff (point_notMem_exponent _)]
      simp
  | some ds =>
      have hdigits := point_notMem_digits (n.isDigit_fraction ds hfraction)
      rw [Option.elim_some, List.append_assoc, List.append_assoc, List.cons_append,
        followsPoint_append_iff hwhole, followsPoint_cons_iff, followsPoint_append_iff hdigits,
        followsPoint_append_iff (point_notMem_exponent _)]
      refine or_congr_left ⟨?_, ?_⟩
      · rintro ⟨-, after, heq, hafter⟩
        have hhead : ∀ c ∈ (ds ++ (n.exponent?.elim [] Exponent.text ++ rest)).head?,
            isIdentStart c = true := by
          rw [heq, List.head?_append_of_ne_nil _ hname.ne_nil]
          exact hname.isIdentStart_of_mem_head?
        cases ds with
        | cons d ds =>
            have hd : d.isDigit = true := n.isDigit_fraction _ hfraction d List.mem_cons_self
            have hstart := (classes_of_isIdentStart (hhead d rfl)).2.1
            rw [hd] at hstart
            cases hstart
        | nil =>
            cases hexponent : n.exponent? with
            | some x => exact ⟨rfl, x, after, rfl, by rw [← heq, hexponent]; rfl, hafter⟩
            | none =>
                rw [hexponent] at hhead
                cases rest with
                | nil =>
                    rw [hexponent] at heq
                    exact absurd (List.append_eq_nil_iff.1 heq.symm).1 hname.ne_nil
                | cons c rest =>
                    have hc := hhead c rfl
                    rw [(hn c rfl).2.1] at hc
                    cases hc
      · rintro ⟨hnil, x, after, hexponent, heq, hafter⟩
        cases hnil
        exact ⟨rfl, after, by rw [hexponent]; exact heq, hafter⟩

/-- The mantissa ends with a digit unless it ends with the point. -/
theorem isWord_getLast?_mantissa (h : n.fraction? ≠ some []) :
    n.mantissa.getLast?.any isWord = true := by
  have hdigits : ∀ ds : List Char, ds ≠ [] → (∀ c ∈ ds, c.isDigit = true) →
      ds.getLast?.any isWord = true := by
    intro ds hne hds
    rw [List.getLast?_eq_some_getLast hne]
    exact isWord_of_isDigit (hds _ (List.getLast_mem hne))
  rw [mantissa]
  cases hfraction : n.fraction? with
  | none =>
      rw [Option.elim_none, List.append_nil]
      exact hdigits _ (by simpa [hfraction] using n.digits_ne_nil) n.isDigit_whole
  | some ds =>
      have hne : ds ≠ [] := fun heq => h (heq ▸ hfraction)
      obtain ⟨d, ds, rfl⟩ := List.exists_cons_of_ne_nil hne
      rw [Option.elim_some, List.getLast?_append_of_ne_nil _ (List.cons_ne_nil _ _),
        List.getLast?_cons_cons]
      exact hdigits _ hne (n.isDigit_fraction _ hfraction)

theorem isIdentStart_of_mem_mantissa : ∀ c ∈ n.mantissa, isIdentStart c = false := by
  intro c hc
  rw [mantissa, List.mem_append] at hc
  rcases hc with hc | hc
  · exact isIdentStart_eq_false_of_isDigit (n.isDigit_whole c hc)
  · cases hfraction : n.fraction? with
    | none => simp [hfraction] at hc
    | some ds =>
        rw [hfraction, Option.elim_some, List.mem_cons] at hc
        rcases hc with rfl | hc
        · decide
        · exact isIdentStart_eq_false_of_isDigit (n.isDigit_fraction ds hfraction c hc)

theorem mantissa_ne_nil (n : Numeral) : n.mantissa ≠ [] := by
  intro h
  rw [mantissa, List.append_eq_nil_iff] at h
  refine n.digits_ne_nil ?_
  cases hfraction : n.fraction? with
  | none => simp [h.1]
  | some ds => simp [hfraction] at h

/-- A numeral stays as it is unless its exponent is the name. -/
theorem replaceFrom_text_append (hname : IsIdent name) (hn : n.Ends rest)
    (h : WordEnds name → ¬n.ShowsWord name rest) :
    replaceFrom name replacement 0 before (n.text ++ rest) =
      n.text ++ replaceFrom name replacement 0 n.text.getLast? rest := by
  have hmantissa : ∀ c ∈ n.mantissa, name.head? ≠ some c := fun c hc =>
    hname.head?_ne (isIdentStart_of_mem_mantissa c hc)
  have hlast : n.mantissa.getLast?.or before = n.mantissa.getLast? :=
    Option.or_of_isSome (List.getLast?_isSome.2 n.mantissa_ne_nil)
  have hrest : ∀ c ∈ rest.head?, isIdentContinue c = false := by
    intro c hc
    rw [isIdentContinue, (hn c hc).2.1, (hn c hc).1, Bool.or_false]
  rw [text]
  cases hexponent : n.exponent? with
  | none =>
      rw [Option.elim_none, List.append_nil, replaceFrom_append_of_ne hname.ne_nil hmantissa, hlast]
  | some x =>
      rw [Option.elim_some, List.append_assoc, replaceFrom_append_of_ne hname.ne_nil hmantissa, hlast]
      have hstands : standsAt name n.mantissa.getLast? (x.text ++ rest) = false := by
        rw [← Bool.not_eq_true]
        intro hstands
        obtain ⟨more, hsplit, hfront, hback⟩ := hname.exists_of_standsAt hrest hstands
        -- all of the name is in the exponent, so it has no dollar signs
        have hword : ∀ c ∈ name, isWord c = true := fun c hc =>
          Exponent.isWord_of_isIdentContinue (hsplit ▸ List.mem_append_left _ hc)
            (hname.isIdentContinue_of_mem c hc)
        have hhead : name.head?.any isWord = true := by
          obtain ⟨c, cs, rfl⟩ := List.exists_cons_of_ne_nil hname.ne_nil
          exact hword c List.mem_cons_self
        have hend : name.getLast?.any isWord = true := by
          rw [List.getLast?_eq_some_getLast hname.ne_nil]
          exact hword _ (List.getLast_mem hname.ne_nil)
        have hpoint : n.fraction? = some [] := by
          by_contra hne
          simp [isBoundary, isWord_getLast?_mantissa hne, hhead] at hfront
        refine h ⟨fun c hc => hword c (List.mem_of_head? hc),
          fun c hc => hword c (List.mem_of_getLast? hc)⟩
          ⟨hpoint, x, more ++ rest, hexponent, by rw [hsplit, List.append_assoc], fun c hc => ?_⟩
        simpa [isBoundary, hend, Option.mem_def.1 hc] using hback
      have htail : ∀ c ∈ x.sign ++ x.digits, name.head? ≠ some c := by
        intro c hc
        refine hname.head?_ne ?_
        rcases List.mem_append.1 hc with hc | hc
        · rcases x.sign_eq with hsign | hsign | hsign <;> rw [hsign] at hc
          · cases hc
          · cases List.mem_singleton.1 hc
            decide
          · cases List.mem_singleton.1 hc
            decide
        · exact isIdentStart_eq_false_of_isDigit (x.isDigit_of_mem c hc)
      rw [Exponent.text, List.cons_append] at hstands ⊢
      have hend : (n.mantissa ++ x.mark :: (x.sign ++ x.digits)).getLast? =
          (x.sign ++ x.digits).getLast?.or (some x.mark) := by
        rw [List.getLast?_append_of_ne_nil _ (List.cons_ne_nil _ _), List.getLast?_cons]
        cases (x.sign ++ x.digits).getLast? <;> rfl
      rw [replaceFrom_cons_of_not hstands, replaceFrom_append_of_ne hname.ne_nil htail, hend,
        List.append_assoc _ (_ :: _), List.cons_append]

/-- An exponent that is the name gives way, and the numeral is not what it was. -/
theorem replaceFrom_text_append_ne (hname : IsIdent name) (hends : WordEnds name)
    (h : n.ShowsWord name rest) (hhead : ∃ d, replacement.head? = some d ∧ d ≠ 'e' ∧ d ≠ 'E')
    (more : List Char) : replaceFrom name replacement 0 before (n.text ++ rest) ≠ n.text ++ more := by
  obtain ⟨hpoint, x, after, hexponent, heq, hafter⟩ := h
  obtain ⟨d, hd, hlower, hupper⟩ := hhead
  have hmantissa : ∀ c ∈ n.mantissa, name.head? ≠ some c := fun c hc =>
    hname.head?_ne (isIdentStart_of_mem_mantissa c hc)
  have hlast : n.mantissa.getLast?.or before = some '.' := by
    rw [mantissa, hpoint, Option.elim_some, List.getLast?_concat, Option.some_or]
  rw [text, hexponent, Option.elim_some, List.append_assoc, List.append_assoc,
    replaceFrom_append_of_ne hname.ne_nil hmantissa, hlast, heq,
    replaceFrom_append_of_wordEnds hname.ne_nil hends (by decide) hafter, Ne,
    List.append_right_inj]
  intro hsame
  have hmark := congrArg List.head? hsame
  rw [List.head?_append, hd, Option.some_or] at hmark
  obtain rfl : d = x.mark := Option.some.inj hmark
  rcases x.mark_eq with hmark | hmark
  · exact hlower hmark
  · exact hupper hmark

/-- A numeral comes out as it is just if its exponent is not the name. -/
theorem replaceFrom_text_append_eq_iff (hname : IsIdent name) (hn : n.Ends rest)
    (hhead : ∃ d, replacement.head? = some d ∧ d ≠ 'e' ∧ d ≠ 'E') (more : List Char) :
    replaceFrom name replacement 0 before (n.text ++ rest) = n.text ++ more ↔
      (WordEnds name → ¬n.ShowsWord name rest) ∧
        replaceFrom name replacement 0 n.text.getLast? rest = more := by
  constructor
  · intro heq
    have hshows : WordEnds name → ¬n.ShowsWord name rest := fun hends h =>
      replaceFrom_text_append_ne hname hends h hhead more heq
    rw [replaceFrom_text_append hname hn hshows, List.append_right_inj] at heq
    exact ⟨hshows, heq⟩
  · rintro ⟨hshows, rfl⟩
    exact replaceFrom_text_append hname hn hshows

end Numeral

end Point

/-! ## The two ways compared -/

section Agreement

variable {name : String} {replacement text : List Char} {before : Option Char}

/-- The tokens of an expression without strings that has the name as an operand besides the
keywords. -/
def Token.IsOperandOf (name : String) : Token → Prop
  | .string _ => False
  | .ident other => other = name ∨ (keyword? other).isSome
  | _ => True

/-- The change that puts a text in the place of one identifier. -/
def setIdent (name : String) (text : List Char) (other : String) : List Char :=
  if other = name then text else other.toList

/-- What lies between two lexemes, or is a symbol, is passed over. -/
theorem replaceFrom_append_of_isIdentContinue_eq_false (hname : IsIdent name.toList)
    (hne : chars ≠ []) (hchars : ∀ c ∈ chars, isIdentContinue c = false) :
    replaceFrom name.toList replacement 0 before (chars ++ rest) =
      chars ++ replaceFrom name.toList replacement 0 chars.getLast? rest := by
  have hpass : ∀ c ∈ chars, name.toList.head? ≠ some c := fun c hc =>
    hname.head?_ne (isIdentStart_eq_false_of_isIdentContinue (hchars c hc))
  rw [replaceFrom_append_of_ne hname.ne_nil hpass,
    Option.or_of_isSome (List.getLast?_isSome.2 hne)]

/-- The identifiers of an expression come out as they should if the name is a word, and as they are
if it is none. -/
theorem replaceFrom_ident_append (hname : IsIdent name.toList) (hchars : IsIdent chars)
    (htoken : (Token.ident (String.ofList chars)).IsOperandOf name)
    (hends : WordEnds name.toList → text = replacement)
    (hdollar : ¬WordEnds name.toList → text = name.toList) (hbefore : before.any isWord = false)
    (hrest : ∀ c ∈ rest.head?, isIdentContinue c = false) (hstops : Stops rest) :
    replaceFrom name.toList replacement 0 before (chars ++ rest) =
      setIdent name text (String.ofList chars) ++
        replaceFrom name.toList replacement 0 chars.getLast? rest := by
  rw [setIdent]
  split
  · next heq =>
      have hlist : chars = name.toList := by rw [← heq, String.toList_ofList]
      rw [hlist]
      by_cases hword : WordEnds name.toList
      · rw [replaceFrom_append_of_wordEnds hname.ne_nil hword hbefore hstops, hends hword]
      · rw [hname.replaceFrom_self hword hbefore hrest hstops, hdollar hword]
  · next hne =>
      have hwhole := (isName_of_keyword? (htoken.resolve_left hne)).isWhole
      rw [String.toList_ofList] at hwhole ⊢
      have hother : chars ≠ name.toList := fun hlist => hne (by rw [hlist, String.ofList_toList])
      rw [hname.replaceFrom_whole hwhole hother hrest,
        Option.or_of_isSome (List.getLast?_isSome.2 hchars.ne_nil)]

/-- **From left to right** the words and the identifiers agree, unless an exponent after a point is
the name.  An identifier that is no whole word stays as it is. -/
theorem Lexes.replaceFrom_eq_iff (h : Lexes cs tokens) (hname : IsIdent name.toList)
    (htokens : ∀ token ∈ tokens, token.IsOperandOf name)
    (hhead : ∃ d, replacement.head? = some d ∧ d ≠ 'e' ∧ d ≠ 'E')
    (hends : WordEnds name.toList → text = replacement)
    (hdollar : ¬WordEnds name.toList → text = name.toList)
    (hbefore : ∀ b ∈ before, isWord b = true → ∀ c ∈ cs.head?, isIdentContinue c = false) :
    replaceFrom name.toList replacement 0 before cs = mapIdents (setIdent name text) cs ↔
      (WordEnds name.toList → ¬FollowsPoint name.toList cs) := by
  induction h generalizing before with
  | nil => simp [replaceFrom, hname.ne_nil, not_followsPoint_nil]
  | @blank c cs tokens hblank _ ih =>
      have hchars : ∀ d ∈ [c], isIdentContinue d = false := by
        simpa using isIdentContinue_eq_false_of_isBlank hblank
      have hpass : replaceFrom name.toList replacement 0 before (c :: cs) =
          c :: replaceFrom name.toList replacement 0 (some c) cs :=
        replaceFrom_append_of_isIdentContinue_eq_false hname (List.cons_ne_nil c []) hchars
      have hpoint : c ≠ '.' := by
        rintro rfl
        exact absurd hblank (by decide)
      have hnext : ∀ b ∈ some c, isWord b = true → ∀ d ∈ cs.head?, isIdentContinue d = false := by
        rintro b hb hword
        cases hb
        rw [Text.isWord_eq_false_of_isBlank hblank] at hword
        cases hword
      rw [hpass, mapIdents_blank hblank, List.cons_inj_right, ih htokens hnext,
        followsPoint_cons_iff, or_iff_right fun h => hpoint h.1]
  | @token chars rest token tokens hlexeme hrest ih =>
      obtain ⟨htoken, hmore⟩ := List.forall_mem_cons.1 htokens
      rw [hlexeme.mapIdents_append]
      cases hlexeme with
      | string => exact htoken.elim
      | @symbol s _ _ =>
          have hne : s.text.toList ≠ [] := by
            obtain ⟨d, ds, htext, -⟩ := s.exists_text_eq
            simp [htext]
          have hnext : ∀ b ∈ s.text.toList.getLast?, isWord b = true →
              ∀ c ∈ rest.head?, isIdentContinue c = false := by
            intro b hb hword
            rw [s.isWord_eq_false b (List.mem_of_getLast? hb)] at hword
            cases hword
          rw [replaceFrom_append_of_isIdentContinue_eq_false hname hne s.isIdentContinue_eq_false,
            Token.rewrite, List.append_right_inj, ih hmore hnext,
            followsPoint_append_iff s.point_notMem_text]
      | @number n _ hn =>
          have hnext : ∀ b ∈ n.text.getLast?, isWord b = true →
              ∀ c ∈ rest.head?, isIdentContinue c = false := by
            intro b _ _ c hc
            rw [isIdentContinue, (hn c hc).2.1, (hn c hc).1, Bool.or_false]
          rw [Token.rewrite, Numeral.replaceFrom_text_append_eq_iff hname hn hhead, ih hmore hnext,
            Numeral.followsPoint_text_append_iff hname hn, ← imp_and, not_or]
      | @ident c cs _ hstart hcontinue hrestContinue =>
          have hchars : IsIdent (c :: cs) := ⟨c, cs, rfl, hstart, hcontinue⟩
          have hbefore : before.any isWord = false := by
            rw [← Bool.not_eq_true, Option.any_eq_true]
            rintro ⟨b, hb, hword⟩
            have hc := hbefore b hb hword c rfl
            rw [isIdentContinue, hstart] at hc
            cases hc
          have hpoint : '.' ∉ c :: cs := fun h =>
            ne_point_of_isIdentContinue (hchars.isIdentContinue_of_mem _ h) rfl
          rw [replaceFrom_ident_append hname hchars htoken hends hdollar hbefore hrestContinue
            (hrest.stops hrestContinue), Token.rewrite, List.append_right_inj,
            ih hmore fun _ _ _ => hrestContinue, followsPoint_append_iff hpoint]

end Agreement

/-! ## Numbers, booleans and null -/

theorem Numeral.dollar_notMem_text (n : Numeral) : '$' ∉ n.text := by
  intro h
  exact absurd (mem_text h) (by decide)

/-- Dollar signs are in strings and identifiers only. -/
theorem Lexes.dollar_notMem_mapIdents (h : Lexes cs tokens) (hstring : ∀ s, Token.string s ∉ tokens)
    (hident : ∀ name, Token.ident name ∈ tokens → '$' ∉ σ name) : '$' ∉ mapIdents σ cs := by
  induction h with
  | nil => simp
  | blank hblank _ ih =>
      rw [mapIdents_blank hblank, List.mem_cons, not_or]
      refine ⟨?_, ih hstring hident⟩
      rintro rfl
      exact absurd hblank (by decide)
  | @token chars rest token tokens hlexeme _ ih =>
      have hrest := ih (fun s hs => hstring s (List.mem_cons_of_mem _ hs))
        fun name hname => hident name (List.mem_cons_of_mem _ hname)
      rw [hlexeme.mapIdents_append, List.mem_append, not_or]
      refine ⟨?_, hrest⟩
      cases hlexeme with
      | number => exact Numeral.dollar_notMem_text _
      | string => exact absurd List.mem_cons_self (hstring _)
      | ident => exact hident _ List.mem_cons_self
      | @symbol s _ _ => exact fun h => absurd (s.isIdentContinue_eq_false _ h) (by decide)

theorem Scalar.dollar_notMem_literal {s : Scalar} (hs : ∀ t, s ≠ .string t) : '$' ∉ s.literal := by
  cases s with
  | null => decide
  | bool b => cases b <;> decide
  | string t => exact absurd rfl (hs t)
  | number j =>
      obtain ⟨n, htext, -⟩ := j.exists_text_eq
      change '$' ∉ j.text
      rw [htext, List.mem_append, not_or]
      refine ⟨?_, n.dollar_notMem_text⟩
      cases j.isNegative <;> decide

/-- **Words and identifiers agree.**  In a text without strings whose identifiers are keywords and one
name, putting a number, a boolean or null in the place of the name changes the identifiers that are
the name and nothing else, exactly if the name neither begins nor ends with a dollar sign and is
nowhere a whole word right after a point. -/
theorem toList_substitute_eq_mapIdents_iff {source name : String} {tokens : List Token} {s : Scalar}
    (hread : tokenize source = .ok tokens) (htokens : ∀ token ∈ tokens, token.IsOperandOf name)
    (hmem : .ident name ∈ tokens) (hs : ∀ t, s ≠ .string t) :
    (Context.substitute (OrderedMap.empty.insert name s) source).toList =
        mapIdents (setIdent name s.literal) source.toList ↔
      name.toList.head? ≠ some '$' ∧ name.toList.getLast? ≠ some '$' ∧
        ¬FollowsPoint name.toList source.toList := by
  have hlexes := tokenize_eq_ok_iff.1 hread
  obtain ⟨front, chars, after, hsource, hlexeme⟩ := hlexes.exists_lexeme hmem
  obtain ⟨rfl, hname, -⟩ := hlexeme.ident_inv
  obtain ⟨d, hhead, -, hlower, hupper⟩ := s.exists_head?_literal
  have hreplace : (Context.substitute (OrderedMap.empty.insert name s) source).toList =
      replaceFrom name.toList s.literal 0 none source.toList := by
    rw [Context.substitute, String.toList_ofList]
    rfl
  rw [hreplace, ← and_assoc, ← hname.wordEnds_iff]
  by_cases hends : WordEnds name.toList
  · rw [hlexes.replaceFrom_eq_iff hname htokens ⟨d, hhead, hlower, hupper⟩ (fun _ => rfl)
      (fun h => absurd hends h) (by simp), imp_iff_right hends, and_iff_right hends]
  · refine iff_of_false (fun heq => ?_) fun h => hends h.1
    -- nothing is replaced, but no dollar sign may be left
    have hsame : setIdent name name.toList = String.toList := by
      funext other
      rw [setIdent]
      split
      · next h => rw [h]
      · rfl
    have hself : replaceFrom name.toList s.literal 0 none source.toList =
        mapIdents (setIdent name name.toList) source.toList :=
      (hlexes.replaceFrom_eq_iff hname htokens ⟨d, hhead, hlower, hupper⟩
        (fun h => absurd h hends) (fun _ => rfl) (by simp)).2 fun h => absurd h hends
    rw [hsame, hlexes.mapIdents_toList] at hself
    have hdollar : '$' ∈ source.toList := by
      have hmemName : '$' ∈ name.toList := by
        rw [hname.wordEnds_iff, not_and_or, not_not, not_not] at hends
        exact hends.elim List.mem_of_head? List.mem_of_getLast?
      rw [hsource]
      simp [hmemName]
    rw [← hself, heq] at hdollar
    refine hlexes.dollar_notMem_mapIdents (fun t ht => htokens _ ht) (fun other hother => ?_) hdollar
    rw [setIdent]
    split
    · exact Scalar.dollar_notMem_literal hs
    · next hne =>
        have hkeyword := isName_of_keyword? ((htokens _ hother).resolve_left hne)
        exact fun h => absurd (hkeyword.isWord_of_mem _ h) (by decide)

/-- A name that looks like an exponent, beside numbers. -/
theorem toList_substitute_eq_mapIdents_exponent :
    let source := "1.5e5 < !e5 == true"
    let c : Context := OrderedMap.empty.insert "e5" (.number (.negative 2 (by decide)))
    let tokens : List Token := [.number (Decimal.toFloat ⟨15, 4⟩), .symbol .less, .symbol .bang,
      .ident "e5", .symbol .equal, .ident "true"]
    tokenize source = .ok tokens ∧ (∀ token ∈ tokens, token.IsOperandOf "e5") ∧
      .ident "e5" ∈ tokens ∧
      (c.substitute source).toList = mapIdents (setIdent "e5" "-2".toList) source.toList := by
  intro source c tokens
  have hread : tokenize source = .ok tokens := by decide +kernel
  have htokens : ∀ token ∈ tokens, token.IsOperandOf "e5" := by
    simp [tokens, Token.IsOperandOf, keyword?]
  have hmem : .ident "e5" ∈ tokens := by simp [tokens]
  have hpoint : ¬FollowsPoint "e5".toList source.toList := by
    simp +decide [source, followsPoint_cons_iff, not_followsPoint_nil]
  exact ⟨hread, htokens, hmem, (toList_substitute_eq_mapIdents_iff hread htokens hmem (by simp)).2
    ⟨by decide, by decide, hpoint⟩⟩

/-- A name that begins with a dollar sign is not found, and an exponent that is the name is taken for
it. -/
theorem toList_substitute_ne_mapIdents :
    let dollar : Context := OrderedMap.empty.insert "$x" (.ofNat 5)
    let exponent : Context := OrderedMap.empty.insert "e5" (.ofNat 2)
    (tokenize "$x > 1" =
        .ok [.ident "$x", .symbol .greater, .number (Decimal.toFloat ⟨1, 0⟩)] ∧
      dollar.substitute "$x > 1" = "$x > 1" ∧
      mapIdents (setIdent "$x" "5".toList) "$x > 1".toList = "5 > 1".toList) ∧
    tokenize "1.e5 + e5" = .ok [.number (Decimal.toFloat ⟨1, 5⟩), .symbol .plus, .ident "e5"] ∧
      exponent.substitute "1.e5 + e5" = "1.2 + 2" ∧
      mapIdents (setIdent "e5" "2".toList) "1.e5 + e5".toList = "1.e5 + 2".toList := by
  refine ⟨⟨?_, ?_, ?_⟩, ?_, ?_, ?_⟩ <;> decide +kernel

end Workflow
