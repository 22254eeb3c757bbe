import Workflow.Proofs.Characters

/-!
# Whole words

Replacing a name is a map over the words of a text, a word being a maximal run of word characters;
so what a whole context does to a text is a map over its words, too, unless the value of a variable
holds the name of another one.

* `Text.mapWords` changes every word of a text.
* `Text.replaceWhole_eq_mapWords` says that this is what a replacement does.
* `Text.mapWords_mapWords` says that one change after another is one change.
* `Text.HasWord` is whether a text has a name as a word; `Text.hasWord_append_iff` takes it apart, and
  `Text.HasWord.exists_of_mapWords` says where the words of a changed text come from.
* `Context.substituteChars_eq_mapWords` puts all variables of a context in place at once.
-/

namespace Workflow

namespace Text

/-! ## Changing the words of a text -/

/-- A text with every word changed. -/
def mapWords (σ : List Char → List Char) : List Char → List Char
  | [] => []
  | c :: cs =>
    if isWord c then σ (c :: cs.takeWhile isWord) ++ mapWords σ (cs.dropWhile isWord)
    else c :: mapWords σ cs
termination_by cs => cs.length
decreasing_by
  · exact Nat.lt_succ_of_le (List.dropWhile_sublist _).length_le
  · simp

/-- A word with nothing before or after it: word characters, and at least one. -/
def IsWhole (w : List Char) : Prop :=
  w ≠ [] ∧ ∀ c ∈ w, isWord c = true

/-- Whether a text neither ends nor goes on with a word character. -/
def Stops (cs : List Char) : Prop :=
  ∀ c ∈ cs.head?, isWord c = false

@[simp] theorem stops_nil : Stops [] :=
  nofun

variable {σ τ : List Char → List Char} {w rest cs : List Char} {c : Char}

@[simp] theorem mapWords_nil : mapWords σ [] = [] := by
  rw [mapWords]

theorem mapWords_cons (hc : isWord c = false) : mapWords σ (c :: cs) = c :: mapWords σ cs := by
  rw [mapWords, if_neg (by simp [hc])]

theorem mapWords_word (hw : IsWhole w) (hrest : Stops rest) :
    mapWords σ (w ++ rest) = σ w ++ mapWords σ rest := by
  obtain ⟨hne, hword⟩ := hw
  obtain ⟨c, cs, rfl⟩ := List.exists_cons_of_ne_nil hne
  have hcs : ∀ d ∈ cs, isWord d = true := fun d hd => hword d (List.mem_cons_of_mem _ hd)
  rw [List.cons_append, mapWords, if_pos (hword c List.mem_cons_self),
    takeWhile_append_eq hcs hrest, dropWhile_append_eq hcs hrest]

theorem mapWords_whole (hw : IsWhole w) : mapWords σ w = σ w := by
  have hword : mapWords σ (w ++ []) = σ w ++ mapWords σ [] := mapWords_word hw stops_nil
  rwa [List.append_nil, mapWords_nil, List.append_nil] at hword

/-- A text is nothing, a character between words and a text, or a word and a text that goes on
without a word character. -/
theorem wordInduction {motive : List Char → Prop} (nil : motive [])
    (other : ∀ c cs, isWord c = false → motive cs → motive (c :: cs))
    (word : ∀ w rest, IsWhole w → Stops rest → motive rest → motive (w ++ rest))
    (cs : List Char) : motive cs := by
  induction cs using mapWords.induct with
  | case1 => exact nil
  | case2 c cs hc ih =>
      have hword : IsWhole (c :: cs.takeWhile isWord) := by
        refine ⟨List.cons_ne_nil _ _, fun d hd => ?_⟩
        rcases List.mem_cons.1 hd with rfl | hd
        · exact hc
        · exact eq_true_of_mem_takeWhile d hd
      have := word _ _ hword head?_dropWhile_eq_false ih
      rwa [List.cons_append, List.takeWhile_append_dropWhile] at this
  | case3 c cs hc ih => exact other c cs (Bool.eq_false_iff.2 hc) ih

/-- A change that leaves the words alone leaves the text alone. -/
theorem mapWords_id (h : ∀ w, IsWhole w → σ w = w) (cs : List Char) : mapWords σ cs = cs := by
  induction cs using wordInduction with
  | nil => exact mapWords_nil
  | other c cs hc ih => rw [mapWords_cons hc, ih]
  | word w rest hw hrest ih => rw [mapWords_word hw hrest, h w hw, ih]

theorem mapWords_congr (h : ∀ w, IsWhole w → σ w = τ w) (cs : List Char) :
    mapWords σ cs = mapWords τ cs := by
  induction cs using wordInduction with
  | nil => rw [mapWords_nil, mapWords_nil]
  | other c cs hc ih => rw [mapWords_cons hc, mapWords_cons hc, ih]
  | word w rest hw hrest ih => rw [mapWords_word hw hrest, mapWords_word hw hrest, h w hw, ih]

/-- What follows a word, or what no word is in front of, is not affected by what is changed. -/
theorem Stops.mapWords (h : Stops cs) : (Text.mapWords σ cs).head? = cs.head? := by
  cases cs with
  | nil => rw [mapWords_nil]
  | cons c cs => rw [mapWords_cons (h c rfl)]; rfl

theorem Stops.stops_mapWords (h : Stops cs) : Stops (Text.mapWords σ cs) := by
  rwa [Stops, h.mapWords]

theorem Stops.append {ds : List Char} (h : Stops cs) (hds : Stops ds) : Stops (cs ++ ds) := by
  cases cs with
  | nil => exact hds
  | cons c cs => exact fun d hd => h d hd

/-- A text is changed in two parts, if a word does not go on from the one to the other. -/
theorem mapWords_append {as bs : List Char} (h : Stops bs) :
    mapWords σ (as ++ bs) = mapWords σ as ++ mapWords σ bs := by
  induction as using wordInduction with
  | nil => rw [mapWords_nil, List.nil_append, List.nil_append]
  | other c cs hc ih => rw [List.cons_append, mapWords_cons hc, mapWords_cons hc, ih, List.cons_append]
  | word w rest hw hrest ih =>
      rw [List.append_assoc, mapWords_word hw (hrest.append h), mapWords_word hw hrest, ih,
        List.append_assoc]

/-- One change after another is one change. -/
theorem mapWords_mapWords (cs : List Char) :
    mapWords τ (mapWords σ cs) = mapWords (fun w => mapWords τ (σ w)) cs := by
  induction cs using wordInduction with
  | nil => simp only [mapWords_nil]
  | other c cs hc ih => simp only [mapWords_cons hc, ih]
  | word w rest hw hrest ih =>
      rw [mapWords_word hw hrest, mapWords_word hw hrest, mapWords_append hrest.stops_mapWords, ih]

/-! ## Replacing a name -/

section Replacement

variable {name replacement : List Char}

theorem replaceFrom_cons_of_not {before : Option Char} (h : standsAt name before (c :: rest) = false) :
    replaceFrom name replacement 0 before (c :: rest) =
      c :: replaceFrom name replacement 0 (some c) rest := by
  rw [replaceFrom.eq_def]
  simp [h]

theorem replaceFrom_cons_of_standsAt {before : Option Char} {d : Char} {more : List Char}
    (h : standsAt (d :: more) before (c :: rest) = true) :
    replaceFrom (d :: more) replacement 0 before (c :: rest) =
      replacement ++ replaceFrom (d :: more) replacement more.length (some c) rest := by
  rw [replaceFrom.eq_def]
  simp [h]

/-- An occurrence that is passed over leaves no trace. -/
theorem replaceFrom_skip (run rest : List Char) (before : Option Char) :
    replaceFrom name replacement run.length before (run ++ rest) =
      replaceFrom name replacement 0 (run.getLast?.or before) rest := by
  induction run generalizing before with
  | nil => simp
  | cons c run ih =>
      rw [List.cons_append, List.length_cons, replaceFrom, ih, List.getLast?_cons]
      cases run.getLast? <;> rfl

/-- Inside a word no name begins. -/
theorem replaceFrom_word {run : List Char} {before : Char} (hbefore : isWord before = true)
    (hrun : ∀ c ∈ run, isWord c = true) (rest : List Char) :
    replaceFrom name replacement 0 (some before) (run ++ rest) =
      run ++ replaceFrom name replacement 0 (some (run.getLast?.getD before)) rest := by
  induction run generalizing before with
  | nil => simp
  | cons c run ih =>
      have hc := hrun c List.mem_cons_self
      have hstands : standsAt name (some before) (c :: (run ++ rest)) = false := by
        simp [standsAt, isBoundary, hbefore, hc]
      rw [List.cons_append, replaceFrom_cons_of_not hstands,
        ih hc fun d hd => hrun d (List.mem_cons_of_mem _ hd), List.getLast?_cons]
      cases run.getLast? <;> rfl

/-- Where a text goes on without a word character, no name begins. -/
theorem standsAt_stops (hname : IsWhole name) (hc : isWord c = false) (before : Option Char) :
    standsAt name before (c :: rest) = false := by
  obtain ⟨d, more, rfl⟩ := List.exists_cons_of_ne_nil hname.1
  have hne : d ≠ c := by
    rintro rfl
    simp [hname.2 d List.mem_cons_self] at hc
  simp [standsAt, hne]

/-- Where a text goes on without a word character, what came before does not matter. -/
theorem replaceFrom_stops (hname : IsWhole name) (hrest : Stops rest) (before other : Option Char) :
    replaceFrom name replacement 0 before rest = replaceFrom name replacement 0 other rest := by
  cases rest with
  | nil => rw [replaceFrom, replaceFrom, if_neg (by simp [hname.1]), if_neg (by simp [hname.1])]
  | cons c rest =>
      have hstands : ∀ b, standsAt name b (c :: rest) = false := standsAt_stops hname (hrest c rfl)
      rw [replaceFrom_cons_of_not (hstands before), replaceFrom_cons_of_not (hstands other)]

/-- At the start of a word stands the name exactly if it is the word. -/
theorem standsAt_eq (hname : IsWhole name) (hw : IsWhole w) (hrest : Stops rest)
    {before : Option Char} (hbefore : ∀ b ∈ before, isWord b = false) :
    standsAt name before (w ++ rest) = true ↔ w = name := by
  obtain ⟨last, hlast, hlastWord⟩ : ∃ last, name.getLast? = some last ∧ isWord last = true :=
    ⟨_, List.getLast?_eq_some_getLast hname.1, hname.2 _ (List.getLast_mem hname.1)⟩
  rw [standsAt, hlast, Bool.and_eq_true, Bool.and_eq_true, List.isPrefixOf_iff_prefix,
    Option.some_or]
  constructor
  · rintro ⟨⟨hstarts, -⟩, hboundary⟩
    rcases List.prefix_or_prefix_of_prefix hstarts (List.prefix_append w rest) with hle | hle
    · obtain ⟨more, rfl⟩ := hle
      cases more with
      | nil => rw [List.append_nil]
      | cons d more =>
          have hd : isWord d = true := hw.2 d (by simp)
          simp [isBoundary, hlastWord, hd] at hboundary
    · obtain ⟨more, rfl⟩ := hle
      cases more with
      | nil => rw [List.append_nil]
      | cons d more =>
          obtain ⟨after, rfl⟩ := (List.prefix_append_right_inj w).1 hstarts
          have hd := hname.2 d (by simp)
          rw [hrest d rfl] at hd
          cases hd
  · rintro rfl
    obtain ⟨first, more, rfl⟩ := List.exists_cons_of_ne_nil hw.1
    have hfirst := hw.2 first List.mem_cons_self
    refine ⟨⟨List.prefix_append _ _, ?_⟩, ?_⟩
    · cases before with
      | none => simp [isBoundary, hfirst]
      | some b => simp [isBoundary, hfirst, hbefore b rfl]
    · rw [List.drop_left]
      cases rest with
      | nil => simp [isBoundary, hlastWord]
      | cons d rest => simp [isBoundary, hlastWord, hrest d rfl]

theorem replaceFrom_eq_mapWords (hname : IsWhole name) (cs : List Char) (before : Option Char)
    (hbefore : ∀ b ∈ before, isWord b = false) :
    replaceFrom name replacement 0 before cs =
      mapWords (fun w => if w = name then replacement else w) cs := by
  induction cs using wordInduction generalizing before with
  | nil => rw [replaceFrom, if_neg (by simp [hname.1]), mapWords_nil]
  | other c cs hc ih =>
      rw [replaceFrom_cons_of_not (standsAt_stops hname hc before), mapWords_cons hc,
        ih (some c) fun b hb => by cases hb; exact hc]
  | word w rest hw hrest ih =>
      rw [mapWords_word hw hrest, ← ih none (by simp)]
      have hstands := standsAt_eq hname hw hrest hbefore
      obtain ⟨c, cs, rfl⟩ := List.exists_cons_of_ne_nil hw.1
      rw [List.cons_append] at hstands
      split
      · rename_i heq
        subst heq
        rw [List.cons_append, replaceFrom_cons_of_standsAt (hstands.2 rfl), replaceFrom_skip,
          replaceFrom_stops hname hrest _ none]
      · rename_i hne
        have hc := hw.2 c List.mem_cons_self
        rw [List.cons_append, replaceFrom_cons_of_not (Bool.eq_false_iff.2 (mt hstands.1 hne)),
          replaceFrom_word hc (fun d hd => hw.2 d (List.mem_cons_of_mem _ hd)),
          replaceFrom_stops hname hrest _ none]
        rfl

/-- **Replacing a name** changes the words that are the name. -/
theorem replaceWhole_eq_mapWords (hname : IsWhole name) (cs : List Char) :
    replaceWhole name replacement cs =
      mapWords (fun w => if w = name then replacement else w) cs :=
  replaceFrom_eq_mapWords hname cs none (by simp)

/-- Whether a name stands in a text as a whole word. -/
def HasWord (name cs : List Char) : Prop :=
  ∃ before after, cs = before ++ name ++ after ∧ (∀ c ∈ before.getLast?, isWord c = false) ∧
    Stops after

/-- Looks for a name at every place of a text. -/
def hasWord (name cs : List Char) : Bool :=
  (List.range (cs.length + 1)).any fun i =>
    name.isPrefixOf (cs.drop i) && (cs.take i).getLast?.all (!isWord ·) &&
      ((cs.drop i).drop name.length).head?.all (!isWord ·)

theorem hasWord_eq_true_iff : hasWord name cs = true ↔ HasWord name cs := by
  simp only [hasWord, List.any_eq_true, List.mem_range, Bool.and_eq_true,
    List.isPrefixOf_iff_prefix, Option.all_eq_true, Bool.not_eq_true', and_assoc]
  constructor
  · rintro ⟨i, -, ⟨after, hafter⟩, hbefore, hstops⟩
    rw [← hafter, List.drop_left] at hstops
    refine ⟨cs.take i, after, ?_, hbefore, hstops⟩
    rw [List.append_assoc, hafter, List.take_append_drop]
  · rintro ⟨before, after, rfl, hbefore, hafter⟩
    refine ⟨before.length, by simp, ?_⟩
    rw [List.append_assoc, List.drop_left, List.take_left, List.drop_left]
    exact ⟨List.prefix_append name after, hbefore, hafter⟩

instance : Decidable (HasWord name cs) :=
  decidable_of_iff _ hasWord_eq_true_iff

theorem HasWord.isInfix (h : HasWord name cs) : name <:+: cs := by
  obtain ⟨before, after, rfl, -⟩ := h
  exact ⟨before, after, rfl⟩

theorem not_hasWord_nil (hname : IsWhole name) : ¬HasWord name [] := fun h =>
  hname.1 (List.eq_nil_of_infix_nil h.isInfix)

/-- A character between words is in no word. -/
theorem hasWord_cons_iff (hname : IsWhole name) (hc : isWord c = false) :
    HasWord name (c :: cs) ↔ HasWord name cs := by
  constructor
  · rintro ⟨before, after, heq, hbefore, hafter⟩
    cases before with
    | nil =>
        obtain ⟨d, more, rfl⟩ := List.exists_cons_of_ne_nil hname.1
        obtain ⟨rfl, -⟩ := List.cons.inj heq
        exact absurd (hname.2 c List.mem_cons_self) (by simp [hc])
    | cons b before =>
        obtain ⟨rfl, rfl⟩ := List.cons.inj heq
        refine ⟨before, after, rfl, fun d hd => ?_, hafter⟩
        cases before with
        | nil => cases hd
        | cons b before => exact hbefore d (by rwa [List.getLast?_cons_cons])
  · rintro ⟨before, after, rfl, hbefore, hafter⟩
    refine ⟨c :: before, after, rfl, fun d hd => ?_, hafter⟩
    cases before with
    | nil => cases hd; exact hc
    | cons b before => exact hbefore d (by rwa [List.getLast?_cons_cons] at hd)

/-- A text starts with one word at most. -/
theorem eq_of_append_eq {v after : List Char} (hw : IsWhole w) (hrest : Stops rest)
    (hv : IsWhole v) (hafter : Stops after) (h : w ++ rest = v ++ after) : w = v := by
  rw [← takeWhile_append_eq hw.2 hrest, h, takeWhile_append_eq hv.2 hafter]

/-- A text that starts with a word has this word and those of what follows. -/
theorem hasWord_word_append_iff (hname : IsWhole name) (hw : IsWhole w) (hrest : Stops rest) :
    HasWord name (w ++ rest) ↔ w = name ∨ HasWord name rest := by
  constructor
  · rintro ⟨before, after, heq, hbefore, hafter⟩
    rw [List.append_assoc] at heq
    rcases List.append_eq_append_iff.1 heq with ⟨more, rfl, rfl⟩ | ⟨more, rfl, hafterW⟩
    · refine .inr ⟨more, after, (List.append_assoc ..).symm, fun d hd => hbefore d ?_, hafter⟩
      rwa [List.getLast?_append, Option.or_of_isSome (Option.isSome_of_mem hd)]
    · cases before with
      | nil => exact .inl (eq_of_append_eq hw hrest hname hafter hafterW.symm)
      | cons b before =>
          -- the name would begin inside the word
          have hlast := hw.2 _ (List.mem_append_left more (List.getLast_mem (by simp)))
          rw [hbefore _ (List.getLast?_eq_some_getLast (List.cons_ne_nil b before))] at hlast
          cases hlast
  · rintro (rfl | ⟨before, after, rfl, hbefore, hafter⟩)
    · exact ⟨[], rest, rfl, by simp, hrest⟩
    · cases before with
      | nil =>
          obtain ⟨d, more, rfl⟩ := List.exists_cons_of_ne_nil hname.1
          exact absurd (hname.2 d List.mem_cons_self) (by simp [hrest d rfl])
      | cons b before =>
          refine ⟨w ++ b :: before, after, by simp, fun d hd => hbefore d ?_, hafter⟩
          rwa [List.getLast?_append, Option.or_of_isSome (by simp)] at hd

/-- A word by itself has no word but itself. -/
theorem hasWord_whole_iff (hname : IsWhole name) (hw : IsWhole w) : HasWord name w ↔ w = name := by
  have hword := hasWord_word_append_iff hname hw stops_nil
  rwa [List.append_nil, or_iff_left (not_hasWord_nil hname)] at hword

/-- A text in two parts has the words of both, if a word does not go on from the one to the
other. -/
theorem hasWord_append_iff (hname : IsWhole name) {as bs : List Char} (h : Stops bs) :
    HasWord name (as ++ bs) ↔ HasWord name as ∨ HasWord name bs := by
  induction as using wordInduction with
  | nil => simp [not_hasWord_nil hname]
  | other c as hc ih => rw [List.cons_append, hasWord_cons_iff hname hc, hasWord_cons_iff hname hc, ih]
  | word w rest hw hrest ih =>
      rw [List.append_assoc, hasWord_word_append_iff hname hw (hrest.append h),
        hasWord_word_append_iff hname hw hrest, ih, or_assoc]

/-- The words of a changed text come from its words. -/
theorem HasWord.exists_of_mapWords (hname : IsWhole name) (h : HasWord name (Text.mapWords σ cs)) :
    ∃ w, IsWhole w ∧ HasWord w cs ∧ HasWord name (σ w) := by
  induction cs using wordInduction with
  | nil => exact absurd (mapWords_nil ▸ h) (not_hasWord_nil hname)
  | other c cs hc ih =>
      rw [mapWords_cons hc, hasWord_cons_iff hname hc] at h
      obtain ⟨w, hw, hmem, hσ⟩ := ih h
      exact ⟨w, hw, (hasWord_cons_iff hw hc).2 hmem, hσ⟩
  | word v rest hv hrest ih =>
      rw [mapWords_word hv hrest, hasWord_append_iff hname hrest.stops_mapWords] at h
      rcases h with h | h
      · exact ⟨v, hv, (hasWord_word_append_iff hv hv hrest).2 (.inl rfl), h⟩
      · obtain ⟨w, hw, hmem, hσ⟩ := ih h
        exact ⟨w, hw, (hasWord_word_append_iff hw hv hrest).2 (.inr hmem), hσ⟩

/-- A change that leaves the words of a text alone leaves the text alone. -/
theorem mapWords_of_hasWord (h : ∀ w, IsWhole w → HasWord w cs → σ w = w) : mapWords σ cs = cs := by
  induction cs using wordInduction with
  | nil => exact mapWords_nil
  | other c cs hc ih =>
      rw [mapWords_cons hc, ih fun w hw hmem => h w hw ((hasWord_cons_iff hw hc).2 hmem)]
  | word w rest hw hrest ih =>
      have hmem : ∀ v, IsWhole v → w = v ∨ HasWord v rest → σ v = v := fun v hv hmem =>
        h v hv ((hasWord_word_append_iff hv hw hrest).2 hmem)
      rw [mapWords_word hw hrest, hmem w hw (.inl rfl), ih fun v hv hrest => hmem v hv (.inr hrest)]

/-- Replacing a name that does not occur changes nothing. -/
theorem mapWords_of_not_hasWord (h : ¬HasWord name cs) :
    mapWords (fun w => if w = name then replacement else w) cs = cs := by
  refine mapWords_of_hasWord fun w _ hmem => if_neg ?_
  rintro rfl
  exact h hmem

end Replacement

end Text

/-! ## A whole context -/

namespace Context

open Text

/-- What a word gives way to in a list of variables. -/
def wordText (entries : List (String × Scalar)) (w : List Char) : List Char :=
  (entries.find? (·.1.toList = w)).elim w (·.2.literal)

/-- A word that is no name stays as it is. -/
theorem wordText_of_forall_ne {entries : List (String × Scalar)} {w : List Char}
    (h : ∀ e ∈ entries, e.1.toList ≠ w) : wordText entries w = w := by
  have hnone : entries.find? (·.1.toList = w) = none := by
    rw [List.find?_eq_none]
    exact fun e he => by simpa using h e he
  rw [wordText, hnone, Option.elim_none]

/-- Putting variables in place one after the other is putting them in place at once, if no value
holds the name of another variable. -/
theorem foldl_replaceWhole_eq (entries : List (String × Scalar))
    (hnodup : (entries.map Prod.fst).Nodup) (hnames : ∀ e ∈ entries, IsWhole e.1.toList)
    (hfree : ∀ e ∈ entries, ∀ f ∈ entries, e.1 ≠ f.1 → ¬HasWord e.1.toList f.2.literal)
    (cs : List Char) :
    entries.foldl (fun cs (name, s) => replaceWhole name.toList s.literal cs) cs =
      mapWords (wordText entries) cs := by
  induction entries using List.reverseRecOn with
  | nil => exact (mapWords_id (fun _ _ => rfl) cs).symm
  | append_singleton entries e ih =>
      obtain ⟨name, s⟩ := e
      have hname : IsWhole name.toList := hnames (name, s) (by simp)
      rw [List.map_append, List.nodup_append] at hnodup
      rw [List.foldl_append, ih hnodup.1 (fun f hf => hnames f (List.mem_append_left _ hf))
        fun f hf g hg => hfree f (List.mem_append_left _ hf) g (List.mem_append_left _ hg)]
      change replaceWhole name.toList s.literal _ = _
      rw [replaceWhole_eq_mapWords hname, mapWords_mapWords]
      refine mapWords_congr (fun w hw => ?_) cs
      rw [wordText, wordText, List.find?_append]
      cases hfound : entries.find? (·.1.toList = w) with
      | some f =>
          have hf : f ∈ entries := List.mem_of_find?_eq_some hfound
          have hne : name ≠ f.1 := fun heq =>
            hnodup.2.2 f.1 (List.mem_map_of_mem hf) name (by simp) heq.symm
          exact mapWords_of_not_hasWord
            (hfree (name, s) (by simp) f (List.mem_append_left _ hf) hne)
      | none =>
          rw [Option.elim_none, mapWords_whole hw, Option.none_or, List.find?_singleton]
          by_cases heq : name.toList = w
          · simp [heq]
          · simp [heq, Ne.symm heq]

/-- **Putting a context in place**, in whatever order its variables stand, changes every word that
is the name of a variable into the value, if no value holds the name of another variable. -/
theorem substituteChars_eq_mapWords (c : Context) (hnames : ∀ e ∈ c.entries, IsWhole e.1.toList)
    (hfree : ∀ e ∈ c.entries, ∀ f ∈ c.entries, e.1 ≠ f.1 → ¬HasWord e.1.toList f.2.literal)
    (cs : List Char) : c.substituteChars cs = mapWords (wordText c.entries) cs :=
  foldl_replaceWhole_eq c.entries c.nodup hnames hfree cs

end Context
end Workflow
