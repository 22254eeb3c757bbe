import Mathlib
import Workflow.Proofs.Pace

/-!
# What a run depends on

Of the graph a run depends on what it reaches and on nothing else: not on where steps and transitions
are stored, and not on what lies elsewhere.  Of the context it depends, but for the line that shows
the variables, on the results of the conditions that it comes to, and of the timings on nothing at all
but for the times.

* `Graph.followed_eq_take` says in one way for all kinds where a step leads, and
  `Graph.visits_congr` that visits are the same where all visited steps lead to the same steps.
* `Graph.Reaches` is what a run can get to, and `Graph.visits_eq_of_sublist` that the rest of a graph
  can be left out.
* `Setup.run_eq_of_reached_eq` compares runs on two graphs, `Setup.events_eq_of_results_eq` runs with
  two contexts and two timings.
-/

namespace Workflow

/-! ## Where a step leads -/

namespace StepKind

/-- Whether a transition is open for a step of a kind. -/
def opens (c : Context) (kind : StepKind) (t : Transition) : Bool :=
  match kind with
  | .condition expression => t.admits (conditionResult c expression)
  | _ => true

/-- To how many steps a step of a kind leads at most if some number of transitions leave it. -/
def limit (leaving : Nat) : StepKind → Nat
  | .terminal => 0
  | .condition _ => 1
  | _ => leaving

/-- Whether two contexts give a step of a kind the same result, if it asks for one. -/
def HasSameResult (c c' : Context) (kind : StepKind) : Prop :=
  ∀ expression, kind = .condition expression →
    conditionResult c expression = conditionResult c' expression

variable {c c' : Context} {kind : StepKind}

theorem HasSameResult.opens_eq (h : kind.HasSameResult c c') : kind.opens c = kind.opens c' := by
  funext t
  cases kind with
  | condition expression => rw [opens, opens, h expression rfl]
  | _ => rfl

/-- What a step says depends on the result of a condition only, not on the timings. -/
theorem HasSameResult.lines_eq (h : kind.HasSameResult c c') (t t' : Timings) :
    kind.lines c t = kind.lines c' t' := by
  cases kind with
  | condition expression =>
      simp only [lines, utterances, h expression rfl, List.map_cons, List.map_nil]
  | _ => rfl

end StepKind

namespace Graph

/-- The first item that passes a test and has an image has the first image among those that pass. -/
theorem find?_bind_eq_head? {α β : Type} (p : α → Bool) (f : α → Option β) (l : List α) :
    (l.find? fun a => p a && (f a).isSome).bind f = ((l.filter p).filterMap f).head? := by
  induction l with
  | nil => rfl
  | cons a rest ih =>
      cases hp : p a <;> cases hf : f a <;> simp [hp, hf, ih]

/-- A step leads to the first few of the steps at the ends of the transitions that are open. -/
theorem followed_eq_take (g : Graph) (c : Context) (s : Step) :
    g.followed c s = (((g.outgoing s.id).filter (s.kind.opens c)).filterMap g.target?).take
      (s.kind.limit (g.outgoing s.id).length) := by
  have hall : (g.outgoing s.id).filterMap g.target? =
      (((g.outgoing s.id).filter fun _ => true).filterMap g.target?).take
        (g.outgoing s.id).length := by
    rw [List.filter_true, List.take_of_length_le (List.length_filterMap_le ..)]
  rw [followed]
  cases s.kind with
  | terminal => rfl
  | condition expression =>
      rw [StepKind.limit, List.take_one, ← find?_bind_eq_head?]
      rfl
  | _ => exact hall

variable {g g' : Graph} {c c' : Context}

/-- The walk is the same on two graphs if all steps that it visits lead to the same steps. -/
theorem visitsFrom_congr : ∀ (queue : List Step) (visited : List String),
    (∀ s ∈ g.visitsFrom c queue visited, g.followed c s = g'.followed c' s) →
      g'.visitsFrom c' queue visited = g.visitsFrom c queue visited := by
  refine g.walk_induction c ?nil ?skip ?visit
  case nil =>
    intro visited _
    rw [visitsFrom_nil, visitsFrom_nil]
  case skip =>
    intro visited s rest h ih hfollowed
    rw [visitsFrom_cons_of_mem g c h] at hfollowed ⊢
    rw [visitsFrom_cons_of_mem g' c' h, ih hfollowed]
  case visit =>
    intro visited s rest h ih hfollowed
    rw [visitsFrom_cons_of_not_mem g c h, List.forall_mem_cons] at hfollowed
    have hqueued : g'.queued c' visited s = g.queued c visited s := by
      rw [queued, queued, hfollowed.1]
    rw [visitsFrom_cons_of_not_mem g c h, visitsFrom_cons_of_not_mem g' c' h, hqueued,
      ih hfollowed.2]

theorem visits_congr (hentry : g.entry? = g'.entry?)
    (h : ∀ s ∈ g.visits c, g.followed c s = g'.followed c' s) : g'.visits c' = g.visits c := by
  rw [visits_eq_visitsFrom, visits_eq_visitsFrom, ← hentry]
  exact visitsFrom_congr _ _ h

/-- A step leads to the same steps if the same transitions leave it and end at the same steps. -/
theorem followed_congr {s : Step} (hleaving : g.outgoing s.id = g'.outgoing s.id)
    (htarget : ∀ t ∈ g.outgoing s.id, g.target? t = g'.target? t) :
    g.followed c s = g'.followed c s := by
  rw [followed_eq_take, followed_eq_take, ← hleaving]
  congr 1
  exact List.filterMap_congr fun t ht => htarget t (List.mem_of_mem_filter ht)

/-! ## Parts of a graph -/

theorem target?_eq_some_iff (t : Transition) (s : Step) :
    g.target? t = some s ↔ s ∈ g.steps ∧ s.id = t.target := by
  rw [target?_eq_find?, find?_eq_some_iff]

/-- The order of the steps does not matter to where transitions end. -/
theorem target?_eq_of_perm (h : g.steps.Perm g'.steps) : g.target? = g'.target? := by
  funext t
  refine Option.ext fun s => ?_
  rw [target?_eq_some_iff, target?_eq_some_iff, h.mem_iff]

/-- Where of two ways to find images one finds less, both find the same first few images if the first
finds all of these. -/
theorem take_filterMap_congr {α β : Type} {f f' : α → Option β}
    (hless : ∀ a b, f a = some b → f' a = some b) (l : List α) (n : Nat)
    (h : ∀ b ∈ (l.filterMap f').take n, ∀ a, f' a = some b → f a = some b) :
    (l.filterMap f).take n = (l.filterMap f').take n := by
  induction l generalizing n with
  | nil => rfl
  | cons a rest ih =>
      cases n with
      | zero => rfl
      | succ n =>
          cases hf' : f' a with
          | none =>
              have hf : f a = none := by
                rw [Option.eq_none_iff_forall_ne_some]
                exact fun b hb => absurd (hless a b hb) (by simp [hf'])
              rw [List.filterMap_cons_none hf'] at h ⊢
              rw [List.filterMap_cons_none hf, ih _ h]
          | some b =>
              rw [List.filterMap_cons_some hf', List.take_succ_cons, List.forall_mem_cons] at h
              rw [List.filterMap_cons_some hf', List.filterMap_cons_some (h.1 a hf'),
                List.take_succ_cons, List.take_succ_cons, ih _ h.2]

/-- Whether a run can get to a step: from the first entry step over transitions that runs take. -/
def Reaches (g : Graph) (c : Context) (s : Step) : Prop :=
  ∃ start ∈ g.entry?, Relation.ReflTransGen (g.Leads c) start s

theorem Reaches.mem_steps {s : Step} (h : g.Reaches c s) : s ∈ g.steps := by
  obtain ⟨start, hstart, hreach⟩ := h
  exact g.mem_steps_of_reaches c (g.mem_steps_of_entry? hstart) hreach

theorem mem_visits_iff {s : Step} : s ∈ g.visits c ↔ g.Reaches c s := by
  have hvisited : ∀ u ∈ g.visits c, g.Reaches c u := fun u hu => by
    obtain ⟨start, hstart, hreach⟩ := g.exists_reaches_of_mem_visitsFrom c _ _ u hu
    exact ⟨start, Option.mem_toList.1 hstart, hreach⟩
  refine ⟨hvisited s, fun h => ?_⟩
  have hid : s.id ∈ (g.visits c).map Step.id := by
    obtain ⟨start, hstart, hreach⟩ := h
    exact (g.mem_map_id_visits_iff c hstart s.id).2 ⟨s, hreach, rfl⟩
  obtain ⟨u, hu, hsame⟩ := List.mem_map.1 hid
  rwa [← g.eq_of_id_eq (hvisited u hu).mem_steps h.mem_steps hsame]

theorem Reaches.followed {s t : Step} (hs : g.Reaches c s) (ht : t ∈ g.followed c s) :
    g.Reaches c t := by
  obtain ⟨start, hstart, hreach⟩ := hs
  exact ⟨start, hstart, hreach.tail ((g.mem_followed_iff c s t).1 ht)⟩

section Sublist

variable (hsteps : g.steps.Sublist g'.steps)
  (hreached : ∀ s, g'.Reaches c s → s ∈ g.steps ∧ g.outgoing s.id = g'.outgoing s.id)
include hsteps hreached

/-- The first entry step of a part of a graph that holds all that is reached. -/
theorem entry?_eq_of_sublist : g'.entry? = g.entry? := by
  have hentries : g.entries.Sublist g'.entries := hsteps.filter _
  cases h : g'.entries with
  | nil =>
      rw [h, List.sublist_nil] at hentries
      unfold entry?
      rw [h, hentries]
  | cons start rest =>
      have hentry : g'.entry? = some start := by
        unfold entry?
        rw [h]
        rfl
      have hstart : start ∈ g.entries := by
        refine List.mem_filter.2 ⟨(hreached start ⟨start, hentry, .refl⟩).1, ?_⟩
        exact (List.mem_filter.1 (h ▸ List.mem_cons_self : start ∈ g'.entries)).2
      have hnodup : (start :: rest).Nodup := h ▸ (List.Nodup.of_map _ g'.nodup).filter _
      rcases List.sublist_cons_iff.1 (h ▸ hentries) with hrest | ⟨others, hothers, -⟩
      · exact absurd (hrest.subset hstart) (List.nodup_cons.1 hnodup).1
      · rw [hentry, entry?, hothers]
        rfl

theorem followed_eq_of_sublist {s : Step} (hs : g'.Reaches c s) :
    g'.followed c s = g.followed c s := by
  rw [followed_eq_take, followed_eq_take, (hreached s hs).2]
  refine (take_filterMap_congr (fun t u hu => ?_) _ _ fun u hu t ht => ?_).symm
  · rw [target?_eq_some_iff] at hu ⊢
    exact ⟨hsteps.subset hu.1, hu.2⟩
  · rw [← followed_eq_take] at hu
    rw [target?_eq_some_iff] at ht ⊢
    exact ⟨(hreached u (hs.followed hu)).1, ht.2⟩

/-- Steps and transitions that are not reached can be left out. -/
theorem visits_eq_of_sublist : g.visits c = g'.visits c := by
  refine visits_congr ?_ fun s hs => followed_eq_of_sublist hsteps hreached (mem_visits_iff.1 hs)
  exact entry?_eq_of_sublist hsteps hreached

end Sublist

end Graph

namespace Setup

/-! ## Runs on two graphs -/

theorem map_event_run_never (r : Setup) :
    (r.run .never).events.map Timed.event = notifications r.plan := by
  rw [run_never, map_event_timeline]

theorem id_mem_entered {r : Setup} {s : Step} (h : s ∈ r.graph.visits r.context) :
    s.id ∈ (r.run .never).entered := by
  obtain ⟨start, hstart, -⟩ := Graph.mem_visits_iff.1 h
  rw [entered_eq_map_id_visits hstart]
  exact List.mem_map_of_mem h

/-- A run does no more with its graph than look for the entry and visit steps. -/
theorem run_congr {g g' : Graph} {c : Context} (t : Timings) (k : Cancellation)
    (hentry : g.entry? = g'.entry?) (hvisits : g'.visits c = g.visits c) :
    Setup.run ⟨g', c, t⟩ k = Setup.run ⟨g, c, t⟩ k := by
  have hplan : plan ⟨g', c, t⟩ = plan ⟨g, c, t⟩ := by
    simp only [plan, hentry, hvisits]
    rfl
  rw [run, run, hplan]

/-- **A run depends on what it reaches.**  Runs on two graphs with the same first entry step are the
same, whenever they are cancelled, if from every step that the one enters the same transitions lead to
the same steps.  So the order of the steps does not matter but for the first entry step, nor that of
the transitions but for those that leave one step, and steps and transitions can be added where a run
does not get to. -/
theorem run_eq_of_reached_eq (g g' : Graph) (c : Context) (t : Timings) (k : Cancellation) :
    let run (g : Graph) := Setup.run ⟨g, c, t⟩
    (g.entry? = g'.entry? →
        (∀ id ∈ (run g .never).entered, g.outgoing id = g'.outgoing id ∧
          ∀ e ∈ g.outgoing id, g.target? e = g'.target? e) →
        run g' k = run g k) ∧
      (g.steps.Perm g'.steps → g.entry? = g'.entry? →
        (∀ id, g.transitions.filter (·.source = id) = g'.transitions.filter (·.source = id)) →
        run g' k = run g k) ∧
      (g.steps.Sublist g'.steps →
        (∀ s, g'.Reaches c s → s ∈ g.steps ∧ g.outgoing s.id = g'.outgoing s.id) →
        run g' k = run g k) := by
  intro run
  refine ⟨fun hentry hsame => ?reached, fun hperm hentry hleaving => ?reordered,
    fun hsteps hreached => ?added⟩
  case reached =>
    refine run_congr t k hentry (Graph.visits_congr hentry fun s hs => ?_)
    obtain ⟨hleaving, htarget⟩ := hsame s.id (id_mem_entered hs)
    exact Graph.followed_congr hleaving htarget
  case reordered =>
    refine run_congr t k hentry (Graph.visits_congr hentry fun s _ => ?_)
    refine Graph.followed_congr ?_ fun e _ => by rw [Graph.target?_eq_of_perm hperm]
    rw [Graph.outgoing_eq_filter, Graph.outgoing_eq_filter, hleaving]
  case added =>
    exact run_congr t k (Graph.entry?_eq_of_sublist hsteps hreached).symm
      (Graph.visits_eq_of_sublist hsteps hreached).symm

/-- What a run on the tangled graph gets to. -/
def prunedGraph : Graph where
  steps := [.unlabelled "start" .entry, .unlabelled "again" (.log "here"),
    .unlabelled "branch" (.condition "value < count"), .unlabelled "end" .terminal]
  transitions := [⟨"start", "again", none⟩, ⟨"start", "branch", none⟩, ⟨"start", "again", none⟩,
    ⟨"start", "nowhere", none⟩, ⟨"again", "again", none⟩, ⟨"again", "start", none⟩,
    ⟨"branch", "late", some .whenTrue⟩, ⟨"branch", "nowhere", none⟩,
    ⟨"branch", "end", some .whenFalse⟩, ⟨"branch", "lost", none⟩, ⟨"end", "lost", none⟩]
  stepIndex := _
  transitionIndex := _
  nodup := by decide
  stepIndex_eq := rfl
  transitionIndex_eq := rfl

/-- The same steps and transitions in another order. -/
def shuffledGraph : Graph where
  steps := prunedGraph.steps.reverse
  transitions := [⟨"branch", "late", some .whenTrue⟩, ⟨"end", "lost", none⟩,
    ⟨"start", "again", none⟩, ⟨"again", "again", none⟩, ⟨"branch", "nowhere", none⟩,
    ⟨"start", "branch", none⟩, ⟨"branch", "end", some .whenFalse⟩, ⟨"start", "again", none⟩,
    ⟨"again", "start", none⟩, ⟨"start", "nowhere", none⟩, ⟨"branch", "lost", none⟩]
  stepIndex := _
  transitionIndex := _
  nodup := by decide
  stepIndex_eq := rfl
  transitionIndex_eq := rfl

theorem run_tangledGraph_eq :
    let run (g : Graph) := Setup.run ⟨g, .demo, .reference⟩
    let leaving (g : Graph) (id : String) := g.transitions.filter (·.source = id)
    prunedGraph.steps.Perm shuffledGraph.steps ∧ prunedGraph.entry? = shuffledGraph.entry? ∧
      (∀ id, leaving prunedGraph id = leaving shuffledGraph id) ∧
      (∀ e, prunedGraph.target? e = shuffledGraph.target? e) ∧
      run shuffledGraph (.at 1200) = run prunedGraph (.at 1200) ∧
      run shuffledGraph .before = run prunedGraph .before ∧
      prunedGraph.steps.Sublist tangledGraph.steps ∧
      (∀ s, tangledGraph.Reaches .demo s →
        s ∈ prunedGraph.steps ∧ prunedGraph.outgoing s.id = tangledGraph.outgoing s.id) ∧
      run tangledGraph (.at 1200) = run prunedGraph (.at 1200) := by
  intro run leaving
  have hperm : prunedGraph.steps.Perm shuffledGraph.steps := (List.reverse_perm _).symm
  have hentry : prunedGraph.entry? = shuffledGraph.entry? := by decide
  have hleaving : ∀ id, leaving prunedGraph id = leaving shuffledGraph id := by
    intro id
    by_cases h : id ∈ prunedGraph.steps.map Step.id
    · revert id
      decide
    · have hsources : ∀ e ∈ prunedGraph.transitions ++ shuffledGraph.transitions,
          e.source ∈ prunedGraph.steps.map Step.id := by decide
      have hnone : ∀ e ∈ prunedGraph.transitions ++ shuffledGraph.transitions,
          decide (e.source = id) ≠ true := fun e he heq =>
        h (of_decide_eq_true heq ▸ hsources e he)
      rw [List.forall_mem_append] at hnone
      exact (List.filter_eq_nil_iff.2 hnone.1).trans (List.filter_eq_nil_iff.2 hnone.2).symm
  have htarget : ∀ e, prunedGraph.target? e = shuffledGraph.target? e := fun e => by
    rw [Graph.target?_eq_of_perm hperm]
  have hsteps : prunedGraph.steps.Sublist tangledGraph.steps := by decide
  have hkept : ∀ s ∈ prunedGraph.steps, leaving prunedGraph s.id = leaving tangledGraph s.id := by
    decide
  have hvisits : tangledGraph.visits .demo = prunedGraph.steps := visits_tangledGraph
  have hreached : ∀ s, tangledGraph.Reaches .demo s →
      s ∈ prunedGraph.steps ∧ prunedGraph.outgoing s.id = tangledGraph.outgoing s.id := by
    intro s hs
    have hmem : s ∈ prunedGraph.steps := hvisits ▸ Graph.mem_visits_iff.2 hs
    refine ⟨hmem, ?_⟩
    rw [Graph.outgoing_eq_filter, Graph.outgoing_eq_filter]
    exact hkept s hmem
  have hshuffled := run_eq_of_reached_eq prunedGraph shuffledGraph .demo .reference
  have htangled := run_eq_of_reached_eq prunedGraph tangledGraph .demo .reference
  refine ⟨hperm, hentry, hleaving, htarget, (hshuffled _).2.1 hperm hentry hleaving,
    (hshuffled _).1 hentry fun id _ => ⟨?_, fun e _ => htarget e⟩, hsteps, hreached,
    (htangled _).2.2 hsteps hreached⟩
  rw [Graph.outgoing_eq_filter, Graph.outgoing_eq_filter]
  exact hleaving id

/-! ## Runs with two contexts and two timings -/

section Results

variable {g : Graph} {c c' : Context}
  (hresults : ∀ s ∈ g.visits c, s.kind.HasSameResult c c') (t t' : Timings)
include hresults

theorem visits_eq_of_results_eq : g.visits c' = g.visits c := by
  refine Graph.visits_congr rfl fun s hs => ?_
  rw [Graph.followed_eq_take, Graph.followed_eq_take, (hresults s hs).opens_eq]

theorem visit_eq_of_results_eq {s : Step} (hs : s ∈ g.visits c) :
    visit ⟨g, c', t'⟩ s = visit ⟨g, c, t⟩ s := by
  rw [visit, visit, (hresults s hs).lines_eq t t']

/-- What a run notifies of at its visits is the same with both contexts. -/
theorem flatMap_blockEvents_eq_of_results_eq :
    (g.visits c').flatMap (blockEvents ⟨g, c', t'⟩) =
      (g.visits c).flatMap (blockEvents ⟨g, c, t⟩) := by
  rw [visits_eq_of_results_eq hresults]
  refine List.flatMap_congr fun s hs => ?_
  rw [← events_visit, ← events_visit, visit_eq_of_results_eq hresults t t' hs]

/-- With the same timings a run does so at the same times. -/
theorem timedVisits_eq_of_results_eq :
    timedVisits ⟨g, c', t⟩ (g.visits c') = timedVisits ⟨g, c, t⟩ (g.visits c) := by
  rw [visits_eq_of_results_eq hresults, timedVisits, timedVisits]
  refine List.flatMap_congr fun x hx => ?_
  simp only [visit_eq_of_results_eq hresults t t (List.fst_mem_of_mem_zipIdx hx)]

end Results

/-- **What a run tells of its context and its timings.**  If two contexts give every condition step that
a run with the one comes to the same result, then a run with the other, at whatever pace, notifies of
the same, but for the text of the one line that shows the variables; and with the same timings it does
so at the same times. -/
theorem events_eq_of_results_eq (g : Graph) (c c' : Context) (t t' : Timings)
    (hresults : ∀ s ∈ g.steps, s.id ∈ (Setup.run ⟨g, c, t⟩ .never).entered →
      ∀ expression, s.kind = .condition expression →
        conditionResult c expression = conditionResult c' expression) :
    let x := Setup.run ⟨g, c, t⟩ .never
    let x' := Setup.run ⟨g, c', t'⟩ .never
    let front (c : Context) := [systemLog "entry" "Starting workflow execution..." .info,
      systemLog "entry" ("Context variables: " ++ c.text) .info]
    (match g.entry? with
      | none => x'.events.map Timed.event = x.events.map Timed.event
      | some _ => ∃ rest, x.events.map Timed.event = front c ++ rest ∧
          x'.events.map Timed.event = front c' ++ rest) ∧
      (t = t' → x'.events.map Timed.time = x.events.map Timed.time ∧ x'.endTime = x.endTime) := by
  intro x x' front
  have hvisited : ∀ s ∈ g.visits c, s.kind.HasSameResult c c' := fun s hs =>
    hresults s (Graph.mem_visits_iff.1 hs).mem_steps (id_mem_entered hs)
  cases h : g.entry? with
  | none =>
      have hx : x = ⟨_, _, _⟩ := run_never_of_entry?_eq_none ⟨g, c, t⟩ h
      have hx' : x' = ⟨_, _, _⟩ := run_never_of_entry?_eq_none ⟨g, c', t'⟩ h
      rw [hx, hx']
      exact ⟨rfl, fun _ => ⟨rfl, rfl⟩⟩
  | some start =>
      constructor
      · refine ⟨(g.visits c).flatMap (blockEvents ⟨g, c, t⟩) ++ [.log closing, .complete], ?_, ?_⟩
        · rw [map_event_run_never, notifications_plan h, List.append_assoc]
          rfl
        · rw [map_event_run_never, notifications_plan h, List.append_assoc]
          simp only [flatMap_blockEvents_eq_of_results_eq hvisited t t']
          rfl
      · rintro rfl
        have hx : x = ⟨_, _, _⟩ := run_never_of_entry?_eq_some ⟨g, c, t⟩ h
        have hx' : x' = ⟨_, _, _⟩ := run_never_of_entry?_eq_some ⟨g, c', t⟩ h
        rw [hx, hx', timedVisits_eq_of_results_eq hvisited, visits_eq_of_results_eq hvisited]
        refine ⟨?_, rfl⟩
        rw [List.map_append, List.map_append, List.map_append, List.map_append]
        rfl

/-- A graph in which a condition asks for a variable. -/
def askingGraph : Graph where
  steps := [.unlabelled "start" .entry, .unlabelled "ask" (.condition "!stop"),
    .unlabelled "rest" (.wait 3 .minutes), .unlabelled "end" .terminal]
  transitions := [⟨"start", "ask", none⟩, ⟨"ask", "end", some .whenFalse⟩,
    ⟨"ask", "rest", some .whenTrue⟩, ⟨"rest", "end", none⟩]
  stepIndex := _
  transitionIndex := _
  nodup := by decide
  stepIndex_eq := rfl
  transitionIndex_eq := rfl

theorem events_askingGraph_eq :
    let c : Context := OrderedMap.empty.insert "stop" (.bool false)
    let c' : Context := (OrderedMap.empty.insert "n" (.ofNat 7)).insert "stop" .null
    let x := Setup.run ⟨askingGraph, c, .reference⟩ .never
    let x' := Setup.run ⟨askingGraph, c', .instant⟩ .never
    let front (text : String) := [systemLog "entry" "Starting workflow execution..." .info,
      systemLog "entry" ("Context variables: " ++ text) .info]
    conditionResult c "!stop" = conditionResult c' "!stop" ∧
      ∃ rest, x.events.map Timed.event = front "\x7b\"stop\":false\x7d" ++ rest ∧
        x'.events.map Timed.event = front "\x7b\"n\":7,\"stop\":null\x7d" ++ rest := by
  intro c c' x x' front
  have hfalse : parseExpr "!false" = .ok (.unary .not (.literal (.bool false))) := by cbv
  have hnull : parseExpr "!null" = .ok (.unary .not (.literal .null)) := by cbv
  have hc : conditionResult c "!stop" = true :=
    conditionResult_eq_isTruthy (by decide +kernel) (by decide +kernel) (by decide +kernel) hfalse
  have hc' : conditionResult c' "!stop" = true :=
    conditionResult_eq_isTruthy (by decide +kernel) (by decide +kernel) (by decide +kernel) hnull
  have hconditions : ∀ s ∈ askingGraph.steps, ∀ expression, s.kind = .condition expression →
      expression = "!stop" := by
    intro s hs expression hkind
    simp only [askingGraph, List.mem_cons, List.not_mem_nil, or_false] at hs
    rcases hs with rfl | rfl | rfl | rfl <;> cases hkind
    rfl
  have hentry : askingGraph.entry? = some (.unlabelled "start" .entry) := by decide
  have htext : c.text = "\x7b\"stop\":false\x7d" ∧ c'.text = "\x7b\"n\":7,\"stop\":null\x7d" := by
    decide +kernel
  have hevents := (events_eq_of_results_eq askingGraph c c' .reference .instant
    fun s hs _ expression hkind => by
      rw [hconditions s hs expression hkind, hc, hc']).1
  simp only [hentry, htext.1, htext.2] at hevents
  exact ⟨hc.trans hc'.symm, hevents⟩

end Setup
end Workflow
