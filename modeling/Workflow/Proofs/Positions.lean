import Mathlib.Data.List.Nodup
import Workflow.Graph

/-!
# Look-ups and scans

A graph is looked up in its indexes, and finds there what a scan of its lists would find.  This is
said of the indexes that it has, which lead to steps and transitions, and of indexes that lead to
positions in the lists: those are made from front to back, in one pass over each list, and a position
at which nothing stands finds nothing.

* `RepeatsAt` says where a name repeats one before it.
* `Positions.ofLists` makes indexes of positions, or names the id that stands twice;
  `Positions.resolve?_eq_find?` and `Positions.outgoing_eq_filter` say what is found by them.
* `Graph.Judges` is what is said of the entry steps of a graph.
* `Graph.lookups_ofLists` is the law of graphs that are made of lists.
-/

namespace Workflow

/-! ## Names that stand twice -/

/-- Whether the name at a position of a list stands before that position, too. -/
def RepeatsAt (names : List String) (i : Nat) : Prop :=
  ∃ name, names[i]? = some name ∧ name ∈ names.take i

theorem repeatsAt_iff {names : List String} {j : Nat} :
    RepeatsAt names j ↔ j < names.length ∧ ∃ i < j, names[i]? = names[j]? := by
  simp only [RepeatsAt, List.mem_iff_getElem?, List.getElem?_take]
  constructor
  · rintro ⟨name, hj, i, hi⟩
    split at hi
    · next hlt => exact ⟨(List.getElem?_eq_some_iff.1 hj).1, i, hlt, hi.trans hj.symm⟩
    · cases hi
  · rintro ⟨hj, i, hlt, hi⟩
    refine ⟨names[j], List.getElem?_eq_getElem hj, i, ?_⟩
    rw [if_pos hlt, hi, List.getElem?_eq_getElem hj]

/-- Names differ if none of them repeats one before it. -/
theorem nodup_iff_forall_not_repeatsAt {names : List String} :
    names.Nodup ↔ ∀ i, ¬RepeatsAt names i := by
  simp only [List.nodup_iff_getElem?_ne_getElem?, repeatsAt_iff, not_and, not_exists]
  exact ⟨fun h j hj i hlt => h i j hlt hj, fun h i j hlt hj => h j hj i hlt⟩

/-- A front of a list repeats what the list repeats there. -/
theorem repeatsAt_append_iff {front : List String} {i : Nat} (hi : i < front.length)
    (back : List String) : RepeatsAt (front ++ back) i ↔ RepeatsAt front i := by
  rw [RepeatsAt, List.getElem?_append_left hi, List.take_append_of_le_length (Nat.le_of_lt hi),
    RepeatsAt]

/-! ## Indexes of positions -/

/-- Indexes that lead to positions in the lists of a graph. -/
structure Positions where
  /-- From an id to the position of the step that has it. -/
  ofStep : Std.HashMap String Nat
  /-- From an id to the positions of the transitions that leave it. -/
  ofTransitions : Std.HashMap String (List Nat)

/-- Enters steps into an index, of which the first stands at the given position.  An id that has been
entered before is reported. -/
def enterSteps (index : Std.HashMap String Nat) (position : Nat) :
    List Step → Except GraphError (Std.HashMap String Nat)
  | [] => .ok index
  | s :: rest =>
    if s.id ∈ index then .error (.duplicateStepId s.id)
    else enterSteps (index.insert s.id position) (position + 1) rest

/-- Enters transitions into an index, of which the first stands at the given position. -/
def enterTransitions (index : Std.HashMap String (List Nat)) (position : Nat) :
    List Transition → Std.HashMap String (List Nat)
  | [] => index
  | t :: rest =>
    enterTransitions (index.insert t.source (index.getD t.source [] ++ [position])) (position + 1)
      rest

/-- Entering steps fails at the first id that repeats one of those entered before it. -/
theorem enterSteps_eq_error_iff {index : Std.HashMap String Nat} {seen : List String}
    (hseen : ∀ id, id ∈ index ↔ id ∈ seen) (position : Nat) (steps : List Step)
    (fault : GraphError) :
    enterSteps index position steps = .error fault ↔
      ∃ id, firstRepeated? seen (steps.map Step.id) = some id ∧ fault = .duplicateStepId id := by
  induction steps generalizing index seen position with
  | nil => simp [enterSteps, firstRepeated?]
  | cons s rest ih =>
    rw [enterSteps, List.map_cons, firstRepeated?]
    by_cases hs : s.id ∈ seen
    · rw [if_pos ((hseen s.id).2 hs), if_pos hs]
      simp [eq_comm]
    · rw [if_neg fun h => hs ((hseen s.id).1 h), if_neg hs]
      refine ih (fun id => ?_) (position + 1)
      rw [Std.HashMap.mem_insert, beq_iff_eq, List.mem_cons, hseen, eq_comm]

/-- What has been entered of the steps leads from an id to the first step that has it. -/
theorem getElem?_enterSteps {index index' : Std.HashMap String Nat} (done : List Step)
    {rest : List Step}
    (h : ∀ id, index[id]? = done.findIdx? (·.id = id))
    (hentered : enterSteps index done.length rest = .ok index') (id : String) :
    index'[id]? = (done ++ rest).findIdx? (·.id = id) := by
  induction rest generalizing done index with
  | nil =>
    cases hentered
    rw [List.append_nil, h]
  | cons s rest ih =>
    rw [enterSteps] at hentered
    split at hentered
    · cases hentered
    · next hnew =>
      have hnone : done.findIdx? (·.id = s.id) = none := by
        rw [← h, ← Option.not_isSome_iff_eq_none]
        exact fun hsome => hnew (Std.HashMap.mem_iff_isSome_getElem?.2 hsome)
      rw [List.append_cons]
      refine ih (done ++ [s]) (fun other => ?_) (by rwa [List.length_append, List.length_singleton])
      rw [Std.HashMap.getElem?_insert, List.findIdx?_append, List.findIdx?_singleton]
      by_cases hid : s.id = other
      · subst hid
        simp [hnone]
      · simp [hid, h]

/-- What has been entered of the transitions leads from an id to those that leave it, in order. -/
theorem filterMap_enterTransitions {index : Std.HashMap String (List Nat)}
    (done : List Transition) {rest : List Transition}
    (h : ∀ id, (index.getD id []).filterMap ((done ++ rest)[·]?) = done.filter (·.source = id))
    (id : String) :
    ((enterTransitions index done.length rest).getD id []).filterMap ((done ++ rest)[·]?) =
      (done ++ rest).filter (·.source = id) := by
  induction rest generalizing done index with
  | nil => rw [enterTransitions, h, List.append_nil]
  | cons t rest ih =>
    rw [List.append_cons] at h ⊢
    have hlength : (done ++ [t]).length = done.length + 1 := by simp
    rw [enterTransitions, ← hlength]
    refine ih (done ++ [t]) fun other => ?_
    have hat : (done ++ [t] ++ rest)[done.length]? = some t := by simp
    rw [Std.HashMap.getD_insert, List.filter_append]
    by_cases hsource : t.source = other
    · rw [if_pos (beq_iff_eq.2 hsource), List.filterMap_append, hsource, h,
        List.filterMap_cons_some hat]
      simp [hsource]
    · rw [if_neg fun heq => hsource (beq_iff_eq.1 heq), h]
      simp [hsource]

namespace Positions

/-- The indexes of positions of a list of steps and a list of transitions. -/
def ofLists (steps : List Step) (transitions : List Transition) : Except GraphError Positions :=
  (enterSteps ∅ 0 steps).map fun index => ⟨index, enterTransitions ∅ 0 transitions⟩

/-- The step at the position of an id. -/
def resolve? (p : Positions) (steps : List Step) (id : String) : Option Step :=
  p.ofStep[id]?.bind (steps[·]?)

/-- The transitions at the positions of an id. -/
def outgoing (p : Positions) (transitions : List Transition) (id : String) : List Transition :=
  (p.ofTransitions.getD id []).filterMap (transitions[·]?)

theorem ofLists_eq_ok_iff {steps : List Step} {transitions : List Transition} {p : Positions} :
    ofLists steps transitions = .ok p ↔
      enterSteps ∅ 0 steps = .ok p.ofStep ∧ p.ofTransitions = enterTransitions ∅ 0 transitions := by
  obtain ⟨ofStep, ofTransitions⟩ := p
  rw [ofLists]
  cases enterSteps ∅ 0 steps with
  | error fault => simp [Except.map]
  | ok index => simp [Except.map, eq_comm]

/-- Indexes of positions are refused exactly if a graph is, and for the same reason. -/
theorem ofLists_eq_error_iff {steps : List Step} {transitions : List Transition}
    {fault : GraphError} :
    ofLists steps transitions = .error fault ↔ Graph.ofLists steps transitions = .error fault := by
  have hempty : ∀ id, id ∈ (∅ : Std.HashMap String Nat) ↔ id ∈ ([] : List String) := by simp
  have hpositions : ofLists steps transitions = .error fault ↔
      enterSteps ∅ 0 steps = .error fault := by
    rw [ofLists]
    cases enterSteps ∅ 0 steps <;> simp [Except.map]
  rw [hpositions, enterSteps_eq_error_iff hempty, Graph.ofLists]
  split
  · next id h => simp [h, eq_comm]
  · next h => simp [h]

variable {steps : List Step} {transitions : List Transition} {p : Positions}

/-- The position of an id leads to the first step that has the id. -/
theorem resolve?_eq_find? (h : ofLists steps transitions = .ok p) (id : String) :
    p.resolve? steps id = steps.find? (·.id = id) := by
  have hindex := getElem?_enterSteps [] (by simp) (ofLists_eq_ok_iff.1 h).1 id
  rw [resolve?, hindex, List.nil_append, List.find?_eq_bind_findIdx?_getElem?]

/-- The positions of an id lead to the transitions that leave it. -/
theorem outgoing_eq_filter (h : ofLists steps transitions = .ok p) (id : String) :
    p.outgoing transitions id = transitions.filter (·.source = id) := by
  rw [outgoing, (ofLists_eq_ok_iff.1 h).2]
  exact filterMap_enterTransitions [] (by simp) id

end Positions

/-! ## Graphs of lists -/

namespace Graph

/-- What is said of a list of entry steps: all is well if there is exactly one. -/
inductive Judges (entries : List Step) : Except GraphError Unit → Prop
  | none (h : entries = []) : Judges entries (.error .noEntryStep)
  | one {start : Step} (h : entries = [start]) : Judges entries (.ok ())
  | many (h : 2 ≤ entries.length) : Judges entries (.error (.multipleEntries (entries.map Step.id)))

theorem validate_eq_iff (g : Graph) (verdict : Except GraphError Unit) :
    g.validate = verdict ↔ Judges g.entries verdict := by
  unfold validate
  constructor
  · rintro rfl
    split
    · next h => exact .none h
    · next start h => exact .one h
    · next hnone hone =>
      refine .many ?_
      match h : g.entries with
      | [] => exact absurd h hnone
      | [start] => exact absurd h (hone start)
      | _ :: _ :: _ => simp
  · rintro (h | h | h)
    · rw [h]
    · rw [h]
    · split
      · next hnone => simp [hnone] at h
      · next start hone => simp [hone] at h
      · rfl

/-- An id that is reported stands at the first position at which an id repeats an earlier one. -/
theorem exists_repeatsAt_of_ofLists_eq_error {steps : List Step} {transitions : List Transition}
    {fault : GraphError} (h : ofLists steps transitions = .error fault) :
    ∃ i id, (steps.map Step.id)[i]? = some id ∧ id ∈ (steps.map Step.id).take i ∧
      (∀ j < i, ¬RepeatsAt (steps.map Step.id) j) ∧ fault = .duplicateStepId id := by
  obtain ⟨id, before, after, hids, hnodup, hid, rfl⟩ := ofLists_eq_error_iff.1 h
  rw [hids]
  refine ⟨before.length, id, by simp, by simpa using hid, fun j hj hrepeats => ?_, rfl⟩
  rw [repeatsAt_append_iff hj] at hrepeats
  exact nodup_iff_forall_not_repeatsAt.1 hnodup j hrepeats

/-- **Look-ups and scans.**  Lists of steps and transitions make no graph exactly if an id stands
twice; then the id at the first position is named that repeats an earlier one.  Otherwise the graph
has the lists that it was made of; an id, whether a step has it or not, is resolved as a search
through the steps would find it and left by the transitions that have it as their source; the entry is
the first entry step; and there is nothing against the graph exactly if it has one entry step.  Indexes
of positions are refused for the same ids and find the same steps and transitions. -/
theorem lookups_ofLists (steps : List Step) (transitions : List Transition) :
    let ids := steps.map Step.id
    let isEntry : Step → Bool := fun s => s.kind = .entry
    match ofLists steps transitions with
    | .error fault =>
      (∃ i id, ids[i]? = some id ∧ id ∈ ids.take i ∧ (∀ j < i, ¬RepeatsAt ids j) ∧
        fault = .duplicateStepId id) ∧
      Positions.ofLists steps transitions = .error fault
    | .ok g =>
      ids.Nodup ∧ g.steps = steps ∧ g.transitions = transitions ∧
      (∀ id, g.resolve? id = steps.find? (·.id = id) ∧
        g.outgoing id = transitions.filter (·.source = id)) ∧
      g.entry? = steps.find? isEntry ∧
      (∀ verdict, g.validate = verdict ↔ Judges (steps.filter isEntry) verdict) ∧
      ∃ p, Positions.ofLists steps transitions = .ok p ∧
        ∀ id, p.resolve? steps id = g.resolve? id ∧ p.outgoing transitions id = g.outgoing id := by
  intro ids isEntry
  cases h : ofLists steps transitions with
  | error fault =>
    exact ⟨exists_repeatsAt_of_ofLists_eq_error h, Positions.ofLists_eq_error_iff.2 h⟩
  | ok g =>
    obtain ⟨rfl, rfl⟩ := ofLists_eq_ok_iff.1 h
    refine ⟨g.nodup, rfl, rfl, fun id => ⟨g.resolve?_eq_find? id, g.outgoing_eq_filter id⟩,
      List.head?_filter, g.validate_eq_iff, ?_⟩
    cases hp : Positions.ofLists g.steps g.transitions with
    | error fault =>
      rw [Positions.ofLists_eq_error_iff, h] at hp
      cases hp
    | ok p =>
      refine ⟨p, rfl, fun id => ?_⟩
      rw [Positions.resolve?_eq_find? hp, Positions.outgoing_eq_filter hp, resolve?_eq_find?,
        outgoing_eq_filter]
      exact ⟨rfl, rfl⟩

end Graph
end Workflow
