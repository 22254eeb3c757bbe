import Std.Data.HashMap
import Workflow.Step

/-!
# Graphs

A graph is a list of steps with different ids and a list of transitions between them, both in their
stored order, together with two indexes: from an id to the step that has it, and from an id to the
transitions that leave it.  A transition may leave or reach an id that no step has.

* `Graph.ofLists` builds a graph, or names the id that stands twice; `ofLists_eq_ok_iff` and
  `ofLists_eq_error_iff` say when it does which.
* `Graph.resolve?` and `Graph.outgoing` look up the indexes; `resolve?_eq_find?` and
  `outgoing_eq_filter` say that they agree with the lists.
* `Graph.validate` asks for exactly one entry.
-/

namespace Workflow

/-- What can be wrong with a graph. -/
inductive GraphError where
  | duplicateStepId (id : String)
  | noEntryStep
  | multipleEntries (ids : List String)
deriving DecidableEq, Repr

/-- The message for a fault of a graph. -/
def GraphError.message : GraphError → String
  | .duplicateStepId id => s!"Step id '{id}' is used by more than one step"
  | .noEntryStep => "The graph has no entry step"
  | .multipleEntries ids =>
    let names := ", ".intercalate ids
    s!"The graph has {ids.length} entry steps: {names}"

/-! ## The indexes -/

/-- The steps of a list by their ids; of two steps with one id the first counts. -/
def indexSteps (steps : List Step) : Std.HashMap String Step :=
  steps.foldr (fun s index => index.insert s.id s) ∅

/-- The transitions of a list by their sources, in the order of the list. -/
def indexTransitions (transitions : List Transition) : Std.HashMap String (List Transition) :=
  transitions.foldr (fun t index => index.insert t.source (t :: index.getD t.source [])) ∅

/-- Looking up an id in the index finds the first step that has it. -/
theorem getElem?_indexSteps (steps : List Step) (id : String) :
    (indexSteps steps)[id]? = steps.find? (·.id = id) := by
  induction steps with
  | nil => simp [indexSteps]
  | cons s rest ih =>
    have : indexSteps (s :: rest) = (indexSteps rest).insert s.id s := rfl
    rw [this, Std.HashMap.getElem?_insert, ih, List.find?_cons]
    by_cases h : s.id = id <;> simp [h]

/-- Looking up an id in the index finds the transitions that leave it. -/
theorem getD_indexTransitions (transitions : List Transition) (id : String) :
    (indexTransitions transitions).getD id [] = transitions.filter (·.source = id) := by
  induction transitions with
  | nil => simp [indexTransitions]
  | cons t rest ih =>
    have : indexTransitions (t :: rest) =
      (indexTransitions rest).insert t.source (t :: (indexTransitions rest).getD t.source []) := rfl
    rw [this, Std.HashMap.getD_insert, List.filter_cons]
    by_cases h : t.source = id
    · subst h; simp [ih]
    · simp [h, ih]

/-! ## Graphs -/

/-- A graph with its indexes. -/
structure Graph where
  steps : List Step
  transitions : List Transition
  stepIndex : Std.HashMap String Step
  transitionIndex : Std.HashMap String (List Transition)
  /-- The ids differ. -/
  nodup : (steps.map Step.id).Nodup
  stepIndex_eq : stepIndex = indexSteps steps
  transitionIndex_eq : transitionIndex = indexTransitions transitions

/-- The first name of a list that also stands before it; `seen` stands before all of them. -/
def firstRepeated? (seen : List String) : List String → Option String
  | [] => none
  | name :: rest => if name ∈ seen then some name else firstRepeated? (name :: seen) rest

/-- A list in which no name is repeated has different names, none of them seen before. -/
theorem nodup_of_firstRepeated?_eq_none {seen names : List String}
    (h : firstRepeated? seen names = none) : names.Nodup ∧ ∀ n ∈ names, n ∉ seen := by
  induction names generalizing seen with
  | nil => simp
  | cons n rest ih =>
    simp only [firstRepeated?] at h
    split at h
    · simp at h
    · next hn =>
      obtain ⟨hnodup, hseen⟩ := ih h
      refine ⟨List.nodup_cons.2 ⟨fun hmem => ?_, hnodup⟩, ?_⟩
      · exact hseen n hmem (List.mem_cons_self ..)
      · intro m hm
        rcases List.mem_cons.1 hm with rfl | hm
        · exact hn
        · exact fun hs => hseen m hm (List.mem_cons_of_mem _ hs)

/-- Reported is the first name that repeats one before it. -/
theorem firstRepeated?_eq_some_iff {seen names : List String} {name : String} :
    firstRepeated? seen names = some name ↔
      ∃ before after, names = before ++ name :: after ∧ before.Nodup ∧ (∀ n ∈ before, n ∉ seen) ∧
        (name ∈ seen ∨ name ∈ before) := by
  constructor
  · intro h
    induction names generalizing seen with
    | nil => simp [firstRepeated?] at h
    | cons n rest ih =>
      simp only [firstRepeated?] at h
      split at h
      · next hn =>
        obtain rfl := Option.some.inj h
        exact ⟨[], rest, rfl, List.nodup_nil, by simp, .inl hn⟩
      · next hn =>
        obtain ⟨before, after, rfl, hnodup, hseen, hname⟩ := ih h
        simp only [List.mem_cons, not_or] at hseen
        refine ⟨n :: before, after, rfl, List.nodup_cons.2 ⟨fun hmem => ?_, hnodup⟩, ?_, ?_⟩
        · exact (hseen n hmem).1 rfl
        · simpa [hn] using fun m hm => (hseen m hm).2
        · simpa [or_assoc, or_left_comm, or_comm] using hname
  · rintro ⟨before, after, rfl, hnodup, hseen, hname⟩
    induction before generalizing seen with
    | nil => exact if_pos (by simpa using hname)
    | cons n before ih =>
      obtain ⟨hn, hnodup⟩ := List.nodup_cons.1 hnodup
      simp only [List.forall_mem_cons] at hseen
      rw [List.cons_append, firstRepeated?, if_neg hseen.1]
      refine ih hnodup (fun m hm => ?_) (by simpa [or_assoc, or_left_comm, or_comm] using hname)
      rw [List.mem_cons, not_or]
      exact ⟨fun h => hn (h ▸ hm), hseen.2 m hm⟩

namespace Graph

/-- The graph of a list of steps and a list of transitions.  If an id stands twice, the error names
the first that repeats an earlier one. -/
def ofLists (steps : List Step) (transitions : List Transition) : Except GraphError Graph :=
  match h : firstRepeated? [] (steps.map Step.id) with
  | some id => .error (.duplicateStepId id)
  | none => .ok {
      steps := steps
      transitions := transitions
      stepIndex := indexSteps steps
      transitionIndex := indexTransitions transitions
      nodup := (nodup_of_firstRepeated?_eq_none h).1
      stepIndex_eq := rfl
      transitionIndex_eq := rfl }

/-- The step with a given id. -/
def resolve? (g : Graph) (id : String) : Option Step :=
  g.stepIndex[id]?

/-- The transitions that leave an id, in stored order. -/
def outgoing (g : Graph) (id : String) : List Transition :=
  g.transitionIndex.getD id []

/-- The step that a transition leads to, if there is one. -/
def target? (g : Graph) (t : Transition) : Option Step :=
  g.resolve? t.target

/-- The entry steps, in stored order. -/
def entries (g : Graph) : List Step :=
  g.steps.filter (·.kind = .entry)

/-- The first entry step. -/
def entry? (g : Graph) : Option Step :=
  g.entries.head?

/-- Asks for exactly one entry step. -/
def validate (g : Graph) : Except GraphError Unit :=
  match g.entries with
  | [] => .error .noEntryStep
  | [_] => .ok ()
  | many => .error (.multipleEntries (many.map Step.id))

/-! ## Graphs and lists -/

/-- A graph is determined by its lists. -/
theorem ext_lists {g g' : Graph} (hsteps : g.steps = g'.steps)
    (htransitions : g.transitions = g'.transitions) : g = g' := by
  obtain ⟨steps, transitions, stepIndex, transitionIndex, nodup, rfl, rfl⟩ := g
  obtain ⟨steps', transitions', stepIndex', transitionIndex', nodup', rfl, rfl⟩ := g'
  cases hsteps
  cases htransitions
  rfl

/-- Lists of which the steps have different ids are those of a graph. -/
theorem ofLists_eq_ok_iff {steps : List Step} {transitions : List Transition} {g : Graph} :
    ofLists steps transitions = .ok g ↔ steps = g.steps ∧ transitions = g.transitions := by
  unfold ofLists
  split
  · next id h =>
    refine ⟨nofun, ?_⟩
    rintro ⟨rfl, rfl⟩
    obtain ⟨before, after, hids, -, -, hid⟩ := firstRepeated?_eq_some_iff.1 h
    have hnodup := g.nodup
    rw [hids, List.nodup_append] at hnodup
    rcases hid with hid | hid
    · exact absurd hid (by simp)
    · exact absurd rfl (hnodup.2.2 id hid id (List.mem_cons_self ..))
  · next h =>
    constructor
    · rintro ⟨⟩
      exact ⟨rfl, rfl⟩
    · rintro ⟨rfl, rfl⟩
      exact congrArg _ (ext_lists rfl rfl)

/-- An id that stands twice is reported at its second place. -/
theorem ofLists_eq_error_iff {steps : List Step} {transitions : List Transition}
    {fault : GraphError} :
    ofLists steps transitions = .error fault ↔
      ∃ id before after, steps.map Step.id = before ++ id :: after ∧ before.Nodup ∧ id ∈ before ∧
        fault = .duplicateStepId id := by
  have hreport : ofLists steps transitions = .error fault ↔
      ∃ id, firstRepeated? [] (steps.map Step.id) = some id ∧ fault = .duplicateStepId id := by
    unfold ofLists
    split
    · next id h => simp [h, eq_comm]
    · next h => simp [h]
  simp only [hreport, firstRepeated?_eq_some_iff, List.not_mem_nil, not_false_eq_true,
    implies_true, false_or, true_and]
  constructor
  · rintro ⟨id, ⟨before, after, hids, hnodup, hid⟩, hfault⟩
    exact ⟨id, before, after, hids, hnodup, hid, hfault⟩
  · rintro ⟨id, before, after, hids, hnodup, hid, hfault⟩
    exact ⟨id, ⟨before, after, hids, hnodup, hid⟩, hfault⟩

/-- Resolving an id is looking for it among the steps. -/
theorem resolve?_eq_find? (g : Graph) (id : String) :
    g.resolve? id = g.steps.find? (·.id = id) := by
  rw [resolve?, g.stepIndex_eq, getElem?_indexSteps]

/-- What leaves an id are the transitions with that source. -/
theorem outgoing_eq_filter (g : Graph) (id : String) :
    g.outgoing id = g.transitions.filter (·.source = id) := by
  rw [outgoing, g.transitionIndex_eq, getD_indexTransitions]

end Graph
end Workflow
