import Workflow.Condition
import Workflow.Graph

/-!
# The order of visits

A run walks a graph breadth-first from its first entry step.  The steps that are to be visited wait
in a queue; a step that comes up is visited unless it was visited before, and after its visit the
steps that it leads to and that were not visited yet are put at the end of the queue.

* `Graph.followed` is where a step leads: for a condition the first transition that is open for its
  result, for a terminal step nowhere, and for all others every transition.
* `Graph.pops` is what the queue yields, and `Graph.visits` the steps visited among it.

The walk ends because a visit puts at most as many steps into the queue as transitions leave the
step, and no transition leaves two steps.
-/

namespace Workflow

/-- The result of a condition. -/
def conditionResult (c : Context) (expression : String) : Bool :=
  (evaluateCondition expression c).result

/-- A condition that is read comes to whether the value of what was read is truthy. -/
theorem conditionResult_eq_isTruthy {c : Context} {source substituted : String} {e : Expr}
    (hblank : Text.trim source.toList ≠ []) (hsubstitute : c.substitute source = substituted)
    (hpermitted : isPermitted substituted = true) (hparse : parseExpr substituted = .ok e) :
    conditionResult c source = e.value.isTruthy := by
  rw [conditionResult, evaluateCondition, if_neg hblank, hsubstitute]
  simp only [if_pos hpermitted, hparse, Resolution.result, Expr.outcome_trace]

/-- A step that came up in the queue. -/
structure Pop where
  step : Step
  /-- Whether the step had not been visited before. -/
  isVisit : Bool
deriving DecidableEq, Repr

namespace Graph

/-- The steps that a step leads to, visited or not. -/
def followed (g : Graph) (c : Context) (s : Step) : List Step :=
  match s.kind with
  | .terminal => []
  | .condition expression =>
    let result := conditionResult c expression
    let chosen := (g.outgoing s.id).find? fun t => t.admits result && (g.target? t).isSome
    (chosen.bind g.target?).toList
  | _ => (g.outgoing s.id).filterMap g.target?

/-- An optional item makes a list of one item at most. -/
theorem length_toList_le_one {α : Type} (o : Option α) : o.toList.length ≤ 1 := by
  cases o <;> simp

/-- A step leads to no more steps than transitions leave it. -/
theorem length_followed_le (g : Graph) (c : Context) (s : Step) :
    (g.followed c s).length ≤ (g.outgoing s.id).length := by
  unfold followed
  split
  · simp
  · next expression _ =>
    cases hf : (g.outgoing s.id).find? fun t =>
        t.admits (conditionResult c expression) && (g.target? t).isSome with
    | none => simp [hf]
    | some t =>
      have hpos : 0 < (g.outgoing s.id).length :=
        List.length_pos_of_mem (List.mem_of_find?_eq_some hf)
      simp only [hf]
      exact Nat.le_trans (length_toList_le_one _) hpos
  · exact List.length_filterMap_le ..

/-- The transitions that leave none of some ids. -/
def unused (g : Graph) (visited : List String) : List Transition :=
  g.transitions.filter (·.source ∉ visited)

/-- A visit uses up the transitions that leave the step. -/
theorem length_unused_cons (g : Graph) {visited : List String} {id : String}
    (h : id ∉ visited) :
    (g.unused (id :: visited)).length + (g.outgoing id).length = (g.unused visited).length := by
  rw [outgoing_eq_filter, unused, unused]
  simp only [List.mem_cons, not_or]
  induction g.transitions with
  | nil => rfl
  | cons t rest ih =>
    simp only [List.filter_cons]
    by_cases ht : t.source = id
    · subst ht
      simp only [h, not_false_eq_true, and_true, not_true_eq_false, decide_false,
        decide_true, Bool.false_eq_true, if_false, if_true, List.length_cons]
      omega
    · by_cases hv : t.source ∈ visited
      · simp only [ht, hv, not_true_eq_false, and_false, decide_false, Bool.false_eq_true, if_false]
        exact ih
      · simp only [ht, hv, not_false_eq_true, and_true, decide_true, decide_false,
          Bool.false_eq_true, if_false, if_true, List.length_cons]
        omega

/-- What the queue yields, from a state of the queue and the ids visited so far. -/
def popsFrom (g : Graph) (c : Context) (queue : List Step) (visited : List String) : List Pop :=
  match queue with
  | [] => []
  | s :: rest =>
    if s.id ∈ visited then ⟨s, false⟩ :: popsFrom g c rest visited
    else
      let next := (g.followed c s).filter fun t => t.id ∉ s.id :: visited
      ⟨s, true⟩ :: popsFrom g c (rest ++ next) (s.id :: visited)
termination_by queue.length + (g.unused visited).length
decreasing_by
  · simp
  · rename_i hnew
    have h1 := g.length_unused_cons hnew
    have h2 := g.length_followed_le c s
    have h3 := List.length_filter_le (fun t : Step => t.id ∉ s.id :: visited) (g.followed c s)
    simp only [List.length_append, List.length_cons] at h3 ⊢
    omega

/-- What the queue yields in a run, to begin with the first entry step. -/
def pops (g : Graph) (c : Context) : List Pop :=
  g.popsFrom c g.entry?.toList []

/-- The steps that a run visits, in order. -/
def visits (g : Graph) (c : Context) : List Step :=
  ((g.pops c).filter Pop.isVisit).map Pop.step

end Graph
end Workflow
