/-!
# Steps and transitions

What a workflow is made of.  A step has a kind, with the parameters that the kind needs, and is named
by its id; a transition leads from one id to another and may carry a branch, in which case it is
open for one result of a condition only.
-/

namespace Workflow

/-! ## Names -/

/-- In a table of items by their names, a name leads to the item that has it. -/
theorem lookup_map_eq_some_iff {α : Type} {name : α → String}
    (hname : ∀ a b, name a = name b → a = b) {items : List α} {s : String} {a : α} :
    (items.map fun b => (name b, b)).lookup s = some a ↔ a ∈ items ∧ s = name a := by
  induction items with
  | nil => simp
  | cons b rest ih =>
    rw [List.map_cons, List.lookup_cons, List.mem_cons]
    by_cases h : s = name b
    · rw [beq_iff_eq.2 h, Option.some.injEq]
      constructor
      · rintro rfl
        exact ⟨.inl rfl, h⟩
      · exact fun ⟨_, ha⟩ => hname b a (h.symm.trans ha)
    · have hb : ¬(a = b ∧ s = name a) := fun ⟨e, e'⟩ => h (e ▸ e')
      rw [beq_eq_false_iff_ne.2 h, ih, or_and_right, or_iff_right hb]

/-! ## Kinds of step -/

/-- The unit of a wait. -/
inductive DurationUnit where
  | seconds
  | minutes
  | hours
deriving DecidableEq, Repr, Inhabited

/-- The units by name. -/
def DurationUnit.names : List (String × DurationUnit) :=
  [("seconds", .seconds), ("minutes", .minutes), ("hours", .hours)]

/-- The name of a unit. -/
def DurationUnit.name : DurationUnit → String
  | .seconds => "seconds"
  | .minutes => "minutes"
  | .hours => "hours"

/-- The unit with a given name. -/
def DurationUnit.ofName? (s : String) : Option DurationUnit :=
  names.lookup s

theorem DurationUnit.ofName?_eq_some_iff {s : String} {unit : DurationUnit} :
    ofName? s = some unit ↔ s = unit.name := by
  have htable : names = [seconds, minutes, hours].map fun unit => (unit.name, unit) := rfl
  rw [ofName?, htable, lookup_map_eq_some_iff (by rintro ⟨⟩ ⟨⟩ <;> decide)]
  cases unit <;> simp

/-- What a step does. -/
inductive StepKind where
  | entry
  | condition (expression : String)
  | wait (duration : Float) (unit : DurationUnit)
  | call (url payload : String)
  | log (message : String)
  | terminal
  /-- A kind that is not among the others, by its name. -/
  | unknown (name : String)
deriving DecidableEq, Repr

/-- The name of a kind. -/
def StepKind.name : StepKind → String
  | .entry => "entry"
  | .condition _ => "condition"
  | .wait .. => "wait"
  | .call .. => "call"
  | .log _ => "log"
  | .terminal => "terminal"
  | .unknown name => name

/-- Whether a kind is that of a condition. -/
def StepKind.isCondition : StepKind → Bool
  | .condition _ => true
  | _ => false

/-- A step of a workflow. -/
structure Step where
  id : String
  label : String
  kind : StepKind
deriving DecidableEq, Repr

/-- A step that is labelled with the name of its kind. -/
def Step.unlabelled (id : String) (kind : StepKind) : Step where
  id := id
  label := kind.name
  kind := kind

@[simp] theorem Step.id_unlabelled (id : String) (kind : StepKind) :
    (Step.unlabelled id kind).id = id := rfl

/-! ## Transitions -/

/-- The result of a condition that a transition is open for. -/
inductive Branch where
  | whenTrue
  | whenFalse
deriving DecidableEq, Repr

/-- The branches by name. -/
def Branch.names : List (String × Branch) :=
  [("true", .whenTrue), ("false", .whenFalse)]

/-- The name of a branch. -/
def Branch.name : Branch → String
  | .whenTrue => "true"
  | .whenFalse => "false"

/-- The branch with a given name. -/
def Branch.ofName? (s : String) : Option Branch :=
  names.lookup s

theorem Branch.ofName?_eq_some_iff {s : String} {branch : Branch} :
    ofName? s = some branch ↔ s = branch.name := by
  have htable : names = [whenTrue, whenFalse].map fun branch => (branch.name, branch) := rfl
  rw [ofName?, htable, lookup_map_eq_some_iff (by rintro ⟨⟩ ⟨⟩ <;> decide)]
  cases branch <;> simp

/-- Whether a branch is open for a result. -/
def Branch.admits : Branch → Bool → Bool
  | .whenTrue, result => result
  | .whenFalse, result => !result

/-- A way from one step to another, both given by their ids. -/
structure Transition where
  source : String
  target : String
  branch : Option Branch
deriving DecidableEq, Repr

/-- Whether a transition is open for a result; without a branch it always is. -/
def Transition.admits (t : Transition) (result : Bool) : Bool :=
  t.branch.all (·.admits result)

end Workflow
