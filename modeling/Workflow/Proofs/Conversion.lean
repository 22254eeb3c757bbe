import Mathlib.Data.List.Forall2
import Workflow.Document.Conversion

/-!
# The graph of a document

Which documents are graphs, what their graphs are, and what is reported of all others, said without
the passes in which the conversion is done.

* `Defaulted` is how a parameter that may be left out comes to its value, `Node.IsStep` what the step
  of a node is and `Document.IsTransition` what the transition of an edge is.
* `Node.HasUnit` and `Edge.HasEnds` are what a graph asks of every node and every edge, and
  `Document.Keeps` is which edges become transitions.
* `Document.HasFault` is the fault that is reported.
* `Document.toGraph_iff` says that the conversion keeps to all of these.
-/

namespace Workflow

/-! ## Converting lists -/

/-- The first item of a list that is not as it should be. -/
def IsFirstNot {α : Type} (good : α → Prop) (l : List α) (a : α) : Prop :=
  ∃ before after, l = before ++ a :: after ∧ (∀ b ∈ before, good b) ∧ ¬good a

theorem IsFirstNot.not_good {α : Type} {good : α → Prop} {l : List α} {a : α}
    (h : IsFirstNot good l a) : ¬good a :=
  let ⟨_, _, _, _, hnot⟩ := h
  hnot

section ConvertAll

variable {α β : Type} {f : α → Except ConversionError β}

theorem convertAll_eq_ok_iff {l : List α} {bs : List β} :
    convertAll f l = .ok bs ↔ List.Forall₂ (fun a b => f a = .ok b) l bs := by
  induction l generalizing bs with
  | nil => simp [convertAll, eq_comm]
  | cons a rest ih =>
    rw [convertAll, List.forall₂_cons_left_iff]
    cases ha : f a with
    | error fault => simp
    | ok b =>
      cases hrest : convertAll f rest with
      | error fault =>
        have hnone : ∀ cs, ¬List.Forall₂ (fun a b => f a = .ok b) rest cs := fun cs h => by
          rw [← ih, hrest] at h
          cases h
        simp [Except.map, hnone]
      | ok cs =>
        constructor
        · rintro ⟨⟩
          exact ⟨b, cs, rfl, ih.1 hrest, rfl⟩
        · rintro ⟨b', cs', hb, hcs, rfl⟩
          cases hb
          rw [← ih, hrest] at hcs
          cases hcs
          rfl

/-- A conversion fails at the first item that cannot be converted. -/
theorem convertAll_eq_error_iff {l : List α} {fault : ConversionError} :
    convertAll f l = .error fault ↔
      ∃ a, IsFirstNot (fun b => ∃ c, f b = .ok c) l a ∧ f a = .error fault := by
  constructor
  · intro h
    induction l with
    | nil => cases h
    | cons a rest ih =>
      rw [convertAll] at h
      cases ha : f a with
      | error other =>
        rw [ha] at h
        cases h
        exact ⟨a, ⟨[], rest, rfl, by simp, by simp [ha]⟩, ha⟩
      | ok b =>
        cases hrest : convertAll f rest with
        | ok bs =>
          rw [ha, hrest] at h
          cases h
        | error other =>
          rw [ha, hrest] at h
          cases h
          obtain ⟨a', ⟨before, after, rfl, hbefore, hnot⟩, ha'⟩ := ih hrest
          exact ⟨a', ⟨a :: before, after, rfl, List.forall_mem_cons.2 ⟨⟨b, ha⟩, hbefore⟩, hnot⟩,
            ha'⟩
  · rintro ⟨a, ⟨before, after, rfl, hbefore, -⟩, ha⟩
    induction before with
    | nil => rw [List.nil_append, convertAll, ha]
    | cons b before ih =>
      obtain ⟨⟨c, hc⟩, hbefore⟩ := List.forall_mem_cons.1 hbefore
      rw [List.cons_append, convertAll, hc, ih hbefore]
      rfl

theorem exists_of_convertAll_eq_ok {l : List α} {bs : List β} (h : convertAll f l = .ok bs) :
    ∀ a ∈ l, ∃ b, f a = .ok b := by
  rw [convertAll_eq_ok_iff] at h
  induction h with
  | nil => simp
  | cons hb _ ih => exact List.forall_mem_cons.2 ⟨⟨_, hb⟩, ih⟩

theorem convertAll_eq_ok_map {g : α → β} {l : List α} (h : ∀ a ∈ l, f a = .ok (g a)) :
    convertAll f l = .ok (l.map g) := by
  rw [convertAll_eq_ok_iff, List.forall₂_map_right_iff, List.forall₂_same]
  exact h

theorem convertAll_map {γ : Type} (g : γ → α) (l : List γ) :
    convertAll f (l.map g) = convertAll (fun c => f (g c)) l := by
  induction l with
  | nil => rfl
  | cons c rest ih => rw [List.map_cons, convertAll, convertAll, ih]

end ConvertAll

/-! ## Defaults -/

/-- How a parameter that may be left out comes to its value: what is given counts if it can be used,
and otherwise the default. -/
def Defaulted {α : Type} (usable : α → Prop) (given : Option α) (default a : α) : Prop :=
  (given = some a ∧ usable a) ∨ ((∀ b ∈ given, ¬usable b) ∧ a = default)

theorem defaulted_iff {α : Type} {usable : α → Prop} {p : α → Bool} (hp : ∀ a, p a = true ↔ usable a)
    {given : Option α} {default a : α} :
    Defaulted usable given default a ↔ (given.filter p).getD default = a := by
  unfold Defaulted
  cases given with
  | none => simp [eq_comm]
  | some b =>
    rw [Option.filter_some]
    cases hb : p b with
    | true =>
      have := (hp b).1 hb
      simp only [Option.some.injEq, Option.mem_def, forall_eq', this, not_true_eq_false,
        false_and, or_false, if_true, Option.getD_some]
      exact ⟨fun h => h.1, by rintro rfl; exact ⟨rfl, this⟩⟩
    | false =>
      have : ¬usable b := fun h => by simp [(hp b).2 h] at hb
      simp only [Option.some.injEq, Option.mem_def, forall_eq', this, not_false_eq_true, true_and,
        Bool.false_eq_true, if_false, Option.getD_none, eq_comm (a := a)]
      refine ⟨?_, .inr⟩
      rintro (⟨rfl, h⟩ | h)
      · exact absurd h this
      · exact h

theorem defaulted_text_iff {given : Option String} {default s : String} :
    Defaulted (· ≠ "") given default s ↔ (nonEmpty given).getD default = s :=
  defaulted_iff (by simp)

/-! ## Nodes -/

namespace Node

/-- Whether the step of a node is a wait. -/
def IsWait (n : Node) : Prop :=
  n.kind = "delay" ∨ n.kind = "wait"

/-- What a graph asks of a node: the unit of a wait, if one is given, is a unit. -/
def HasUnit (n : Node) : Prop :=
  n.IsWait → ∀ s ∈ n.data.durationUnit, s = "" ∨ ∃ unit : DurationUnit, s = unit.name

/-- The names that a node's type can have if its step is of a known kind. -/
def knownKinds : List String :=
  ["start", "entry", "condition", "delay", "wait", "webhook", "call", "logger", "log", "end",
    "terminal"]

/-- What the step of a node does. -/
inductive Performs (n : Node) : StepKind → Prop
  | entry (hkind : n.kind = "start" ∨ n.kind = "entry") : n.Performs .entry
  | condition {expression : String} (hkind : n.kind = "condition")
      (hexpression : Defaulted (· ≠ "") n.data.condition "" expression) :
      n.Performs (.condition expression)
  | wait {duration : Float} {unit : DurationUnit} (hkind : n.IsWait)
      (hduration : Defaulted (fun x => x.isNaN = false ∧ (x == 0) = false) n.data.duration 1
        duration)
      (hunit : Defaulted (· ≠ "") n.data.durationUnit "seconds" unit.name) :
      n.Performs (.wait duration unit)
  | call {url payload : String} (hkind : n.kind = "webhook" ∨ n.kind = "call")
      (hurl : Defaulted (· ≠ "") n.data.url defaultUrl url)
      (hpayload : Defaulted (· ≠ "") n.data.payload defaultPayload payload) :
      n.Performs (.call url payload)
  | log {message : String} (hkind : n.kind = "logger" ∨ n.kind = "log")
      (hmessage : Defaulted (· ≠ "") n.data.message defaultMessage message) :
      n.Performs (.log message)
  | terminal (hkind : n.kind = "end" ∨ n.kind = "terminal") : n.Performs .terminal
  | unknown (hkind : n.kind ∉ knownKinds) : n.Performs (.unknown n.kind)

/-- Whether a step is that of a node: it has the node's id and does what the node says, and where
the node has no label it is labelled with the node's type. -/
structure IsStep (n : Node) (s : Step) : Prop where
  id_eq : s.id = n.id
  label : Defaulted (· ≠ "") n.data.label n.kind s.label
  performs : n.Performs s.kind

/-! ### The step of a node -/

theorem unit_eq_ok_iff (d : NodeData) (id : String) (unit : DurationUnit) :
    d.unit id = .ok unit ↔ Defaulted (· ≠ "") d.durationUnit "seconds" unit.name := by
  rw [defaulted_text_iff, NodeData.unit]
  cases nonEmpty d.durationUnit with
  | none => cases unit <;> simp [DurationUnit.name]
  | some s =>
    simp only [Option.getD_some, ← DurationUnit.ofName?_eq_some_iff]
    cases DurationUnit.ofName? s <;> simp

theorem defaulted_waitDuration_iff (d : NodeData) (duration : Float) :
    Defaulted (fun x => x.isNaN = false ∧ (x == 0) = false) d.duration 1 duration ↔
      d.waitDuration = duration :=
  defaulted_iff fun x => by simp [bne, and_comm]

theorem getD_nonEmpty (given : Option String) : (nonEmpty given).getD "" = given.getD "" := by
  cases given with
  | none => rfl
  | some s => by_cases h : s = "" <;> simp [nonEmpty, Option.filter_some, h]

theorem stepKind_of_isWait {n : Node} (h : n.IsWait) :
    n.stepKind = (n.data.unit n.id).map (.wait n.data.waitDuration) := by
  unfold stepKind
  rcases h with h | h <;> rw [h] <;> cases n.data.unit n.id <;> rfl

theorem stepKind_eq_ok_iff (n : Node) (kind : StepKind) :
    n.stepKind = .ok kind ↔ n.Performs kind := by
  constructor
  · intro h
    by_cases hwait : n.IsWait
    · rw [stepKind_of_isWait hwait] at h
      cases hunit : n.data.unit n.id with
      | error fault => rw [hunit] at h; cases h
      | ok unit =>
        rw [hunit] at h
        cases h
        exact .wait hwait ((defaulted_waitDuration_iff _ _).2 rfl) ((unit_eq_ok_iff _ _ _).1 hunit)
    · unfold stepKind at h
      split at h
      case h_4 hkind => exact absurd (.inl hkind) hwait
      case h_5 hkind => exact absurd (.inr hkind) hwait
      all_goals cases h
      case h_1.refl hkind => exact .entry (.inl hkind)
      case h_2.refl hkind => exact .entry (.inr hkind)
      case h_3.refl hkind =>
        exact .condition hkind (defaulted_text_iff.2 (getD_nonEmpty _))
      case h_6.refl hkind =>
        exact .call (.inl hkind) (defaulted_text_iff.2 rfl) (defaulted_text_iff.2 rfl)
      case h_7.refl hkind =>
        exact .call (.inr hkind) (defaulted_text_iff.2 rfl) (defaulted_text_iff.2 rfl)
      case h_8.refl hkind => exact .log (.inl hkind) (defaulted_text_iff.2 rfl)
      case h_9.refl hkind => exact .log (.inr hkind) (defaulted_text_iff.2 rfl)
      case h_10.refl hkind => exact .terminal (.inl hkind)
      case h_11.refl hkind => exact .terminal (.inr hkind)
      case h_12.refl =>
        refine .unknown ?_
        simp only [knownKinds, List.mem_cons, List.not_mem_nil, or_false]
        tauto
  · rintro (hkind | ⟨hkind, hexpression⟩ | ⟨hkind, hduration, hunit⟩ | ⟨hkind, hurl, hpayload⟩ |
      ⟨hkind, hmessage⟩ | hkind | hkind)
    · rcases hkind with hkind | hkind <;> simp only [stepKind, hkind]
    · simp only [stepKind, hkind, ← defaulted_text_iff.1 hexpression, getD_nonEmpty]
    · rw [stepKind_of_isWait hkind, (unit_eq_ok_iff _ _ _).2 hunit,
        (defaulted_waitDuration_iff _ _).1 hduration]
      rfl
    · rcases hkind with hkind | hkind <;>
        simp only [stepKind, hkind, ← defaulted_text_iff.1 hurl, ← defaulted_text_iff.1 hpayload]
    · rcases hkind with hkind | hkind <;>
        simp only [stepKind, hkind, ← defaulted_text_iff.1 hmessage]
    · rcases hkind with hkind | hkind <;> simp only [stepKind, hkind]
    · unfold stepKind
      split <;> simp_all [knownKinds]

theorem toStep_eq_ok_iff (n : Node) (s : Step) : n.toStep = .ok s ↔ n.IsStep s := by
  have hstep : n.IsStep s ↔ s.id = n.id ∧ (nonEmpty n.data.label).getD n.kind = s.label ∧
      n.stepKind = .ok s.kind := by
    rw [stepKind_eq_ok_iff, ← defaulted_text_iff]
    exact ⟨fun h => ⟨h.id_eq, h.label, h.performs⟩, fun ⟨hid, hlabel, hkind⟩ => ⟨hid, hlabel, hkind⟩⟩
  obtain ⟨id, label, kind⟩ := s
  rw [hstep, toStep]
  cases n.stepKind with
  | error fault => simp
  | ok k => simp [eq_comm]

theorem unit_eq_error_iff (d : NodeData) (id : String) (fault : ConversionError) :
    d.unit id = .error fault ↔
      ∃ s, d.durationUnit = some s ∧ ¬(s = "" ∨ ∃ unit : DurationUnit, s = unit.name) ∧
        fault = .unknownDurationUnit id s := by
  rw [NodeData.unit]
  cases d.durationUnit with
  | none => simp [nonEmpty]
  | some s =>
    by_cases hs : s = ""
    · simp [nonEmpty, Option.filter_some, hs]
    · simp only [nonEmpty, Option.filter_some, ← DurationUnit.ofName?_eq_some_iff]
      cases hunit : DurationUnit.ofName? s <;> simp [hs, hunit, eq_comm]

/-- Conditions become conditions, and nothing else does. -/
theorem Performs.isCondition_iff {n : Node} {kind : StepKind} (h : n.Performs kind) :
    kind.isCondition = true ↔ n.kind = "condition" := by
  cases h with
  | condition hkind => simp [StepKind.isCondition, hkind]
  | unknown hkind =>
    have hne : n.kind ≠ "condition" := fun h => hkind (by simp [knownKinds, h])
    simp [StepKind.isCondition, hne]
  | entry hkind | wait hkind | call hkind | log hkind | terminal hkind =>
    rcases hkind with hkind | hkind <;> simp [StepKind.isCondition, hkind]

/-- The step of a node cannot be had only for its unit. -/
theorem toStep_eq_error_iff (n : Node) (fault : ConversionError) :
    n.toStep = .error fault ↔
      ¬n.HasUnit ∧ ∃ s, n.data.durationUnit = some s ∧ fault = .unknownDurationUnit n.id s := by
  have hstep : n.toStep = .error fault ↔ n.stepKind = .error fault := by
    rw [toStep]
    cases n.stepKind <;> simp
  rw [hstep]
  by_cases hwait : n.IsWait
  · have hmap : n.stepKind = .error fault ↔ n.data.unit n.id = .error fault := by
      rw [stepKind_of_isWait hwait]
      cases n.data.unit n.id <;> simp [Except.map]
    rw [hmap, unit_eq_error_iff, HasUnit]
    cases n.data.durationUnit with
    | none => simp
    | some s => simp [hwait]
  · have hkind : ∃ kind, n.stepKind = .ok kind := by
      unfold stepKind
      split
      case h_4 hkind => exact absurd (.inl hkind) hwait
      case h_5 hkind => exact absurd (.inr hkind) hwait
      all_goals exact ⟨_, rfl⟩
    obtain ⟨kind, hkind⟩ := hkind
    simp [hkind, HasUnit, hwait]

end Node

/-! ## Edges -/

/-- What a graph asks of an edge: it leads from somewhere to somewhere. -/
def Edge.HasEnds (e : Edge) : Prop :=
  e.source ≠ "" ∧ e.target ≠ ""

namespace Document

/-- Whether an id is that of a condition. -/
def IsCondition (d : Document) (id : String) : Prop :=
  ∃ n ∈ d.nodes, n.id = id ∧ n.kind = "condition"

instance (d : Document) : DecidablePred d.IsCondition :=
  fun id => inferInstanceAs (Decidable (∃ n ∈ d.nodes, n.id = id ∧ n.kind = "condition"))

/-- Whether an edge becomes a transition.  One that leaves a condition does not if its handle is for
neither result. -/
def Keeps (d : Document) (e : Edge) : Prop :=
  ¬(d.IsCondition e.source ∧ ∃ s ∈ e.sourceHandle, s ≠ "" ∧ s ≠ "true" ∧ s ≠ "false")

instance (d : Document) : DecidablePred d.Keeps :=
  fun e => inferInstanceAs (Decidable
    (¬(d.IsCondition e.source ∧ ∃ s ∈ e.sourceHandle, s ≠ "" ∧ s ≠ "true" ∧ s ≠ "false")))

/-- Whether a transition is that of an edge: it has the ends of the edge, and it has a branch if the
edge leaves a condition by the handle of that branch. -/
structure IsTransition (d : Document) (e : Edge) (t : Transition) : Prop where
  source_eq : t.source = e.source
  target_eq : t.target = e.target
  branch_eq_some_iff : ∀ branch, t.branch = some branch ↔
    d.IsCondition e.source ∧ e.sourceHandle = some branch.name

/-- The transition of an edge that has ends. -/
def transition? (d : Document) (e : Edge) : Option Transition :=
  match (nonEmpty e.sourceHandle).filter fun _ => d.IsCondition e.source with
  | none => some ⟨e.source, e.target, none⟩
  | some handle => (Branch.ofName? handle).map fun branch => ⟨e.source, e.target, some branch⟩

/-- The branch of an edge settles its transition. -/
theorem isTransition_iff {d : Document} {e : Edge} {branch? : Option Branch}
    (h : ∀ branch, branch? = some branch ↔
      d.IsCondition e.source ∧ e.sourceHandle = some branch.name) (t : Transition) :
    d.IsTransition e t ↔ ⟨e.source, e.target, branch?⟩ = t := by
  constructor
  · rintro ⟨hsource, htarget, hbranch⟩
    obtain ⟨source, target, branch⟩ := t
    have hbranches : branch? = branch := Option.ext fun b => (h b).trans (hbranch b).symm
    exact hsource ▸ htarget ▸ hbranches ▸ rfl
  · rintro rfl
    exact ⟨rfl, rfl, h⟩

/-- The handle that counts on an edge is one that is not empty, if the edge leaves a condition. -/
theorem filter_sourceHandle_eq_some_iff {d : Document} {e : Edge} {s : String} :
    (nonEmpty e.sourceHandle).filter (fun _ => d.IsCondition e.source) = some s ↔
      d.IsCondition e.source ∧ e.sourceHandle = some s ∧ s ≠ "" := by
  simp only [nonEmpty, Option.filter_eq_some_iff, decide_eq_true_iff]
  exact ⟨fun ⟨⟨hhandle, hs⟩, hcondition⟩ => ⟨hcondition, hhandle, hs⟩,
    fun ⟨hcondition, hhandle, hs⟩ => ⟨⟨hhandle, hs⟩, hcondition⟩⟩

/-- An edge is left out or has one transition. -/
theorem transition?_cases (d : Document) (e : Edge) :
    (¬d.Keeps e ∧ d.transition? e = none) ∨
      (d.Keeps e ∧ ∃ t, d.transition? e = some t ∧ ∀ t', d.IsTransition e t' ↔ t = t') := by
  cases hhandle : (nonEmpty e.sourceHandle).filter (fun _ => d.IsCondition e.source) with
  | none =>
    have hnone : ∀ s, ¬(d.IsCondition e.source ∧ e.sourceHandle = some s ∧ s ≠ "") := fun s hs => by
      rw [filter_sourceHandle_eq_some_iff.2 hs] at hhandle
      cases hhandle
    have hkeeps : d.Keeps e := fun ⟨hcondition, s, hs, hne, _⟩ => hnone s ⟨hcondition, hs, hne⟩
    have hbranch : ∀ branch : Branch,
        ¬(d.IsCondition e.source ∧ e.sourceHandle = some branch.name) :=
      fun branch ⟨hcondition, hs⟩ => hnone _ ⟨hcondition, hs, by cases branch <;> decide⟩
    refine .inr ⟨hkeeps, ⟨e.source, e.target, none⟩, by rw [transition?, hhandle], ?_⟩
    exact isTransition_iff fun branch => ⟨nofun, fun h => absurd h (hbranch branch)⟩
  | some s =>
    obtain ⟨hcondition, hsource, hs⟩ := filter_sourceHandle_eq_some_iff.1 hhandle
    have hkeeps : d.Keeps e ↔ s = "true" ∨ s = "false" := by
      simp only [Keeps, hcondition, hsource, Option.mem_def, Option.some.injEq, exists_eq_left',
        true_and, not_and_or, not_not, hs, false_or, ne_eq]
    rw [transition?, hhandle, hkeeps]
    cases hbranch : Branch.ofName? s with
    | none =>
      have hother : ∀ branch : Branch, s ≠ branch.name := fun branch h => by
        rw [Branch.ofName?_eq_some_iff.2 h] at hbranch
        cases hbranch
      exact .inl ⟨not_or.2 ⟨hother .whenTrue, hother .whenFalse⟩, by simp [hbranch]⟩
    | some branch =>
      have hname : s = branch.name := Branch.ofName?_eq_some_iff.1 hbranch
      refine .inr ⟨?_, ⟨e.source, e.target, some branch⟩, by simp [hbranch], ?_⟩
      · rw [hname]
        cases branch <;> decide
      · refine isTransition_iff fun b => ?_
        rw [← hbranch, Branch.ofName?_eq_some_iff, hsource, Option.some.injEq,
          and_iff_right hcondition]

/-- The transitions of the edges that are kept. -/
theorem forall₂_isTransition_iff (d : Document) (edges : List Edge) (ts : List Transition) :
    List.Forall₂ d.IsTransition (edges.filter d.Keeps) ts ↔ edges.filterMap d.transition? = ts := by
  induction edges generalizing ts with
  | nil => simp [eq_comm]
  | cons e rest ih =>
    rcases d.transition?_cases e with ⟨hkeeps, hnone⟩ | ⟨hkeeps, t, ht, huniq⟩
    · rw [List.filter_cons_of_neg (by simpa using hkeeps), List.filterMap_cons_none hnone, ih]
    · rw [List.filter_cons_of_pos (by simpa using hkeeps), List.filterMap_cons_some ht,
        List.forall₂_cons_left_iff]
      simp only [huniq, ih]
      constructor
      · rintro ⟨_, _, rfl, rfl, rfl⟩
        rfl
      · rintro rfl
        exact ⟨_, _, rfl, rfl, rfl⟩

/-- Among the steps of the nodes, the conditions are those of the document. -/
theorem isConditionId_eq {d : Document} {steps : List Step}
    (h : List.Forall₂ Node.IsStep d.nodes steps) (id : String) :
    isConditionId steps id = decide (d.IsCondition id) := by
  rw [Bool.eq_iff_iff, decide_eq_true_iff, isConditionId, IsCondition]
  generalize d.nodes = nodes at h
  induction h with
  | nil => simp
  | cons hstep _ ih =>
    rw [List.any_cons, Bool.or_eq_true, ih, List.exists_mem_cons_iff, Bool.and_eq_true, beq_iff_eq,
      hstep.id_eq, hstep.performs.isCondition_iff]

theorem toTransition?_eq {d : Document} {steps : List Step}
    (h : List.Forall₂ Node.IsStep d.nodes steps) (e : Edge) :
    e.toTransition? steps =
      if e.source = "" ∨ e.target = "" then .error (.openEdge e.id) else .ok (d.transition? e) := by
  simp only [Edge.toTransition?, isConditionId_eq h, transition?]
  cases (nonEmpty e.sourceHandle).filter fun _ => decide (d.IsCondition e.source) <;> rfl

/-! ## Documents -/

theorem convertAll_toStep_eq_ok_iff {nodes : List Node} {steps : List Step} :
    convertAll Node.toStep nodes = .ok steps ↔ List.Forall₂ Node.IsStep nodes steps := by
  simp only [convertAll_eq_ok_iff, Node.toStep_eq_ok_iff]

/-- A node without a step is one whose unit is none. -/
theorem exists_toStep_iff (n : Node) : (∃ s, n.toStep = .ok s) ↔ n.HasUnit := by
  constructor
  · rintro ⟨s, hs⟩
    by_contra hunit
    obtain ⟨hwait, unit, hgiven, -⟩ := by simpa [Node.HasUnit] using hunit
    have := (n.toStep_eq_error_iff _).2 ⟨hunit, unit, hgiven, rfl⟩
    rw [hs] at this
    cases this
  · intro hunit
    cases hs : n.toStep with
    | ok s => exact ⟨s, rfl⟩
    | error fault => exact absurd hunit ((n.toStep_eq_error_iff fault).1 hs).1

theorem convertAll_toStep_eq_error_iff {nodes : List Node} {fault : ConversionError} :
    convertAll Node.toStep nodes = .error fault ↔
      ∃ n s, IsFirstNot Node.HasUnit nodes n ∧ n.data.durationUnit = some s ∧
        fault = .unknownDurationUnit n.id s := by
  simp only [convertAll_eq_error_iff, exists_toStep_iff, Node.toStep_eq_error_iff]
  constructor
  · rintro ⟨n, hfirst, -, s, hgiven, hfault⟩
    exact ⟨n, s, hfirst, hgiven, hfault⟩
  · rintro ⟨n, s, hfirst, hgiven, hfault⟩
    exact ⟨n, hfirst, hfirst.not_good, s, hgiven, hfault⟩

/-- Nodes with units have steps. -/
theorem exists_forall₂_isStep {nodes : List Node} (h : ∀ n ∈ nodes, n.HasUnit) :
    ∃ steps, List.Forall₂ Node.IsStep nodes steps := by
  cases hsteps : convertAll Node.toStep nodes with
  | ok steps => exact ⟨steps, convertAll_toStep_eq_ok_iff.1 hsteps⟩
  | error fault =>
    obtain ⟨n, -, ⟨before, after, rfl, -, hunit⟩, -⟩ := convertAll_toStep_eq_error_iff.1 hsteps
    exact absurd (h n (by simp)) hunit

section

variable {d : Document} {steps : List Step} (h : List.Forall₂ Node.IsStep d.nodes steps)
include h

theorem hasUnit_of_forall₂ : ∀ n ∈ d.nodes, n.HasUnit := by
  intro n hn
  exact (exists_toStep_iff n).1
    (exists_of_convertAll_eq_ok (convertAll_toStep_eq_ok_iff.2 h) n hn)

theorem map_id_of_forall₂ : steps.map Step.id = d.nodes.map Node.id := by
  generalize d.nodes = nodes at h
  induction h with
  | nil => rfl
  | cons hstep _ ih => rw [List.map_cons, List.map_cons, hstep.id_eq, ih]

theorem exists_toTransition?_iff (e : Edge) :
    (∃ t, e.toTransition? steps = .ok t) ↔ e.HasEnds := by
  rw [toTransition?_eq h, Edge.HasEnds, ← not_or]
  by_cases hopen : e.source = "" ∨ e.target = "" <;> simp [hopen]

theorem toTransition?_eq_error_iff (e : Edge) (fault : ConversionError) :
    e.toTransition? steps = .error fault ↔ ¬e.HasEnds ∧ fault = .openEdge e.id := by
  rw [toTransition?_eq h, Edge.HasEnds, ← not_or, @eq_comm _ fault]
  by_cases hopen : e.source = "" ∨ e.target = "" <;> simp [hopen]

theorem convertAll_toTransition?_eq_error_iff {fault : ConversionError} :
    convertAll (Edge.toTransition? steps) d.edges = .error fault ↔
      ∃ e, IsFirstNot Edge.HasEnds d.edges e ∧ fault = .openEdge e.id := by
  simp only [convertAll_eq_error_iff, exists_toTransition?_iff h, toTransition?_eq_error_iff h]
  constructor
  · rintro ⟨e, hfirst, -, hfault⟩
    exact ⟨e, hfirst, hfault⟩
  · rintro ⟨e, hfirst, hfault⟩
    exact ⟨e, hfirst, hfirst.not_good, hfault⟩

/-- The graph of a document of which every node has a step and every edge has ends. -/
theorem toGraph_eq_ofLists (hends : ∀ e ∈ d.edges, e.HasEnds) :
    d.toGraph = (Graph.ofLists steps (d.edges.filterMap d.transition?)).mapError .graph := by
  have hedges : convertAll (Edge.toTransition? steps) d.edges =
      .ok (d.edges.map d.transition?) := by
    apply convertAll_eq_ok_map
    intro e he
    rw [toTransition?_eq h, if_neg (not_or.2 (hends e he))]
  have hkept : (d.edges.map d.transition?).reduceOption = d.edges.filterMap d.transition? :=
    List.filterMap_map
  rw [toGraph, convertAll_toStep_eq_ok_iff.2 h]
  simp only [hedges, hkept]

end

/-- The fault of a document: the first unit that is none, else the first edge that lacks an end, else
the first id that repeats an earlier one. -/
inductive HasFault (d : Document) : ConversionError → Prop
  | unit {n : Node} {s : String} (hn : IsFirstNot Node.HasUnit d.nodes n)
      (hs : n.data.durationUnit = some s) : d.HasFault (.unknownDurationUnit n.id s)
  | edge {e : Edge} (hunits : ∀ n ∈ d.nodes, n.HasUnit) (he : IsFirstNot Edge.HasEnds d.edges e) :
      d.HasFault (.openEdge e.id)
  | id {n : Node} {before after : List Node} (hunits : ∀ n ∈ d.nodes, n.HasUnit)
      (hends : ∀ e ∈ d.edges, e.HasEnds) (hnodes : d.nodes = before ++ n :: after)
      (hdiffer : (before.map Node.id).Nodup) (hn : n.id ∈ before.map Node.id) :
      d.HasFault (.graph (.duplicateStepId n.id))

/-- What is reported of a document is its fault. -/
theorem toGraph_eq_error_iff (d : Document) (fault : ConversionError) :
    d.toGraph = .error fault ↔ d.HasFault fault := by
  constructor
  · intro hfault
    cases hsteps : convertAll Node.toStep d.nodes with
    | error other =>
      rw [toGraph, hsteps] at hfault
      cases hfault
      obtain ⟨n, s, hn, hs, rfl⟩ := convertAll_toStep_eq_error_iff.1 hsteps
      exact .unit hn hs
    | ok steps =>
      have h := convertAll_toStep_eq_ok_iff.1 hsteps
      cases hedges : convertAll (Edge.toTransition? steps) d.edges with
      | error other =>
        simp only [toGraph, hsteps, hedges] at hfault
        cases hfault
        obtain ⟨e, he, rfl⟩ := (convertAll_toTransition?_eq_error_iff h).1 hedges
        exact .edge (hasUnit_of_forall₂ h) he
      | ok transitions =>
        have hends : ∀ e ∈ d.edges, e.HasEnds := fun e he =>
          (exists_toTransition?_iff h e).1 (exists_of_convertAll_eq_ok hedges e he)
        rw [toGraph_eq_ofLists h hends] at hfault
        cases hgraph : Graph.ofLists steps (d.edges.filterMap d.transition?) with
        | ok g =>
          rw [hgraph] at hfault
          cases hfault
        | error other =>
          rw [hgraph] at hfault
          cases hfault
          obtain ⟨id, before, after, hids, hdiffer, hid, rfl⟩ := Graph.ofLists_eq_error_iff.1 hgraph
          rw [map_id_of_forall₂ h, List.map_eq_append_iff] at hids
          obtain ⟨first, rest, hnodes, rfl, hrest⟩ := hids
          obtain ⟨n, last, rfl, rfl, -⟩ := List.map_eq_cons_iff.1 hrest
          exact .id (hasUnit_of_forall₂ h) hends hnodes hdiffer hid
  · rintro (⟨hn, hs⟩ | ⟨hunits, he⟩ | @⟨n, before, after, hunits, hends, hnodes, hdiffer, hn⟩)
    · rw [toGraph, convertAll_toStep_eq_error_iff.2 ⟨_, _, hn, hs, rfl⟩]
    · obtain ⟨steps, h⟩ := exists_forall₂_isStep hunits
      simp only [toGraph, convertAll_toStep_eq_ok_iff.2 h,
        (convertAll_toTransition?_eq_error_iff h).2 ⟨_, he, rfl⟩]
    · obtain ⟨steps, h⟩ := exists_forall₂_isStep hunits
      have hids : steps.map Step.id = before.map Node.id ++ n.id :: after.map Node.id := by
        rw [map_id_of_forall₂ h, hnodes, List.map_append, List.map_cons]
      rw [toGraph_eq_ofLists h hends,
        Graph.ofLists_eq_error_iff.2 ⟨_, _, _, hids, hdiffer, hn, rfl⟩]
      rfl

/-- What a document is converted to has a step for every node and a transition for every edge that
is kept. -/
theorem toGraph_eq_ok_iff (d : Document) (g : Graph) :
    d.toGraph = .ok g ↔ (∀ e ∈ d.edges, e.HasEnds) ∧ List.Forall₂ Node.IsStep d.nodes g.steps ∧
      List.Forall₂ d.IsTransition (d.edges.filter d.Keeps) g.transitions := by
  rw [forall₂_isTransition_iff]
  constructor
  · intro hg
    cases hsteps : convertAll Node.toStep d.nodes with
    | error fault =>
      rw [toGraph, hsteps] at hg
      cases hg
    | ok steps =>
      have h := convertAll_toStep_eq_ok_iff.1 hsteps
      cases hedges : convertAll (Edge.toTransition? steps) d.edges with
      | error fault =>
        simp only [toGraph, hsteps, hedges] at hg
        cases hg
      | ok transitions =>
        have hends : ∀ e ∈ d.edges, e.HasEnds := fun e he =>
          (exists_toTransition?_iff h e).1 (exists_of_convertAll_eq_ok hedges e he)
        rw [toGraph_eq_ofLists h hends] at hg
        cases hgraph : Graph.ofLists steps (d.edges.filterMap d.transition?) with
        | error fault =>
          rw [hgraph] at hg
          cases hg
        | ok g' =>
          rw [hgraph] at hg
          cases hg
          obtain ⟨rfl, htransitions⟩ := Graph.ofLists_eq_ok_iff.1 hgraph
          exact ⟨hends, h, htransitions⟩
  · rintro ⟨hends, h, htransitions⟩
    rw [toGraph_eq_ofLists h hends, Graph.ofLists_eq_ok_iff.2 ⟨rfl, htransitions⟩]
    rfl

theorem exists_toGraph_eq_ok_iff (d : Document) :
    (∃ g, d.toGraph = .ok g) ↔ (∀ n ∈ d.nodes, n.HasUnit) ∧ (∀ e ∈ d.edges, e.HasEnds) ∧
      (d.nodes.map Node.id).Nodup := by
  constructor
  · rintro ⟨g, hg⟩
    obtain ⟨hends, h, -⟩ := (d.toGraph_eq_ok_iff g).1 hg
    exact ⟨hasUnit_of_forall₂ h, hends, map_id_of_forall₂ h ▸ g.nodup⟩
  · rintro ⟨hunits, hends, hdiffer⟩
    cases hg : d.toGraph with
    | ok g => exact ⟨g, rfl⟩
    | error fault =>
      rcases (d.toGraph_eq_error_iff fault).1 hg with
        ⟨⟨before, after, hnodes, -, hn⟩, -⟩ | ⟨-, before, after, hedges, -, he⟩ |
          ⟨-, -, hnodes, -, hn⟩
      · exact absurd (hunits _ (hnodes ▸ List.mem_append_right _ List.mem_cons_self)) hn
      · exact absurd (hends _ (hedges ▸ List.mem_append_right _ List.mem_cons_self)) he
      · rw [hnodes, List.map_append, List.map_cons, List.nodup_append] at hdiffer
        exact absurd rfl (hdiffer.2.2 _ hn _ List.mem_cons_self)

/-- A document with other handles on the edges that do not leave a condition. -/
def rehandled (d : Document) (handle : Edge → Option String) : Document :=
  { d with
    edges := d.edges.map fun e =>
      if d.IsCondition e.source then e else { e with sourceHandle := handle e } }

/-- Handles that are on no condition have no effect. -/
theorem toGraph_rehandled (d : Document) (handle : Edge → Option String) :
    (d.rehandled handle).toGraph = d.toGraph := by
  have hnodes : (d.rehandled handle).nodes = d.nodes := rfl
  rw [toGraph, toGraph, hnodes]
  cases hsteps : convertAll Node.toStep d.nodes with
  | error fault => rfl
  | ok steps =>
    have h := convertAll_toStep_eq_ok_iff.1 hsteps
    have hnone : ∀ s : Option String, s.filter (fun _ => false) = none := by rintro (_ | _) <;> rfl
    have hedge : ∀ e : Edge, Edge.toTransition? steps
        (if d.IsCondition e.source then e else { e with sourceHandle := handle e }) =
          e.toTransition? steps := by
      intro e
      split
      · rfl
      · next hcondition =>
        simp only [Edge.toTransition?, isConditionId_eq h, hcondition, decide_false, hnone]
    have hedges : convertAll (Edge.toTransition? steps) (d.rehandled handle).edges =
        convertAll (Edge.toTransition? steps) d.edges := by
      rw [rehandled, convertAll_map]
      simp only [hedge]
    simp only [hedges]

/-- **What a document is as a graph.**  It is one exactly if the units of its waits are units, its
edges have both ends, and the ids of its nodes differ; of the faults that it may have, the first of
these three in this order is reported, with the first node, edge or repeated id that it concerns.
The graph has a step for every node, in order, with what is left out put in; and a transition for
every edge, in order, but for those that leave a condition by a handle that is for neither result.
Only on an edge that leaves a condition does a handle count. -/
theorem toGraph_iff (d : Document) :
    ((∃ g, d.toGraph = .ok g) ↔ (∀ n ∈ d.nodes, n.HasUnit) ∧ (∀ e ∈ d.edges, e.HasEnds) ∧
        (d.nodes.map Node.id).Nodup) ∧
      (∀ fault, d.toGraph = .error fault ↔ d.HasFault fault) ∧
      (∀ g, d.toGraph = .ok g ↔ (∀ e ∈ d.edges, e.HasEnds) ∧
        List.Forall₂ Node.IsStep d.nodes g.steps ∧
        List.Forall₂ d.IsTransition (d.edges.filter d.Keeps) g.transitions) ∧
      ∀ handle, (d.rehandled handle).toGraph = d.toGraph :=
  ⟨d.exists_toGraph_eq_ok_iff, d.toGraph_eq_error_iff, d.toGraph_eq_ok_iff, d.toGraph_rehandled⟩

end Document

end Workflow
