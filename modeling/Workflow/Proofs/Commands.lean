import Workflow.CommandLine.Report
import Workflow.Proofs.Documents
import Workflow.Proofs.Timeline

/-!
# Commands

A command has up to four stages, each of which may fail: its workflow is loaded and converted, and
then either the graph is validated or the context and the timings are loaded.  If a stage fails, the
command reports the first that does and nothing else.

* `Options.Fails` says which failures there are, each stage taken by itself, and
  `Options.FailsFirst` which of them comes first.
* `Options.Prepares` is what a command comes to if no stage fails.
* `Options.prepare_eq_error_iff` and `Options.prepare_eq_ok_iff` say that commands are prepared so.
* `Options.prepare_congr` says that nothing but the files at `Options.paths` matters.
* `respond_run` is the law of commands.
-/

namespace Workflow

/-! ## Arguments -/

namespace Arguments

/-- What is asked for has been drafted. -/
theorem exists_finish_eq {o : Options} : ∀ (arguments : List String) (d : Draft),
    parseFrom d arguments = some (.run o) → ∃ draft : Draft, draft.finish = some (.run o)
  | [], d, h => ⟨d, h⟩
  | argument :: rest, d, h => by
    rw [parseFrom] at h
    split at h
    · cases h
    · cases h
    · obtain ⟨d', -, hrest⟩ := Option.bind_eq_some_iff.1 h
      exact exists_finish_eq rest d' hrest
    · obtain ⟨d', -, hrest⟩ := Option.bind_eq_some_iff.1 h
      exact exists_finish_eq rest d' hrest
    · split at h
      · cases h
      · next next rest =>
        split at h
        · obtain ⟨d', -, hrest⟩ := Option.bind_eq_some_iff.1 h
          exact exists_finish_eq rest d' hrest
        · cases h
    · obtain ⟨d', -, hfinish⟩ := Option.bind_eq_some_iff.1 h
      exact ⟨d', hfinish⟩
    · obtain ⟨d', -, hrest⟩ := Option.bind_eq_some_iff.1 h
      exact exists_finish_eq rest d' hrest
    · cases h

/-- A run without pauses is given no timings. -/
theorem timings_eq_none {arguments : List String} {o : Options}
    (h : parse? arguments = some (.run o)) (hinstant : o.isInstant = true) : o.timings = none := by
  obtain ⟨draft, hfinish⟩ := exists_finish_eq arguments {} h
  rw [Draft.finish] at hfinish
  obtain ⟨workflow, -, hfinish⟩ := Option.bind_eq_some_iff.1 hfinish
  split at hfinish
  · cases hfinish
  · next hboth =>
    cases hfinish
    simpa [show draft.isInstant = true from hinstant] using hboth

end Arguments

/-! ## Stages -/

/-- The number of the stage at which a command fails. -/
def Failure.stage : Failure → Nat
  | .workflow .. => 0
  | .conversion .. => 1
  | .validation .. => 2
  | .context .. => 3
  | .timings .. => 4

namespace Options

section Stages

variable (o : Options) (files : Files)

/-- Whether a document is loaded and converted to a graph. -/
structure LoadsGraph (d : Document) (g : Graph) : Prop where
  load_eq : load files Document.parse o.workflow = .ok d
  toGraph_eq : d.toGraph = .ok g

/-- Whether a context is the one that is named, or the one for demonstrations where none is named. -/
def HasContext (c : Context) : Prop :=
  o.context.elim (c = .demo) fun path => load files Context.parse path = .ok c

/-- Whether timings are those that are named; where none are named, they are none at all or the
reference timings. -/
def HasTimings (t : Timings) : Prop :=
  o.timings.elim (t = if o.isInstant then .instant else .reference) fun path =>
    load files Timings.parse path = .ok t

/-- Whether a stage fails.  A stage that uses what an earlier one gives fails only if it is given
that. -/
inductive Fails : Failure → Prop
  | workflow {fault : LoadFault Json.Fault}
    (h : load files Document.parse o.workflow = .error fault) : Fails (.workflow o.workflow fault)
  | conversion {d : Document} {fault : ConversionError}
    (hload : load files Document.parse o.workflow = .ok d) (h : d.toGraph = .error fault) :
    Fails (.conversion d.name fault)
  | validation {d : Document} {g : Graph} {fault : GraphError} (hgraph : o.LoadsGraph files d g)
    (hasked : o.onlyValidates = true) (h : g.validate = .error fault) :
    Fails (.validation d.name fault)
  | context {path : String} {fault : LoadFault ContextError} (hruns : o.onlyValidates = false)
    (hnamed : o.context = some path) (h : load files Context.parse path = .error fault) :
    Fails (.context path fault)
  | timings {path : String} {fault : LoadFault Json.Fault} (hruns : o.onlyValidates = false)
    (hnamed : o.timings = some path) (h : load files Timings.parse path = .error fault) :
    Fails (.timings path fault)

/-- Whether a failure is that of the first stage that fails. -/
def FailsFirst (f : Failure) : Prop :=
  o.Fails files f ∧ ∀ f', o.Fails files f' → f.stage ≤ f'.stage

/-- What a command comes to. -/
inductive Prepares : Job → Prop
  | validated {d : Document} {g : Graph} (hgraph : o.LoadsGraph files d g)
    (hasked : o.onlyValidates = true) (h : g.validate = .ok ()) : Prepares (.validated d.name g)
  | run {d : Document} {g : Graph} {c : Context} {t : Timings} (hgraph : o.LoadsGraph files d g)
    (hruns : o.onlyValidates = false) (hcontext : o.HasContext files c)
    (htimings : o.HasTimings files t) : Prepares (.run d.name ⟨g, c, t⟩)

end Stages

variable {o : Options} {files : Files} {d : Document} {g : Graph} {c : Context} {t : Timings}
  {f f' : Failure} {job : Job}

/-! ### What fails -/

theorem LoadsGraph.unique {d' : Document} {g' : Graph} (h : o.LoadsGraph files d g)
    (h' : o.LoadsGraph files d' g') : d = d' ∧ g = g' := by
  obtain rfl : d = d' := Except.ok.inj (h.load_eq.symm.trans h'.load_eq)
  exact ⟨rfl, Except.ok.inj (h.toGraph_eq.symm.trans h'.toGraph_eq)⟩

/-- A stage fails in one way only. -/
theorem Fails.unique (h : o.Fails files f) (h' : o.Fails files f') (hstage : f.stage = f'.stage) :
    f = f' := by
  cases h with
  | workflow h =>
    cases h' with
    | workflow h' => rw [Except.error.inj (h.symm.trans h')]
    | _ => cases hstage
  | conversion hload h =>
    cases h' with
    | conversion hload' h' =>
      obtain rfl := Except.ok.inj (hload.symm.trans hload')
      rw [Except.error.inj (h.symm.trans h')]
    | _ => cases hstage
  | validation hgraph hasked h =>
    cases h' with
    | validation hgraph' hasked' h' =>
      obtain ⟨rfl, rfl⟩ := hgraph.unique hgraph'
      rw [Except.error.inj (h.symm.trans h')]
    | _ => cases hstage
  | context hruns hnamed h =>
    cases h' with
    | context hruns' hnamed' h' =>
      obtain rfl := Option.some.inj (hnamed.symm.trans hnamed')
      rw [Except.error.inj (h.symm.trans h')]
    | _ => cases hstage
  | timings hruns hnamed h =>
    cases h' with
    | timings hruns' hnamed' h' =>
      obtain rfl := Option.some.inj (hnamed.symm.trans hnamed')
      rw [Except.error.inj (h.symm.trans h')]
    | _ => cases hstage

theorem FailsFirst.unique (h : o.FailsFirst files f) (h' : o.FailsFirst files f') : f = f' :=
  h.1.unique h'.1 (Nat.le_antisymm (h.2 f' h'.1) (h'.2 f h.1))

/-! ### Which stages can fail -/

theorem Fails.one_le_stage (h : o.Fails files f)
    (hload : load files Document.parse o.workflow = .ok d) : 1 ≤ f.stage := by
  cases h with
  | workflow h => cases h.symm.trans hload
  | _ => simp [Failure.stage]

theorem Fails.two_le_stage (h : o.Fails files f) (hgraph : o.LoadsGraph files d g) :
    2 ≤ f.stage := by
  cases h with
  | workflow h => cases h.symm.trans hgraph.load_eq
  | conversion hload h =>
    obtain rfl := Except.ok.inj (hload.symm.trans hgraph.load_eq)
    cases h.symm.trans hgraph.toGraph_eq
  | _ => simp [Failure.stage]

theorem Fails.three_le_stage (h : o.Fails files f) (hgraph : o.LoadsGraph files d g)
    (hruns : o.onlyValidates = false) : 3 ≤ f.stage := by
  have hle := h.two_le_stage hgraph
  cases h with
  | validation _ hasked => cases hasked.symm.trans hruns
  | context => exact Nat.le_refl 3
  | timings => exact Nat.le_succ 3
  | _ => simp [Failure.stage] at hle

theorem Fails.four_le_stage (h : o.Fails files f) (hgraph : o.LoadsGraph files d g)
    (hruns : o.onlyValidates = false) (hcontext : o.HasContext files c) : 4 ≤ f.stage := by
  have hle := h.three_le_stage hgraph hruns
  cases h with
  | context _ hnamed h =>
    rw [HasContext, hnamed] at hcontext
    cases h.symm.trans hcontext
  | timings => exact Nat.le_refl 4
  | _ => simp [Failure.stage] at hle

/-- If a command comes to anything, no stage fails. -/
theorem Prepares.not_fails (h : o.Prepares files job) : ¬o.Fails files f := by
  intro hfails
  cases h with
  | validated hgraph hasked h =>
    have hle := hfails.two_le_stage hgraph
    cases hfails with
    | validation hgraph' _ h' =>
      obtain ⟨rfl, rfl⟩ := hgraph.unique hgraph'
      cases h.symm.trans h'
    | context hruns => cases hruns.symm.trans hasked
    | timings hruns => cases hruns.symm.trans hasked
    | _ => simp [Failure.stage] at hle
  | run hgraph hruns hcontext htimings =>
    have hle := hfails.four_le_stage hgraph hruns hcontext
    cases hfails with
    | timings _ hnamed h =>
      rw [HasTimings, hnamed] at htimings
      cases h.symm.trans htimings
    | _ => simp [Failure.stage] at hle

/-! ### Preparation -/

theorem prepare_of_load_eq_error {fault : LoadFault Json.Fault}
    (h : load files Document.parse o.workflow = .error fault) :
    o.prepare files = .error (.workflow o.workflow fault) := by
  rw [prepare, h]
  rfl

theorem prepare_of_toGraph_eq_error {fault : ConversionError}
    (hload : load files Document.parse o.workflow = .ok d) (h : d.toGraph = .error fault) :
    o.prepare files = .error (.conversion d.name fault) := by
  rw [prepare, hload]
  simp only [Except.mapError, bind, Except.bind, h]

theorem prepare_of_onlyValidates (h : o.LoadsGraph files d g) (hasked : o.onlyValidates = true) :
    o.prepare files =
      (g.validate.mapError (.validation d.name)).map fun _ => .validated d.name g := by
  rw [prepare, h.load_eq]
  simp only [Except.mapError, bind, Except.bind, h.toGraph_eq, hasked, if_true]
  cases g.validate <;> rfl

theorem prepare_of_not_onlyValidates (h : o.LoadsGraph files d g)
    (hruns : o.onlyValidates = false) :
    o.prepare files = (o.loadContext files).bind fun c =>
      (o.loadTimings files).map fun t => .run d.name ⟨g, c, t⟩ := by
  rw [prepare, h.load_eq]
  simp only [Except.mapError, bind, Except.bind, h.toGraph_eq, hruns, Bool.false_eq_true, if_false]
  cases o.loadContext files with
  | error f => rfl
  | ok c => cases o.loadTimings files <;> rfl

theorem HasContext.loadContext_eq (h : o.HasContext files c) : o.loadContext files = .ok c := by
  rw [HasContext] at h
  rw [loadContext]
  cases hnamed : o.context with
  | none =>
    rw [hnamed] at h
    exact congrArg Except.ok (show c = .demo from h).symm
  | some path =>
    rw [hnamed] at h
    simp only [show load files Context.parse path = .ok c from h, Except.mapError]

theorem loadContext_eq_error {path : String} {fault : LoadFault ContextError}
    (hnamed : o.context = some path) (h : load files Context.parse path = .error fault) :
    o.loadContext files = .error (.context path fault) := by
  simp only [loadContext, hnamed, h, Except.mapError]

/-- There is a context for a run, unless the one that is named cannot be loaded. -/
theorem hasContext_or (o : Options) (files : Files) :
    (∃ c, o.HasContext files c) ∨
      ∃ path fault, o.context = some path ∧ load files Context.parse path = .error fault := by
  simp only [HasContext]
  cases o.context with
  | none => exact .inl ⟨.demo, rfl⟩
  | some path =>
    cases h : load files Context.parse path with
    | error fault => exact .inr ⟨path, fault, rfl, h⟩
    | ok c => exact .inl ⟨c, h⟩

section Timings

/- Timings are loaded wherever they are named, as a run without pauses is given none. -/
variable (hinstant : o.isInstant = true → o.timings = none)
include hinstant

theorem isInstant_eq_false {path : String} (hnamed : o.timings = some path) :
    o.isInstant = false :=
  Bool.eq_false_iff.2 fun h => nomatch hnamed.symm.trans (hinstant h)

theorem HasTimings.loadTimings_eq (h : o.HasTimings files t) : o.loadTimings files = .ok t := by
  rw [HasTimings] at h
  rw [loadTimings]
  cases hnamed : o.timings with
  | none =>
    rw [hnamed] at h
    rw [show t = if o.isInstant then .instant else .reference from h]
    cases o.isInstant <;> rfl
  | some path =>
    rw [hnamed] at h
    simp only [isInstant_eq_false hinstant hnamed, Bool.false_eq_true, if_false,
      show load files Timings.parse path = .ok t from h, Except.mapError]

theorem loadTimings_eq_error {path : String} {fault : LoadFault Json.Fault}
    (hnamed : o.timings = some path) (h : load files Timings.parse path = .error fault) :
    o.loadTimings files = .error (.timings path fault) := by
  simp only [loadTimings, isInstant_eq_false hinstant hnamed, Bool.false_eq_true, if_false, hnamed,
    h, Except.mapError]

omit hinstant in
/-- There are timings for a run, unless those that are named cannot be loaded. -/
theorem hasTimings_or (o : Options) (files : Files) :
    (∃ t, o.HasTimings files t) ∨
      ∃ path fault, o.timings = some path ∧ load files Timings.parse path = .error fault := by
  simp only [HasTimings]
  cases o.timings with
  | none => exact .inl ⟨_, rfl⟩
  | some path =>
    cases h : load files Timings.parse path with
    | error fault => exact .inr ⟨path, fault, rfl, h⟩
    | ok t => exact .inl ⟨t, h⟩

theorem Prepares.prepare_eq (h : o.Prepares files job) : o.prepare files = .ok job := by
  cases h with
  | validated hgraph hasked h =>
    rw [prepare_of_onlyValidates hgraph hasked, h]
    rfl
  | run hgraph hruns hcontext htimings =>
    rw [prepare_of_not_onlyValidates hgraph hruns, hcontext.loadContext_eq,
      htimings.loadTimings_eq hinstant]
    rfl

/-- A command fails with the failure of the first stage that fails, and comes to something if there
is none. -/
theorem prepare_cases (files : Files) :
    (∃ f, o.prepare files = .error f ∧ o.FailsFirst files f) ∨ ∃ job, o.Prepares files job := by
  cases hload : load files Document.parse o.workflow with
  | error fault =>
    exact .inl ⟨_, prepare_of_load_eq_error hload, .workflow hload, fun _ _ => Nat.zero_le _⟩
  | ok d =>
    cases hconvert : d.toGraph with
    | error fault =>
      exact .inl ⟨_, prepare_of_toGraph_eq_error hload hconvert, .conversion hload hconvert,
        fun _ h => h.one_le_stage hload⟩
    | ok g =>
      have hgraph : o.LoadsGraph files d g := ⟨hload, hconvert⟩
      cases hasked : o.onlyValidates with
      | true =>
        cases hvalid : g.validate with
        | error fault =>
          refine .inl ⟨.validation d.name fault, ?_, .validation hgraph hasked hvalid,
            fun _ h => h.two_le_stage hgraph⟩
          rw [prepare_of_onlyValidates hgraph hasked, hvalid]
          rfl
        | ok _ => exact .inr ⟨_, .validated hgraph hasked hvalid⟩
      | false =>
        obtain ⟨c, hcontext⟩ | ⟨path, fault, hnamed, h⟩ := o.hasContext_or files
        · obtain ⟨t, htimings⟩ | ⟨path, fault, hnamed, h⟩ := o.hasTimings_or files
          · exact .inr ⟨_, .run hgraph hasked hcontext htimings⟩
          · refine .inl ⟨.timings path fault, ?_, .timings hasked hnamed h,
              fun _ h => h.four_le_stage hgraph hasked hcontext⟩
            rw [prepare_of_not_onlyValidates hgraph hasked, hcontext.loadContext_eq,
              loadTimings_eq_error hinstant hnamed h]
            rfl
        · refine .inl ⟨.context path fault, ?_, .context hasked hnamed h,
            fun _ h => h.three_le_stage hgraph hasked⟩
          rw [prepare_of_not_onlyValidates hgraph hasked, loadContext_eq_error hnamed h]
          rfl

/-- If stages fail, there is a first one. -/
theorem exists_failsFirst (h : o.Fails files f) : ∃ first, o.FailsFirst files first := by
  obtain ⟨first, -, hfirst⟩ | ⟨job, hjob⟩ := prepare_cases hinstant files
  · exact ⟨first, hfirst⟩
  · exact absurd h hjob.not_fails

/-- If no stage fails, a command comes to something. -/
theorem exists_prepares (h : ∀ f, ¬o.Fails files f) : ∃ job, o.Prepares files job := by
  obtain ⟨first, -, hfirst⟩ | hjob := prepare_cases hinstant files
  · exact absurd hfirst.1 (h first)
  · exact hjob

/-- Commands fail with the failure of the first stage that fails. -/
theorem prepare_eq_error_iff : o.prepare files = .error f ↔ o.FailsFirst files f := by
  obtain ⟨f', hf', hfirst⟩ | ⟨job, hjob⟩ := prepare_cases hinstant files
  · rw [hf', Except.error.injEq]
    exact ⟨fun h => h ▸ hfirst, hfirst.unique⟩
  · rw [hjob.prepare_eq hinstant]
    exact ⟨nofun, fun h => absurd h.1 hjob.not_fails⟩

/-- Commands come to something if no stage fails. -/
theorem prepare_eq_ok_iff : o.prepare files = .ok job ↔ o.Prepares files job := by
  refine ⟨fun h => ?_, Prepares.prepare_eq hinstant⟩
  obtain ⟨f, hf, -⟩ | ⟨job', hjob⟩ := prepare_cases hinstant files
  · cases hf.symm.trans h
  · obtain rfl := Except.ok.inj ((hjob.prepare_eq hinstant).symm.trans h)
    exact hjob

end Timings

theorem load_congr {α ε : Type} {files files' : Files} {path : String} (h : files' path = files path)
    (parse : String → Except ε α) : load files' parse path = load files parse path := by
  rw [load, load, h]

/-- Only the files that are looked at matter. -/
theorem prepare_congr {files' : Files} (h : ∀ path ∈ o.paths, files' path = files path) :
    o.prepare files' = o.prepare files := by
  rw [paths] at h
  cases hasked : o.onlyValidates with
  | true =>
    rw [if_pos hasked] at h
    rw [prepare, prepare, load_congr (h o.workflow List.mem_cons_self)]
    simp only [hasked, if_true]
  | false =>
    rw [if_neg (by simp [hasked])] at h
    have hcontext : o.loadContext files' = o.loadContext files := by
      rw [loadContext, loadContext]
      cases hnamed : o.context with
      | none => rfl
      | some path => simp only [load_congr (h path (by simp [hnamed]))]
    have htimings : o.loadTimings files' = o.loadTimings files := by
      rw [loadTimings, loadTimings]
      cases hnamed : o.timings with
      | none => rfl
      | some path => simp only [load_congr (h path (by simp [hnamed]))]
    rw [prepare, prepare, load_congr (h o.workflow List.mem_cons_self), hcontext, htimings]

end Options

/-! ## Reports -/

theorem respond_eq {arguments : List String} {o : Options}
    (h : Arguments.parse? arguments = some (.run o)) (files : Files) (stamps : Nat → Stamp) :
    respond arguments files stamps = o.respond files stamps := by
  rw [respond, h]

/-- The report of a command of which a stage fails. -/
theorem Options.respond_of_failsFirst {o : Options} {files : Files} {f : Failure}
    (hinstant : o.isInstant = true → o.timings = none) (h : o.FailsFirst files f)
    (stamps : Nat → Stamp) : o.respond files stamps = ⟨1, [], some f.message⟩ := by
  rw [respond, (prepare_eq_error_iff hinstant).2 h]

/-- The report of a command that only validates. -/
theorem Options.respond_of_validated {o : Options} {files : Files} {name : String} {g : Graph}
    (hinstant : o.isInstant = true → o.timings = none) (h : o.Prepares files (.validated name g))
    (stamps : Nat → Stamp) : o.respond files stamps = ⟨0, [validText name g], none⟩ := by
  rw [respond, h.prepare_eq hinstant]

/-- The report of a run. -/
theorem Options.respond_of_run {o : Options} {files : Files} {name : String} {setup : Setup}
    (hinstant : o.isInstant = true → o.timings = none) (h : o.Prepares files (.run name setup))
    (stamps : Nat → Stamp) :
    o.respond files stamps = ⟨0, (setup.heading? o.style name).toList ++
      printEvents o.style stamps ((setup.run .never).events.map Timed.event), none⟩ := by
  rw [respond, h.prepare_eq hinstant]
  simp only [setup.run_never, Outcome.exitCode]

/-- A command of which no stage fails exits with zero. -/
theorem Options.exitCode_of_prepares {o : Options} {files : Files} {job : Job}
    (hinstant : o.isInstant = true → o.timings = none) (h : o.Prepares files job)
    (stamps : Nat → Stamp) : (o.respond files stamps).exitCode = 0 := by
  cases job with
  | validated name g => rw [respond_of_validated hinstant h]
  | run name setup => rw [respond_of_run hinstant h]

/-- A run that nobody cancels ends with the notification of its completion. -/
theorem Setup.getLast?_run_never (r : Setup) :
    ((r.run .never).events.map Timed.event).getLast? = some .complete := by
  obtain ⟨front, hplan, -⟩ := r.notifications_plan_eq_append_complete
  rw [run_never, map_event_timeline, hplan, List.getLast?_concat]

/-- **Commands.**  A command that asks for a run exits with one exactly if a stage fails; it then
reports the failure of the first such stage and prints nothing.  Otherwise it exits with zero: if only
validation is asked for, the graph is valid, and if not, the run of the graph is complete, whether or
not the graph is valid.  A command that only validates looks at no file but that of the workflow. -/
theorem respond_run {arguments : List String} {o : Options}
    (h : Arguments.parse? arguments = some (.run o)) (files : Files) (stamps : Nat → Stamp) :
    ((respond arguments files stamps).exitCode = 1 ↔ ∃ f, o.Fails files f) ∧
    (∀ f, o.Fails files f → ∃ first, o.FailsFirst files first ∧
      respond arguments files stamps = ⟨1, [], some first.message⟩) ∧
    ((∀ f, ¬o.Fails files f) → o.onlyValidates = true →
      ∃ d g, o.LoadsGraph files d g ∧ g.validate = .ok () ∧
        respond arguments files stamps = ⟨0, [validText d.name g], none⟩) ∧
    ((∀ f, ¬o.Fails files f) → o.onlyValidates = false →
      ∃ d g c t, o.LoadsGraph files d g ∧ o.HasContext files c ∧ o.HasTimings files t ∧
        let setup : Setup := ⟨g, c, t⟩
        let events := (setup.run .never).events.map Timed.event
        (setup.run .never).outcome = .completed ∧ events.getLast? = some .complete ∧
          respond arguments files stamps =
            ⟨0, (setup.heading? o.style d.name).toList ++ printEvents o.style stamps events,
              none⟩) ∧
    (o.onlyValidates = true → ∀ files' : Files, files' o.workflow = files o.workflow →
      respond arguments files' stamps = respond arguments files stamps) := by
  have hinstant : o.isInstant = true → o.timings = none := Arguments.timings_eq_none h
  simp only [respond_eq h]
  have hfailing : ∀ f, o.Fails files f → ∃ first, o.FailsFirst files first ∧
      o.respond files stamps = ⟨1, [], some first.message⟩ := fun f hf => by
    obtain ⟨first, hfirst⟩ := Options.exists_failsFirst hinstant hf
    exact ⟨first, hfirst, Options.respond_of_failsFirst hinstant hfirst stamps⟩
  refine ⟨?exits, hfailing, ?validates, ?runs, ?reads⟩
  case exits =>
    refine ⟨fun hcode => by_contra fun hnone => ?_, fun ⟨f, hf⟩ => ?_⟩
    · obtain ⟨job, hjob⟩ := Options.exists_prepares hinstant (not_exists.1 hnone)
      rw [Options.exitCode_of_prepares hinstant hjob] at hcode
      exact Nat.zero_ne_one hcode
    · obtain ⟨first, -, hreport⟩ := hfailing f hf
      rw [hreport]
  case validates =>
    intro hnone hasked
    obtain ⟨job, hjob⟩ := Options.exists_prepares hinstant hnone
    have hreport := hjob
    cases hjob with
    | validated hgraph _ hvalid =>
      exact ⟨_, _, hgraph, hvalid, Options.respond_of_validated hinstant hreport stamps⟩
    | run _ hruns => cases hruns.symm.trans hasked
  case runs =>
    intro hnone hruns
    obtain ⟨job, hjob⟩ := Options.exists_prepares hinstant hnone
    have hreport := hjob
    cases hjob with
    | validated _ hasked => cases hasked.symm.trans hruns
    | run hgraph _ hcontext htimings =>
      exact ⟨_, _, _, _, hgraph, hcontext, htimings, by rw [Setup.run_never],
        Setup.getLast?_run_never _, Options.respond_of_run hinstant hreport stamps⟩
  case reads =>
    intro hasked files' hfile
    have hpaths : ∀ path ∈ o.paths, files' path = files path := by
      simpa [Options.paths, hasked] using hfile
    rw [Options.respond, Options.respond, Options.prepare_congr hpaths]

/-- The stamp of an entry at the beginning of 1970. -/
def Stamp.epoch : Stamp where
  id := "log-0"
  timestamp := ⟨⟨1970, 1, 1, by decide, by decide⟩, 0, 0, 0, 0, by decide⟩

/-- The document without steps. -/
def Document.blank : Document where
  id := "w"
  name := "W"
  nodes := []
  edges := []

/-- The graph of that document. -/
def Graph.blank : Graph :=
  ⟨[], [], indexSteps [], indexTransitions [], List.nodup_nil, rfl, rfl⟩

/-- There is no file but that of the document. -/
def blankFiles : Files := fun path =>
  if path = "w.json" then .ok "\x7b\"id\": \"w\", \"name\": \"W\"\x7d" else .error .missing

theorem loadsGraph_blank {o : Options} (h : o.workflow = "w.json") :
    o.LoadsGraph blankFiles .blank .blank where
  load_eq := by
    rw [h]
    decide +kernel
  toGraph_eq := rfl

/-- A graph without entry steps fails to be validated, but it is run if nobody asks. -/
theorem respond_run_blank :
    (respond ["--validate", "w.json"] blankFiles fun _ => .epoch).exitCode = 1 ∧
      (respond ["w.json"] blankFiles fun _ => .epoch).exitCode = 0 := by
  have hasked : Arguments.parse? ["--validate", "w.json"] =
      some (.run { workflow := "w.json", onlyValidates := true }) := rfl
  have hruns : Arguments.parse? ["w.json"] = some (.run { workflow := "w.json" }) := rfl
  constructor
  · refine (respond_run hasked blankFiles fun _ => .epoch).1.2 ⟨.validation "W" .noEntryStep, ?_⟩
    exact .validation (loadsGraph_blank rfl) rfl rfl
  · have hprepares : Options.Prepares { workflow := "w.json" } blankFiles
        (.run "W" ⟨.blank, .demo, .reference⟩) := .run (loadsGraph_blank rfl) rfl rfl rfl
    obtain ⟨d, g, c, t, -, -, -, -, -, hreport⟩ :=
      (respond_run hruns blankFiles fun _ => .epoch).2.2.2.1 (fun f => hprepares.not_fails) rfl
    rw [hreport]

end Workflow
