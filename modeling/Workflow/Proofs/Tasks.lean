import Workflow.Proofs.Cancellation
import Workflow.Run.Session

/-!
# Tasks

A task carries out the plan of a run bit by bit, whenever it is given the time, and learns on the way
that it is cancelled.  It is compared with the run that nobody interrupts and whose cancellation is
settled from the beginning.

* `executeFrom_append` cuts an execution in two, and `Setup.getLast?_run` is how it ends.
* `Task.GoesAhead` is what a task does when it goes ahead: it finishes, or it comes to a pause that
  is not over yet.  `Task.goesAhead_carryOut` says that it does.
* `Task.Stands` is where the task of a run stands at a time, `Task.Stands.advance` and
  `Task.Stands.cancel` say that it is kept when time passes and when the run is cancelled.
* `Task.Stands.shows` and `Task.Stands.status_eq` say what is seen of the run.
-/

namespace Workflow

/-! ## Executions in parts -/

/-- From a time on only what happens from that time on matters. -/
theorem executeFrom_congr {c d : Cancellation} : ∀ (actions : List Action) (time : Nat)
    (delivered other : List Event),
    (∀ delivered other later, time ≤ later →
      c.hasHappened delivered later = d.hasHappened other later) →
    executeFrom c delivered time actions = executeFrom d other time actions := by
  intro actions
  induction actions with
  | nil => intro _ _ _ _; rfl
  | cons a rest ih =>
      intro time delivered other h
      cases a with
      | pause ms =>
          exact ih (time + ms) delivered other fun _ _ later hlater => h _ _ later (by omega)
      | notify e =>
          rw [executeFrom, executeFrom, h delivered other time (Nat.le_refl time),
            ih time (e :: delivered) (e :: other) h]

/-- What is delivered before a cancellation is delivered as if there was none. -/
theorem executeFrom_append (c : Cancellation) : ∀ (first second : List Action) (time : Nat)
    (delivered : List Event),
    (∀ delivered, ∀ x ∈ timeline time first, c.hasHappened delivered x.time = false) →
    ∃ later, executeFrom c delivered time (first ++ second) =
      ⟨timeline time first ++ (executeFrom c later (time + duration first) second).events,
        (executeFrom c later (time + duration first) second).outcome,
        (executeFrom c later (time + duration first) second).endTime⟩ := by
  intro first
  induction first with
  | nil => intro second time delivered _; exact ⟨delivered, rfl⟩
  | cons a rest ih =>
      intro second time delivered h
      cases a with
      | pause ms =>
          obtain ⟨later, heq⟩ := ih second (time + ms) delivered h
          rw [List.cons_append, executeFrom, timeline, duration, ← Nat.add_assoc]
          exact ⟨later, heq⟩
      | notify e =>
          obtain ⟨hnow, hrest⟩ := forall_and.1 fun d => List.forall_mem_cons.1 (h d)
          obtain ⟨later, heq⟩ := ih second time (e :: delivered) hrest
          refine ⟨later, ?_⟩
          rw [List.cons_append, executeFrom, if_neg (by simp [hnow]), heq]
          rfl

theorem le_endTime_executeFrom (c : Cancellation) : ∀ (actions : List Action) (time : Nat)
    (delivered : List Event), time ≤ (executeFrom c delivered time actions).endTime := by
  intro actions
  induction actions with
  | nil => intro time _; exact Nat.le_refl time
  | cons a rest ih =>
      intro time delivered
      cases a with
      | pause ms => exact Nat.le_trans (Nat.le_add_right time ms) (ih (time + ms) delivered)
      | notify e =>
          rw [executeFrom]
          split
          · exact Nat.le_refl time
          · exact ih time (e :: delivered)

/-- Everything is delivered between the beginning and the end. -/
theorem time_mem_executeFrom (c : Cancellation) : ∀ (actions : List Action) (time : Nat)
    (delivered : List Event), ∀ x ∈ (executeFrom c delivered time actions).events,
      time ≤ x.time ∧ x.time ≤ (executeFrom c delivered time actions).endTime := by
  intro actions
  induction actions with
  | nil => intro _ _ x hx; exact absurd hx List.not_mem_nil
  | cons a rest ih =>
      intro time delivered x hx
      cases a with
      | pause ms =>
          obtain ⟨hle, hend⟩ := ih (time + ms) delivered x hx
          exact ⟨by omega, hend⟩
      | notify e =>
          rw [executeFrom] at hx ⊢
          split at hx
          · next h =>
              rw [if_pos h]
              obtain rfl := List.mem_singleton.1 hx
              exact ⟨Nat.le_refl time, Nat.le_refl time⟩
          · next h =>
              rw [if_neg h]
              rcases List.mem_cons.1 hx with rfl | hx
              · exact ⟨Nat.le_refl time, le_endTime_executeFrom c rest time _⟩
              · exact ih time (e :: delivered) x hx

/-! ## The ends of a plan -/

/-- The notification with which a run ends. -/
def Outcome.event : Outcome → Event
  | .completed => .complete
  | .cancelled => .cancelled

namespace Setup

theorem exists_plan_eq_cons (r : Setup) :
    ∃ line rest, r.plan = .notify (.log line) :: rest := by
  rw [plan]
  split <;> exact ⟨_, _, rfl⟩

theorem exists_plan_eq_append (r : Setup) :
    ∃ front, r.plan = front ++ [.notify .complete] ∧ .complete ∉ notifications front ∧
      .cancelled ∉ notifications front := by
  have hends : ∃ front, r.plan = front ++ [.notify .complete] := by
    rw [plan]
    split
    · exact ⟨[announce noEntry], rfl⟩
    · exact ⟨_, (List.append_assoc _ [announce closing] [.notify .complete]).symm⟩
  obtain ⟨front, hfront⟩ := hends
  obtain ⟨before, hbefore, hcomplete, hcancelled⟩ := r.notifications_plan_eq_append_complete
  rw [hfront, notifications_append] at hbefore
  obtain rfl : notifications front = before := List.append_inj_left' hbefore rfl
  exact ⟨front, hfront, hcomplete, hcancelled⟩

/-- A pause comes after something has been said. -/
theorem notifications_ne_nil {r : Setup} {done rest : List Action} {ms : Nat}
    (h : r.plan = done ++ .pause ms :: rest) : notifications done ≠ [] := by
  obtain ⟨line, more, hopening⟩ := r.exists_plan_eq_cons
  rw [hopening] at h
  cases done with
  | nil => cases h
  | cons a done =>
      obtain ⟨rfl, -⟩ := List.cons.inj h
      exact List.cons_ne_nil _ _

/-- What is said before a pause is neither that the run is complete nor that it is cancelled. -/
theorem not_mem_notifications {r : Setup} {done rest : List Action} {ms : Nat}
    (h : r.plan = done ++ .pause ms :: rest) :
    .complete ∉ notifications done ∧ .cancelled ∉ notifications done := by
  obtain ⟨front, hfront, hcomplete, hcancelled⟩ := r.exists_plan_eq_append
  rw [h] at hfront
  rcases List.append_eq_append_iff.1 hfront with ⟨more, rfl, -⟩ | ⟨more, -, hmore⟩
  · rw [notifications_append, List.mem_append, not_or] at hcomplete hcancelled
    exact ⟨hcomplete.1, hcancelled.1⟩
  · -- nothing comes after the completion
    cases more with
    | nil => cases hmore
    | cons a more => exact absurd (List.cons.inj hmore).2.symm (by simp)

/-- A cancellation that comes after the end changes nothing. -/
theorem run_at_of_endTime_le {r : Setup} {m : Nat} (h : (r.run .never).endTime ≤ m) :
    r.run (.at m) = r.run .never := by
  have hspared : ∀ delivered, ∀ x ∈ timeline 0 r.plan,
      (Cancellation.at m).hasHappened delivered x.time = false := by
    intro delivered x hx
    have hevents : (r.run .never).events = timeline 0 r.plan := by rw [run_never]
    have hle := (time_mem_executeFrom .never r.plan 0 [] x (hevents ▸ hx)).2
    exact decide_eq_false (Nat.not_lt.2 (Nat.le_trans hle h))
  obtain ⟨later, heq⟩ := executeFrom_append (.at m) r.plan [] 0 [] hspared
  rw [List.append_nil] at heq
  rw [run_never, run, execute, heq]
  simp [executeFrom]

/-- The last notification of a run says how it ended. -/
theorem getLast?_run (r : Setup) (c : Cancellation) :
    (r.run c).events.getLast?.map Timed.event = some (r.run c).outcome.event := by
  rcases Nat.lt_or_eq_of_le (c.reach_le_length (timeline 0 r.plan) []) with hlt | hall
  · obtain ⟨next, -, hrun⟩ := run_of_reach_lt_length hlt
    rw [hrun, List.getLast?_concat]
    rfl
  · obtain ⟨front, hfront, -⟩ := r.notifications_plan_eq_append_complete
    rw [run_of_reach_eq_length hall, ← List.getLast?_map, map_event_timeline, hfront,
      List.getLast?_concat]
    rfl

end Setup

/-! ## Status and notifications -/

/-- The status that goes with some notifications: a run that has given none is idle, and of another
the last one says whether it has ended. -/
def TaskStatus.ofEvents (events : List Timed) : TaskStatus :=
  match events.getLast?.map Timed.event with
  | none => .idle
  | some .complete => .completed
  | some .cancelled => .cancelled
  | some _ => .running

theorem TaskStatus.ofEvents_eq_running {events : List Timed} (hne : events ≠ [])
    (hcomplete : .complete ∉ events.map Timed.event)
    (hcancelled : .cancelled ∉ events.map Timed.event) : ofEvents events = .running := by
  have hmem := List.mem_map_of_mem (f := Timed.event) (List.getLast_mem hne)
  rw [ofEvents, List.getLast?_eq_some_getLast hne, Option.map_some]
  generalize (events.getLast hne).event = e at hmem
  cases e with
  | complete => exact absurd hmem hcomplete
  | cancelled => exact absurd hmem hcancelled
  | enter | exit | log => rfl

namespace Task

theorem status_eq_idle_iff {t : Task} :
    t.status = .idle ↔ t.outcome = none ∧ t.hasBegun = false := by
  rw [status]
  cases t.outcome with
  | none => cases t.hasBegun <;> simp
  | some o => cases o <;> simp

/-! ## Going ahead -/

/-- The cancellation that a task sees when it goes ahead. -/
def mark (t : Task) : Cancellation :=
  if t.isCancelled then .before else .never

theorem hasHappened_mark (t : Task) (delivered : List Event) (time : Nat) :
    t.mark.hasHappened delivered time = t.isCancelled := by
  rw [mark]
  cases t.isCancelled <;> rfl

/-- What a task does with the actions that it has still to do. -/
inductive GoesAhead (limit : Option Nat) (t : Task) (actions : List Action) (t' : Task) : Prop
  /-- It does them all, or learns that it is cancelled. -/
  | finishes (x : Execution) (hx : executeFrom t.mark [] (t.due - t.started) actions = x)
      (hevents : t'.events = t.events ++ x.events) (houtcome : t'.outcome = some x.outcome)
      (hend : t'.due = t.started + x.endTime) (hlimit : ∀ l ∈ limit, t'.due ≤ l) :
      GoesAhead limit t actions t'
  /-- It does them up to a pause that lasts longer than there is time. -/
  | pauses (done : List Action) (ms l : Nat) (hsplit : actions = done ++ .pause ms :: t'.remaining)
      (hevents : t'.events = t.events ++ timeline (t.due - t.started) done)
      (houtcome : t'.outcome = none) (hend : t'.due = t.due + duration done + ms)
      (hlimit : limit = some l) (hlt : l < t'.due)
      (hcancelled : t.isCancelled = true → notifications done = [])
      (htimes : ∀ x ∈ timeline (t.due - t.started) done, t.started + x.time ≤ l) :
      GoesAhead limit t actions t'

namespace GoesAhead

variable {limit : Option Nat} {t t' : Task} {rest : List Action}

theorem cons_pause {ms : Nat} (hdue : t.started ≤ t.due)
    (h : GoesAhead limit { t with due := t.due + ms, remaining := rest } rest t') :
    GoesAhead limit t (.pause ms :: rest) t' := by
  have htime : t.due + ms - t.started = t.due - t.started + ms := by omega
  cases h with
  | finishes x hx hevents houtcome hend hlimit =>
      change executeFrom t.mark [] (t.due + ms - t.started) rest = x at hx
      rw [htime] at hx
      exact .finishes x hx hevents houtcome hend hlimit
  | pauses done later l hsplit hevents houtcome hend hl hlt hcancelled htimes =>
      simp only [htime] at hevents htimes
      refine .pauses (.pause ms :: done) later l ?_ hevents houtcome ?_ hl hlt hcancelled htimes
      · rw [hsplit]
        rfl
      · rw [hend, duration, Nat.add_assoc t.due]

theorem cons_notify {e : Event} (hcancelled : t.isCancelled = false) (hlimit : ∀ l ∈ limit, t.due ≤ l)
    (hdue : t.started ≤ t.due)
    (h : GoesAhead limit { t.deliver e with remaining := rest } rest t') :
    GoesAhead limit t (.notify e :: rest) t' := by
  have hdelivered : ({ t.deliver e with remaining := rest } : Task).events =
      t.events ++ [⟨t.due - t.started, e⟩] := by
    simp [events, deliver]
  cases h with
  | finishes x hx hevents houtcome hend hends =>
      have hexecute : executeFrom t.mark [] (t.due - t.started) (.notify e :: rest) =
          ⟨⟨t.due - t.started, e⟩ :: x.events, x.outcome, x.endTime⟩ := by
        change executeFrom t.mark [] (t.due - t.started) rest = x at hx
        have hsame : executeFrom t.mark [e] (t.due - t.started) rest = x :=
          (executeFrom_congr rest _ _ _ fun _ _ _ _ => by simp only [hasHappened_mark]).trans hx
        rw [executeFrom, if_neg (by simp [hasHappened_mark, hcancelled]), hsame]
      refine .finishes _ hexecute ?_ houtcome hend hends
      rw [hevents, hdelivered, List.append_assoc, List.singleton_append]
  | pauses done ms l hsplit hevents houtcome hend hl hlt hmark htimes =>
      refine .pauses (.notify e :: done) ms l (by rw [hsplit]; rfl) ?_ houtcome hend hl hlt
        (fun h => by rw [hcancelled] at h; cases h) ?_
      · rw [hevents, hdelivered, List.append_assoc, List.singleton_append]
        rfl
      · rw [timeline, List.forall_mem_cons]
        refine ⟨?_, htimes⟩
        have := hlimit l hl
        simp only
        omega

theorem of_begun {actions : List Action}
    (h : GoesAhead limit { t with hasBegun := true } actions t') : GoesAhead limit t actions t' := by
  cases h with
  | finishes x hx hevents houtcome hend hlimit => exact .finishes x hx hevents houtcome hend hlimit
  | pauses done ms l hsplit hevents houtcome hend hl hlt hmark htimes =>
      exact .pauses done ms l hsplit hevents houtcome hend hl hlt hmark htimes

end GoesAhead

theorem goesAhead_carryOut (limit : Option Nat) (actions : List Action) {t : Task}
    (hdue : t.started ≤ t.due) (hlimit : ∀ l ∈ limit, t.due ≤ l) (houtcome : t.outcome = none) :
    GoesAhead limit t actions (carryOut limit t actions) := by
  induction actions generalizing t with
  | nil =>
      refine .finishes ⟨[], .completed, t.due - t.started⟩ rfl (List.append_nil _).symm rfl ?_ hlimit
      exact (Nat.add_sub_cancel' hdue).symm
  | cons a rest ih =>
      cases a with
      | pause ms =>
          rw [carryOut]
          split
          · next hall =>
              refine .cons_pause hdue (ih (Nat.le_trans hdue (Nat.le_add_right _ _)) ?_ houtcome)
              intro l hl
              rw [Option.mem_def.1 hl] at hall
              exact of_decide_eq_true hall
          · next hall =>
              obtain ⟨l, rfl⟩ : ∃ l, limit = some l := by
                cases limit with
                | none => exact absurd rfl hall
                | some l => exact ⟨l, rfl⟩
              refine .pauses [] ms l rfl (List.append_nil _).symm houtcome rfl rfl ?_ (fun _ => rfl)
                (by simp [timeline])
              simpa using hall
      | notify e =>
          rw [carryOut]
          split
          · next hcancelled =>
              refine .finishes ⟨[⟨t.due - t.started, .cancelled⟩], .cancelled, t.due - t.started⟩
                ?_ ?_ rfl ?_ hlimit
              · rw [executeFrom, if_pos (by rw [hasHappened_mark, hcancelled])]
              · simp [events, deliver]
              · exact (Nat.add_sub_cancel' hdue).symm
          · next hcancelled =>
              rw [Bool.not_eq_true] at hcancelled
              exact .cons_notify hcancelled hlimit hdue (ih hdue hlimit houtcome)

/-- Going ahead changes neither the start of a task nor its marks. -/
theorem carryOut_frame (limit : Option Nat) (actions : List Action) (t : Task) :
    (carryOut limit t actions).started = t.started ∧
      (carryOut limit t actions).isCancelled = t.isCancelled ∧
        (carryOut limit t actions).hasBegun = t.hasBegun := by
  induction actions generalizing t with
  | nil => exact ⟨rfl, rfl, rfl⟩
  | cons a rest ih =>
      cases a with
      | pause ms =>
          rw [carryOut]
          split
          · exact ih _
          · exact ⟨rfl, rfl, rfl⟩
      | notify e =>
          rw [carryOut]
          split
          · exact ⟨rfl, rfl, rfl⟩
          · exact ih _

theorem outcome_eq_none {t : Task} (h : t.isFinished = false) : t.outcome = none :=
  Option.isNone_iff_eq_none.1 (Option.isSome_eq_false_iff.1 h)

theorem status_eq_of_outcome_eq {t t' : Task} (h : t.isFinished = true)
    (houtcome : t'.outcome = t.outcome) : t'.status = t.status := by
  rw [status, status, houtcome]
  rw [isFinished] at h
  cases hsome : t.outcome with
  | none => simp [hsome] at h
  | some o => cases o <;> rfl

theorem started_advance (limit : Option Nat) (t : Task) : (t.advance limit).started = t.started := by
  rw [advance]
  split
  · rfl
  · split
    · exact (carryOut_frame limit t.remaining _).1
    · rfl

/-- Whether a task shows what an execution shows some time after its beginning: it has delivered
what is due by then, and has come to its outcome if the execution has. -/
structure Shows (t : Task) (x : Execution) (elapsed : Nat) : Prop where
  events_eq : t.events = x.events.filter (·.time ≤ elapsed)
  outcome_eq : t.outcome = if x.endTime ≤ elapsed then some x.outcome else none

/-! ## Where a task stands -/

/-- Whether a task in a pause is marked as a cancellation says: not at all, or since a moment after
all that it has delivered and before the end of the pause. -/
def MarkedBy (t : Task) (c : Cancellation) : Prop :=
  c = .never ∧ t.isCancelled = false ∨
    ∃ m, c = .at m ∧ t.isCancelled = true ∧ t.started + m < t.due ∧ ∀ x ∈ t.events, x.time ≤ m

namespace MarkedBy

variable {t t' : Task} {c : Cancellation}

/-- Nothing that has been delivered comes after the cancellation. -/
theorem hasHappened_eq_false (h : t.MarkedBy c) (delivered : List Event) :
    ∀ x ∈ t.events, c.hasHappened delivered x.time = false := by
  intro x hx
  rcases h with ⟨rfl, -⟩ | ⟨m, rfl, -, -, hbefore⟩
  · rfl
  · exact decide_eq_false (Nat.not_lt.2 (hbefore x hx))

/-- After the pause the mark is all that counts. -/
theorem hasHappened_eq (h : t.MarkedBy c) (delivered other : List Event) {time : Nat}
    (htime : t.due - t.started ≤ time) :
    c.hasHappened delivered time = t.mark.hasHappened other time := by
  rw [hasHappened_mark]
  rcases h with ⟨rfl, hcancelled⟩ | ⟨m, rfl, hcancelled, hm, -⟩
  · rw [hcancelled]
    rfl
  · rw [hcancelled]
    exact decide_eq_true (by omega)

/-- A later pause is marked as an earlier one, if nothing is delivered after the mark. -/
theorem of_events_eq (h : t.MarkedBy c) (hstarted : t'.started = t.started)
    (hcancelled : t'.isCancelled = t.isCancelled) (hdue : t.due ≤ t'.due)
    (hevents : t.isCancelled = true → t'.events = t.events) : t'.MarkedBy c := by
  rcases h with ⟨hc, hmark⟩ | ⟨m, hc, hmark, hm, hbefore⟩
  · exact Or.inl ⟨hc, hcancelled.trans hmark⟩
  · refine Or.inr ⟨m, hc, hcancelled.trans hmark, by omega, ?_⟩
    rw [hevents hmark]
    exact hbefore

end MarkedBy

/-- Where the task of a run stands at a time, if the run is cancelled at the given moment. -/
inductive Stands (r : Setup) (c : Cancellation) (now : Nat) (t : Task) : Prop
  /-- It has not gone ahead yet. -/
  | idle (hstarted : t.started = now) (hdue : t.due = now) (hremaining : t.remaining = r.plan)
      (hbegun : t.hasBegun = false) (hdelivered : t.delivered = []) (hnone : t.outcome = none)
      (hc : c = t.mark) : Stands r c now t
  /-- It has done the front of the plan and is in a pause. -/
  | pausing (done : List Action) (ms : Nat) (hplan : r.plan = done ++ .pause ms :: t.remaining)
      (hevents : t.events = timeline 0 done) (hdue : t.due = t.started + duration done + ms)
      (hbegun : t.hasBegun = true) (hnone : t.outcome = none) (hle : t.started ≤ now)
      (hlt : now < t.due) (hpast : ∀ x ∈ t.events, t.started + x.time ≤ now)
      (hmarked : t.MarkedBy c) : Stands r c now t
  | finished (hsome : t.outcome = some (r.run c).outcome) (hevents : t.events = (r.run c).events)
      (hdue : t.due = t.started + (r.run c).endTime) (hle : t.due ≤ now) : Stands r c now t

theorem stands_spawn (r : Setup) (now : Nat) : (spawn now r.plan).Stands r .never now :=
  .idle rfl rfl rfl rfl rfl rfl rfl

namespace Stands

variable {r : Setup} {c : Cancellation} {now : Nat} {t : Task}

/-- What a task has delivered and what it has still to do make up the run. -/
theorem run_eq (h : t.Stands r c now) (houtcome : t.outcome = none) :
    let x := executeFrom t.mark [] (t.due - t.started) t.remaining
    r.run c = ⟨t.events ++ x.events, x.outcome, x.endTime⟩ := by
  cases h with
  | idle hstarted hdue hremaining _ hdelivered _ hc =>
      have htime : t.due - t.started = 0 := by omega
      rw [hremaining, htime, ← hc, events, hdelivered]
      rfl
  | pausing done ms hplan hevents hdue _ _ _ _ _ hmarked =>
      have hline : timeline 0 (done ++ [.pause ms]) = t.events := by
        rw [timeline_append, hevents, timeline, timeline, List.append_nil]
      have htime : 0 + duration (done ++ [.pause ms]) = t.due - t.started := by
        rw [duration_append, duration, duration, hdue]
        omega
      obtain ⟨later, heq⟩ := executeFrom_append c (done ++ [.pause ms]) t.remaining 0 [] <| by
        rw [hline]
        exact hmarked.hasHappened_eq_false
      have hrest : executeFrom c later (t.due - t.started) t.remaining =
          executeFrom t.mark [] (t.due - t.started) t.remaining :=
        executeFrom_congr _ _ _ _ fun delivered other _ => hmarked.hasHappened_eq delivered other
      rw [htime, hrest, hline, List.append_assoc, List.singleton_append, ← hplan] at heq
      exact heq
  | finished hsome _ _ _ =>
      rw [houtcome] at hsome
      cases hsome

/-- A task that goes ahead stays in step with its run. -/
theorem goesAhead {l : Nat} {t' : Task} (h : t.Stands r c now) (houtcome : t.outcome = none)
    (hl : now ≤ l) (hstarted : t'.started = t.started) (hcancelled : t'.isCancelled = t.isCancelled)
    (hbegun : t'.hasBegun = true) (hahead : GoesAhead (some l) t t.remaining t') :
    t'.Stands r c l := by
  have hrun := h.run_eq houtcome
  cases hahead with
  | finishes x hx hevents hend hdue hlimit =>
      rw [hx] at hrun
      refine .finished ?_ ?_ ?_ (hlimit l rfl) <;> rw [hrun]
      · exact hend
      · exact hevents
      · rw [hstarted, hdue]
  | pauses more later l' hsplit hevents hnone hdue hlimit hlt hmark htimes =>
      cases hlimit
      cases h with
      | finished hsome => rw [houtcome] at hsome; cases hsome
      | idle hstart hstartDue hremaining _ hdelivered _ hc =>
          have htime : t.due - t.started = 0 := by omega
          have hnothing : t.events = [] := by rw [events, hdelivered]; rfl
          rw [htime] at hevents htimes
          rw [hnothing, List.nil_append] at hevents
          rw [hremaining] at hsplit
          refine .pausing more later hsplit hevents (by omega) hbegun hnone (by omega) hlt
            (by rw [hevents, hstarted]; exact htimes) (Or.inl ?_)
          rw [hcancelled, hc, mark]
          cases hmarked : t.isCancelled with
          | false => exact ⟨rfl, rfl⟩
          | true =>
              -- the plan opens with a line, so a cancelled task cannot come to a pause
              exact absurd (hmark hmarked) (Setup.notifications_ne_nil hsplit)
      | pausing done ms hplan hdone hend _ _ hle _ hpast hmarked =>
          have htime : t.due - t.started = 0 + duration done + ms := by omega
          have hline : timeline 0 (done ++ .pause ms :: more) = t'.events := by
            rw [timeline_append, timeline, ← htime, hevents, hdone]
          refine .pausing (done ++ .pause ms :: more) later ?_ hline.symm ?_ hbegun hnone
            (by omega) hlt ?_ ?_
          · rw [hplan, hsplit, List.append_assoc, List.cons_append]
          · rw [duration_append, duration, hdue, hend, hstarted]
            omega
          · rw [hevents, hstarted]
            intro x hx
            rcases List.mem_append.1 hx with hx | hx
            · exact Nat.le_trans (hpast x hx) hl
            · exact htimes x hx
          · refine hmarked.of_events_eq hstarted hcancelled (by omega) fun h => ?_
            have hnothing : timeline (t.due - t.started) more = [] := by
              rw [← List.map_eq_nil_iff (f := Timed.event), map_event_timeline, hmark h]
            rw [hevents, hnothing, List.append_nil]

theorem started_le (h : t.Stands r c now) : t.started ≤ now := by
  cases h with
  | idle hstarted => exact Nat.le_of_eq hstarted
  | pausing _ _ _ _ _ _ _ hle => exact hle
  | finished _ _ hdue hle => omega

theorem started_le_due (h : t.Stands r c now) : t.started ≤ t.due := by
  cases h with
  | idle hstarted hdue => omega
  | pausing _ _ _ _ hdue => omega
  | finished _ _ hdue => omega

/-- Time passes. -/
theorem advance {l : Nat} (h : t.Stands r c now) (hl : now ≤ l) :
    (t.advance (some l)).Stands r c l := by
  rw [Task.advance]
  split
  · next hfinished =>
      cases h with
      | idle _ _ _ _ _ hnone => simp [isFinished, hnone] at hfinished
      | pausing _ _ _ _ _ _ hnone => simp [isFinished, hnone] at hfinished
      | finished hsome hevents hdue hle => exact .finished hsome hevents hdue (Nat.le_trans hle hl)
  · next hfinished =>
      have hnone := outcome_eq_none (Bool.eq_false_iff.2 hfinished)
      rw [Option.all_some]
      split
      · next hdue =>
          obtain ⟨hstarted, hcancelled, hbegun⟩ :=
            carryOut_frame (some l) t.remaining { t with hasBegun := true }
          refine h.goesAhead hnone hl hstarted hcancelled hbegun ?_
          refine (goesAhead_carryOut (some l) t.remaining (t := { t with hasBegun := true })
            h.started_le_due ?_ hnone).of_begun
          rintro k hk
          cases hk
          exact of_decide_eq_true hdue
      · next hdue =>
          have hlt : l < t.due := by simpa using hdue
          cases h with
          | idle _ heq => omega
          | finished hsome => rw [hnone] at hsome; cases hsome
          | pausing done ms hplan hevents hdue hbegun hnone hle _ hpast hmarked =>
              exact .pausing done ms hplan hevents hdue hbegun hnone (Nat.le_trans hle hl) hlt
                (fun x hx => Nat.le_trans (hpast x hx) hl) hmarked

/-- Once time has passed the run has begun. -/
theorem status_advance_ne_idle {l : Nat} (h : t.Stands r c now) (hl : now ≤ l) :
    (t.advance (some l)).status ≠ .idle := by
  rw [Ne, status_eq_idle_iff, Task.advance]
  split
  · next hfinished =>
      rintro ⟨hnone, -⟩
      simp [isFinished, hnone] at hfinished
  · next hfinished =>
      have hnone := outcome_eq_none (Bool.eq_false_iff.2 hfinished)
      split
      · rw [(carryOut_frame _ _ _).2.2]
        simp
      · next hdue =>
          have hlt : l < t.due := by simpa using hdue
          cases h with
          | idle _ heq => omega
          | pausing _ _ _ _ _ hbegun => simp [hbegun]
          | finished hsome => rw [hnone] at hsome; cases hsome

/-- How long a task goes on that nobody stops. -/
theorem due_advance_none (h : t.Stands r c now) (hnone : t.outcome = none) :
    (t.advance none).due = t.started + (r.run c).endTime ∧ now ≤ (t.advance none).due := by
  have hrun := h.run_eq hnone
  have hahead := goesAhead_carryOut none t.remaining (t := { t with hasBegun := true })
    h.started_le_due nofun hnone
  have heq : t.advance none = carryOut none { t with hasBegun := true } t.remaining := by
    rw [Task.advance, isFinished, hnone]
    rfl
  rw [heq]
  cases hahead.of_begun with
  | pauses _ _ _ _ _ _ _ hlimit => cases hlimit
  | finishes x hx hevents hend hdue =>
      have hle := le_endTime_executeFrom t.mark t.remaining (t.due - t.started) []
      have hdueLe := h.started_le_due
      rw [hx] at hrun hle
      rw [hdue, hrun]
      refine ⟨rfl, ?_⟩
      cases h with
      | idle hstarted _ => omega
      | pausing _ _ _ _ _ _ _ _ hlt => omega
      | finished hsome => rw [hnone] at hsome; cases hsome

/-- The run is cancelled: before it begins if it has delivered nothing, and else now. -/
theorem cancel (h : t.Stands r .never now) :
    t.cancel.Stands r (if t.events = [] then .before else .at (now - t.started)) now := by
  cases h with
  | idle hstarted hdue hremaining hbegun hdelivered hnone hc =>
      rw [if_pos (by rw [events, hdelivered]; rfl)]
      exact .idle hstarted hdue hremaining hbegun hdelivered hnone rfl
  | pausing done ms hplan hevents hdue hbegun hnone hle hlt hpast hmarked =>
      rw [if_neg (by rw [hevents]; exact timeline_ne_nil (Setup.notifications_ne_nil hplan) 0)]
      refine .pausing done ms hplan hevents hdue hbegun hnone hle hlt hpast
        (Or.inr ⟨now - t.started, rfl, rfl, ?_, fun x hx => ?_⟩)
      · change t.started + (now - t.started) < t.due
        omega
      · have := hpast x hx
        omega
  | finished hsome hevents hdue hle =>
      have hne : t.events ≠ [] := fun hnil => by
        have hlast := r.getLast?_run .never
        rw [← hevents, hnil] at hlast
        cases hlast
      have hsame : r.run (.at (now - t.started)) = r.run .never :=
        Setup.run_at_of_endTime_le (by omega)
      rw [if_neg hne]
      exact .finished (hsame ▸ hsome) (hsame ▸ hevents) (hsame ▸ hdue) hle

/-- What was cancelled already is not cancelled at another time. -/
theorem cancel_of_ne_never (h : t.Stands r c now) (hne : c ≠ .never) :
    t.cancel.Stands r c now := by
  cases h with
  | idle hstarted hdue hremaining hbegun hdelivered hnone hc =>
      refine .idle hstarted hdue hremaining hbegun hdelivered hnone ?_
      rw [mark] at hc
      split at hc
      · exact hc
      · exact absurd hc hne
  | pausing done ms hplan hevents hdue hbegun hnone hle hlt hpast hmarked =>
      obtain ⟨m, hc, -, hm⟩ := hmarked.resolve_left fun hm => hne hm.1
      exact .pausing done ms hplan hevents hdue hbegun hnone hle hlt hpast (Or.inr ⟨m, hc, rfl, hm⟩)
  | finished hsome hevents hdue hle => exact .finished hsome hevents hdue hle

/-! ## What is seen of a task -/

/-- A task has delivered what its run delivers up to now, and nothing if it has not begun. -/
theorem shows (h : t.Stands r c now) :
    t.status = .idle ∧ t.started = now ∨ t.Shows (r.run c) (now - t.started) := by
  cases h with
  | idle hstarted _ _ hbegun _ hnone _ =>
      exact .inl ⟨status_eq_idle_iff.2 ⟨hnone, hbegun⟩, hstarted⟩
  | pausing done ms hplan hevents hdue hbegun hnone hle hlt hpast hmarked =>
      right
      have hrun := run_eq (.pausing done ms hplan hevents hdue hbegun hnone hle hlt hpast hmarked)
        hnone
      have hend := le_endTime_executeFrom t.mark t.remaining (t.due - t.started) []
      have hlater := time_mem_executeFrom t.mark t.remaining (t.due - t.started) []
      generalize executeFrom t.mark [] (t.due - t.started) t.remaining = x at hrun hend hlater
      have hnow : t.events.filter (·.time ≤ now - t.started) = t.events :=
        List.filter_eq_self.2 fun y hy => decide_eq_true (by have := hpast y hy; omega)
      have hrest : x.events.filter (·.time ≤ now - t.started) = [] :=
        List.filter_eq_nil_iff.2 fun y hy => by
          have := (hlater y hy).1
          simp only [decide_eq_true_eq]
          omega
      rw [hrun]
      constructor
      · rw [List.filter_append, hnow, hrest, List.append_nil]
      · rw [if_neg (by simp only; omega), hnone]
  | finished hsome hevents hdue hle =>
      right
      have hall : (r.run c).events.filter (·.time ≤ now - t.started) = (r.run c).events := by
        refine List.filter_eq_self.2 fun y hy => decide_eq_true ?_
        have := (time_mem_executeFrom c r.plan 0 [] y hy).2
        change y.time ≤ (r.run c).endTime at this
        omega
      constructor
      · rw [hall, hevents]
      · rw [if_pos (by omega), hsome]

/-- A task that is given the time that it needs comes to its end. -/
theorem isFinished_advance (h : t.Stands r c now) (hnone : t.outcome = none) :
    (t.advance (some (t.advance none).due)).isFinished = true := by
  obtain ⟨hdue, hle⟩ := h.due_advance_none hnone
  have hbegun := h.status_advance_ne_idle hle
  have hstarted := started_advance (some (t.advance none).due) t
  rcases (h.advance hle).shows with ⟨hidle, -⟩ | hshows
  · exact absurd hidle hbegun
  · rw [isFinished, hshows.outcome_eq, if_pos (by omega)]
    rfl

theorem of_isFinished (h : t.Stands r c now) (hfinished : t.isFinished = true) :
    t.events = (r.run c).events ∧ t.outcome = some (r.run c).outcome := by
  cases h with
  | idle _ _ _ _ _ hnone => simp [isFinished, hnone] at hfinished
  | pausing _ _ _ _ _ _ hnone => simp [isFinished, hnone] at hfinished
  | finished hsome hevents => exact ⟨hevents, hsome⟩

/-- **The status of a task** can be told from the last notification. -/
theorem status_eq (h : t.Stands r c now) : t.status = .ofEvents t.events := by
  rw [status]
  cases h with
  | idle _ _ _ hbegun hdelivered hnone _ =>
      rw [hnone, hbegun, events, hdelivered]
      rfl
  | pausing done ms hplan hevents hdue hbegun hnone _ _ _ _ =>
      obtain ⟨hcomplete, hcancelled⟩ := Setup.not_mem_notifications hplan
      rw [← map_event_timeline done 0, ← hevents] at hcomplete hcancelled
      have hne : t.events ≠ [] := by
        rw [hevents]
        exact timeline_ne_nil (Setup.notifications_ne_nil hplan) 0
      rw [hnone, hbegun, TaskStatus.ofEvents_eq_running hne hcomplete hcancelled]
      rfl
  | finished hsome hevents _ _ =>
      rw [hsome, hevents, TaskStatus.ofEvents, r.getLast?_run c]
      cases (r.run c).outcome <;> rfl

end Stands

end Task

end Workflow
