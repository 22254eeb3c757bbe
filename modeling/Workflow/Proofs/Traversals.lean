import Workflow.Proofs.Tasks
import Workflow.Proofs.Visits

/-!
# Traversals

A run as a loop over its queue.  A turn of the loop takes a step out of the queue, looks for the
signal that cancels the run and, if the step is new, visits it, with a look before every notification.
What the looks find is left open, so the signal may be given at any time at all; the first look that
finds it ends the traversal.

* `Moment` is what a run has come to, and `Signal` what its looks find.
* `Setup.loop` is the loop, `Setup.traverse` the whole traversal and `Setup.conclude` how a run ends
  after it.
* `Graph.length_popsFrom_le` bounds what the queue yields by what is in it and the transitions that
  have not been used, and `Setup.takes_loop` says that the loop takes out no more.
* `Setup.endsWith_conclude_traverse` says that a traversal notifies of its end and, before that, of
  none.
* `Setup.execution_traverse` says that the run of a plan is a traversal.
* `Setup.traverse_ends` is the law of traversals.
-/

namespace Workflow

/-! ## Moments -/

/-- What a run has come to. -/
structure Moment where
  /-- How often the run has looked for its signal. -/
  looks : Nat := 0
  /-- How many steps have come up in the queue. -/
  pops : Nat := 0
  time : Nat := 0
  /-- What was delivered, the latest first. -/
  delivered : List Timed := []

/-- Whether a run that looks for the signal of its cancellation finds it. -/
abbrev Signal := Moment → Bool

/-- The signal of a run that is cancelled at some moment. -/
def Cancellation.signal (c : Cancellation) : Signal :=
  fun m => c.hasHappened (m.delivered.map Timed.event) m.time

namespace Moment

/-- The notifications, in the order of their delivery. -/
def events (m : Moment) : List Timed :=
  m.delivered.reverse

/-- The moment after a notification. -/
def deliver (m : Moment) (e : Event) : Moment :=
  { m with delivered := ⟨m.time, e⟩ :: m.delivered }

/-- The moment after a step has come up. -/
def pop (m : Moment) : Moment :=
  { m with pops := m.pops + 1 }

/-- The moment after a look. -/
def looked (m : Moment) : Moment :=
  { m with looks := m.looks + 1 }

/-- Looks for the signal, which interrupts the run. -/
def look (signal : Signal) (m : Moment) : Except Moment Moment :=
  if signal m then .error m.looked else .ok m.looked

/-- Carries out actions, with a look before every notification. -/
def carryOut (signal : Signal) (m : Moment) : List Action → Except Moment Moment
  | [] => .ok m
  | .pause ms :: rest => carryOut signal { m with time := m.time + ms } rest
  | .notify e :: rest => (m.look signal).bind fun m => carryOut signal (m.deliver e) rest

/-- Whether something holds at the end, be it that the run came through or was interrupted. -/
def AtEnd (p : Moment → Prop) : Except Moment Moment → Prop
  | .ok m => p m
  | .error m => p m

theorem AtEnd.bind {p : Moment → Prop} {x : Except Moment Moment}
    {f : Moment → Except Moment Moment} (h : AtEnd p x) (hf : ∀ m, p m → AtEnd p (f m)) :
    AtEnd p (x.bind f) := by
  cases x with
  | ok m => exact hf m h
  | error m => exact h

theorem bind_bind (x : Except Moment Moment) (f g : Moment → Except Moment Moment) :
    (x.bind f).bind g = x.bind fun m => (f m).bind g := by
  cases x <;> rfl

theorem look_eq_error {signal : Signal} {m : Moment} (h : signal m = true) :
    m.look signal = .error m.looked :=
  if_pos h

theorem look_eq_ok {signal : Signal} {m : Moment} (h : signal m = false) :
    m.look signal = .ok m.looked :=
  if_neg (by simp [h])

theorem atEnd_look {p : Moment → Prop} {m : Moment} (h : p m.looked) (signal : Signal) :
    AtEnd p (m.look signal) := by
  rw [look]
  split
  · exact h
  · exact h

/-- Whether a run takes a number of steps out of the queue from some moment on; it may take fewer if
it is interrupted. -/
def Takes (n : Nat) (m : Moment) : Except Moment Moment → Prop
  | .ok after => after.pops = m.pops + n
  | .error after => after.pops ≤ m.pops + n

theorem Takes.bind {n k : Nat} {m : Moment} {x : Except Moment Moment}
    {f : Moment → Except Moment Moment} (h : Takes n m x) (hf : ∀ m, Takes k m (f m)) :
    Takes (n + k) m (x.bind f) := by
  cases x with
  | error after => exact Nat.le_trans h (by omega)
  | ok after =>
    have hafter : after.pops = m.pops + n := h
    have hlater := hf after
    rw [Except.bind]
    cases hx : f after with
    | error last =>
      have hle : last.pops ≤ after.pops + k := by simpa [Takes, hx] using hlater
      exact Nat.le_trans hle (by omega)
    | ok last =>
      have heq : last.pops = after.pops + k := by simpa [Takes, hx] using hlater
      exact heq.trans (by omega)

theorem takes_look (signal : Signal) (m : Moment) : Takes 0 m (m.look signal) := by
  rw [look]
  split
  · exact Nat.le_refl _
  · rfl

theorem takes_look_pop (signal : Signal) (m : Moment) : Takes 1 m (m.pop.look signal) := by
  rw [look]
  split
  · exact Nat.le_refl _
  · rfl

variable (signal : Signal)

/-- Carrying out actions takes no step out of the queue. -/
theorem takes_carryOut (actions : List Action) (m : Moment) :
    Takes 0 m (m.carryOut signal actions) := by
  induction actions generalizing m with
  | nil => rfl
  | cons a rest ih =>
    cases a with
    | pause ms => exact ih { m with time := m.time + ms }
    | notify e => exact (takes_look signal m).bind fun m' => ih (m'.deliver e)

/-- Whether no end of the run has been notified of. -/
def IsUnfinished (m : Moment) : Prop :=
  ∀ x ∈ m.delivered, ∀ o : Outcome, x.event ≠ o.event

theorem IsUnfinished.deliver {m : Moment} (h : m.IsUnfinished) {e : Event}
    (he : ∀ o : Outcome, e ≠ o.event) : (m.deliver e).IsUnfinished :=
  List.forall_mem_cons.2 ⟨he, h⟩

/-- Actions that do not notify of an end leave the run unfinished. -/
theorem isUnfinished_carryOut (actions : List Action)
    (hactions : ∀ e ∈ notifications actions, ∀ o : Outcome, e ≠ o.event) {m : Moment}
    (h : m.IsUnfinished) : AtEnd IsUnfinished (m.carryOut signal actions) := by
  induction actions generalizing m with
  | nil => exact h
  | cons a rest ih =>
    cases a with
    | pause ms => exact ih hactions h
    | notify e =>
      obtain ⟨he, hrest⟩ := List.forall_mem_cons.1 hactions
      have hlook : AtEnd IsUnfinished (m.look signal) := atEnd_look h signal
      exact hlook.bind fun m' h => ih hrest (h.deliver he)

theorem carryOut_append (first second : List Action) (m : Moment) :
    m.carryOut signal (first ++ second) =
      (m.carryOut signal first).bind fun m => m.carryOut signal second := by
  induction first generalizing m with
  | nil => rfl
  | cons a rest ih =>
    cases a with
    | pause ms => exact ih _
    | notify e =>
      rw [List.cons_append, carryOut, carryOut]
      cases m.look signal with
      | error m' => rfl
      | ok m' => exact ih _

end Moment

/-! ## The queue -/

namespace Graph

variable (g : Graph) (c : Context)

/-- A visit puts no more into the queue than it uses up of the transitions. -/
theorem length_queued_add_length_unused_le {visited : List String} {s : Step}
    (h : s.id ∉ visited) :
    (g.queued c visited s).length + (g.unused (s.id :: visited)).length ≤
      (g.unused visited).length := by
  have hqueued : (g.queued c visited s).length ≤ (g.outgoing s.id).length :=
    Nat.le_trans (List.length_filter_le ..) (g.length_followed_le c s)
  have hunused := g.length_unused_cons h
  omega

theorem popsFrom_cons_of_mem {visited : List String} {s : Step} (h : s.id ∈ visited)
    (rest : List Step) :
    g.popsFrom c (s :: rest) visited = ⟨s, false⟩ :: g.popsFrom c rest visited := by
  rw [popsFrom, if_pos h]

theorem popsFrom_cons_of_not_mem {visited : List String} {s : Step} (h : s.id ∉ visited)
    (rest : List Step) :
    g.popsFrom c (s :: rest) visited =
      ⟨s, true⟩ :: g.popsFrom c (rest ++ g.queued c visited s) (s.id :: visited) := by
  rw [popsFrom, if_neg h]
  rfl

/-- The queue yields what is in it and at most one step for every transition not yet used. -/
theorem length_popsFrom_le : ∀ (queue : List Step) (visited : List String),
    (g.popsFrom c queue visited).length ≤ queue.length + (g.unused visited).length := by
  refine g.walk_induction c ?nil ?skip ?visit
  case nil =>
    intro visited
    rw [popsFrom]
    exact Nat.zero_le _
  case skip =>
    intro visited s rest h ih
    rw [popsFrom_cons_of_mem g c h, List.length_cons, List.length_cons]
    omega
  case visit =>
    intro visited s rest h ih
    have hle := g.length_queued_add_length_unused_le c h
    rw [List.length_append] at ih
    rw [popsFrom_cons_of_not_mem g c h, List.length_cons, List.length_cons]
    omega

/-- In a run the queue yields at most one step more than there are transitions. -/
theorem length_pops_le : (g.pops c).length ≤ 1 + g.transitions.length := by
  have hpops := g.length_popsFrom_le c g.entry?.toList []
  have hentry := length_toList_le_one g.entry?
  have hunused : (g.unused []).length ≤ g.transitions.length := List.length_filter_le ..
  rw [pops]
  omega

end Graph

/-! ## The traversal -/

namespace Setup

open Moment

variable (r : Setup) (signal : Signal)

/-- The turns of a run, from a state of the queue and the ids visited so far. -/
def loop (queue : List Step) (visited : List String) (m : Moment) : Except Moment Moment :=
  match queue with
  | [] => .ok m
  | s :: rest =>
    (m.pop.look signal).bind fun m =>
      if s.id ∈ visited then loop rest visited m
      else
        (m.carryOut signal (r.block s)).bind fun m =>
          loop (rest ++ r.graph.queued r.context visited s) (s.id :: visited) m
termination_by queue.length + (r.graph.unused visited).length
decreasing_by
  · simp
  · rename_i hnew
    have hle := r.graph.length_queued_add_length_unused_le r.context hnew
    simp only [List.length_append, List.length_cons]
    omega

/-- The actions at the end of a run. -/
def ending : List Action :=
  [announce closing, .notify .complete]

/-- All that a run does unless its signal interrupts it. -/
def traverse : Except Moment Moment :=
  match r.graph.entry? with
  | none => Moment.carryOut signal {} [announce noEntry, .notify .complete]
  | some start =>
    ((Moment.carryOut signal {} (r.opening.map announce)).bind (r.loop signal [start] [])).bind
      fun m => m.carryOut signal ending

/-- How a run ends after its traversal: if that was interrupted, with the notification of it. -/
def conclude : Except Moment Moment → Moment × Outcome
  | .ok m => (m, .completed)
  | .error m => (m.deliver .cancelled, .cancelled)

/-! ### Turns -/

theorem loop_nil (visited : List String) (m : Moment) : r.loop signal [] visited m = .ok m := by
  rw [loop]

theorem loop_cons_of_mem {visited : List String} {s : Step} (h : s.id ∈ visited)
    (rest : List Step) (m : Moment) :
    r.loop signal (s :: rest) visited m =
      (m.pop.look signal).bind (r.loop signal rest visited) := by
  rw [loop]
  simp only [if_pos h]

theorem loop_cons_of_not_mem {visited : List String} {s : Step} (h : s.id ∉ visited)
    (rest : List Step) (m : Moment) :
    r.loop signal (s :: rest) visited m =
      (m.pop.look signal).bind fun m => (m.carryOut signal (r.block s)).bind
        (r.loop signal (rest ++ r.graph.queued r.context visited s) (s.id :: visited)) := by
  rw [loop]
  simp only [if_neg h]

/-- The loop takes out of the queue what the queue yields. -/
theorem takes_loop : ∀ (queue : List Step) (visited : List String) (m : Moment),
    Takes (r.graph.popsFrom r.context queue visited).length m (r.loop signal queue visited m) := by
  refine r.graph.walk_induction r.context ?nil ?skip ?visit
  case nil =>
    intro visited m
    rw [loop_nil, Graph.popsFrom]
    rfl
  case skip =>
    intro visited s rest h ih m
    rw [r.loop_cons_of_mem signal h, Graph.popsFrom_cons_of_mem _ _ h, List.length_cons,
      Nat.add_comm]
    exact (takes_look_pop signal m).bind ih
  case visit =>
    intro visited s rest h ih m
    rw [r.loop_cons_of_not_mem signal h, Graph.popsFrom_cons_of_not_mem _ _ h, List.length_cons,
      Nat.add_comm]
    refine (takes_look_pop signal m).bind fun m' => ?_
    have hblock := (takes_carryOut signal (r.block s) m').bind ih
    rwa [Nat.zero_add] at hblock

/-- A traversal takes out of the queue what the queue yields in a run that nobody cancels. -/
theorem takes_traverse : Takes (r.graph.pops r.context).length {} (r.traverse signal) := by
  rw [traverse, Graph.pops]
  cases r.graph.entry? with
  | none =>
    rw [Option.toList_none, Graph.popsFrom]
    exact takes_carryOut signal _ _
  | some start =>
    have hloop := (takes_carryOut signal (r.opening.map announce) {}).bind
      (r.takes_loop signal [start] [])
    have hend := hloop.bind (takes_carryOut signal ending)
    rwa [Nat.zero_add, Nat.add_zero] at hend

/-! ### Ends -/

theorem ne_event_of_mem_blockEvents (s : Step) :
    ∀ e ∈ r.blockEvents s, ∀ o : Outcome, e ≠ o.event := by
  rintro e he (_ | _) rfl
  · exact r.complete_not_mem_blockEvents s he
  · exact r.cancelled_not_mem_blockEvents s he

/-- The turns of a run leave it unfinished. -/
theorem isUnfinished_loop : ∀ (queue : List Step) (visited : List String) (m : Moment),
    m.IsUnfinished → AtEnd IsUnfinished (r.loop signal queue visited m) := by
  refine r.graph.walk_induction r.context ?nil ?skip ?visit
  case nil =>
    intro visited m hm
    rw [loop_nil]
    exact hm
  case skip =>
    intro visited s rest h ih m hm
    rw [r.loop_cons_of_mem signal h]
    have hlook : AtEnd IsUnfinished (m.pop.look signal) := atEnd_look hm signal
    exact hlook.bind ih
  case visit =>
    intro visited s rest h ih m hm
    rw [r.loop_cons_of_not_mem signal h]
    have hlook : AtEnd IsUnfinished (m.pop.look signal) := atEnd_look hm signal
    refine hlook.bind fun m' hm' => ?_
    refine (isUnfinished_carryOut signal (r.block s) ?_ hm').bind ih
    rw [notifications_block]
    exact r.ne_event_of_mem_blockEvents s

/-- Whether what was delivered is the end of a run with an outcome, and nothing before it is an end
of a run. -/
def EndsWith (x : Moment × Outcome) : Prop :=
  ∃ earlier, x.1.events = earlier ++ [⟨x.1.time, x.2.event⟩] ∧
    ∀ t ∈ earlier, ∀ o : Outcome, t.event ≠ o.event

theorem endsWith_deliver {m : Moment} (hm : m.IsUnfinished) (o : Outcome) :
    EndsWith (m.deliver o.event, o) :=
  ⟨m.events, List.reverse_cons, fun t ht => hm t (List.mem_reverse.1 ht)⟩

/-- What leaves a run unfinished and is followed by an end of it ends the run. -/
theorem endsWith_conclude_bind {x : Except Moment Moment} {f : Moment → Except Moment Moment}
    (hx : AtEnd IsUnfinished x) (hf : ∀ m, m.IsUnfinished → EndsWith (conclude (f m))) :
    EndsWith (conclude (x.bind f)) := by
  cases x with
  | error m => exact endsWith_deliver hx .cancelled
  | ok m => exact hf m hx

/-- The last two actions of every plan end the run. -/
theorem endsWith_conclude_carryOut (line : LogLine) {m : Moment} (hm : m.IsUnfinished) :
    EndsWith (conclude (m.carryOut signal [announce line, .notify .complete])) := by
  have hline : AtEnd IsUnfinished (m.carryOut signal [announce line]) := by
    refine isUnfinished_carryOut signal _ ?_ hm
    rintro e he (_ | _) rfl <;> exact absurd (List.mem_singleton.1 he) nofun
  rw [← List.singleton_append, carryOut_append]
  refine endsWith_conclude_bind hline fun m' hm' => ?_
  exact endsWith_conclude_bind (atEnd_look hm' signal) fun m'' hm'' =>
    endsWith_deliver hm'' .completed

theorem endsWith_conclude_traverse : EndsWith (conclude (r.traverse signal)) := by
  have hempty : IsUnfinished {} := nofun
  rw [traverse]
  cases r.graph.entry? with
  | none => exact endsWith_conclude_carryOut signal noEntry hempty
  | some start =>
    have hopening : AtEnd IsUnfinished (Moment.carryOut signal {} (r.opening.map announce)) := by
      refine isUnfinished_carryOut signal _ ?_ hempty
      rintro e he (_ | _) rfl <;> simp [opening, announce, notifications, Outcome.event] at he
    exact endsWith_conclude_bind (hopening.bind (r.isUnfinished_loop signal [start] [])) fun m =>
      endsWith_conclude_carryOut signal closing

/-! ### Traversals and plans -/

/-- The execution of a traversal. -/
def execution (x : Except Moment Moment) : Execution :=
  ⟨(conclude x).1.events, (conclude x).2, (conclude x).1.time⟩

variable (c : Cancellation)

/-- What a run does from a moment on if it carries out some actions. -/
def executeAfter (m : Moment) (actions : List Action) : Execution :=
  let later := executeFrom c (m.delivered.map Timed.event) m.time actions
  { later with events := m.events ++ later.events }

/-- A run whose signal is given when a notification is due is interrupted there. -/
theorem executeAfter_notify_of_signal {m : Moment} (h : c.signal m = true) (e : Event)
    (rest : List Action) : executeAfter c m (.notify e :: rest) = execution (.error m.looked) := by
  have hhappened : c.hasHappened (m.delivered.map Timed.event) m.time = true := h
  rw [executeAfter, executeFrom, if_pos hhappened, execution]
  simp only [conclude, events, deliver, looked, List.reverse_cons]

/-- A run whose signal is not given when a notification is due delivers it. -/
theorem executeAfter_notify_of_not_signal {m : Moment} (h : c.signal m = false) (e : Event)
    (rest : List Action) :
    executeAfter c m (.notify e :: rest) = executeAfter c (m.looked.deliver e) rest := by
  have hhappened : c.hasHappened (m.delivered.map Timed.event) m.time = false := h
  rw [executeAfter, executeFrom, if_neg (by simp [hhappened]), executeAfter]
  simp [events, deliver, looked]

theorem execution_carryOut (actions : List Action) (m : Moment) :
    execution (m.carryOut c.signal actions) = executeAfter c m actions := by
  induction actions generalizing m with
  | nil => simp [execution, conclude, executeAfter, executeFrom, Moment.carryOut]
  | cons a rest ih =>
    cases a with
    | pause ms => exact ih { m with time := m.time + ms }
    | notify e =>
      rw [Moment.carryOut]
      cases h : c.signal m with
      | true =>
        rw [look_eq_error h, executeAfter_notify_of_signal c h]
        rfl
      | false =>
        rw [look_eq_ok h, executeAfter_notify_of_not_signal c h]
        exact ih _

/-- What is carried out in two parts is carried out as a whole. -/
theorem execution_carryOut_bind (first second : List Action) {f : Moment → Except Moment Moment}
    (hf : ∀ m, execution (f m) = executeAfter c m second) (m : Moment) :
    execution ((m.carryOut c.signal first).bind f) = executeAfter c m (first ++ second) := by
  rw [← execution_carryOut, carryOut_append]
  cases m.carryOut c.signal first with
  | error after => rfl
  | ok after => exact (hf after).trans (execution_carryOut c second after).symm

/-- The actions of a run from a state of the queue on. -/
def remaining (queue : List Step) (visited : List String) : List Action :=
  (r.graph.visitsFrom r.context queue visited).flatMap r.block ++ ending

/-- What is left of a run begins with a notification. -/
theorem exists_remaining_eq (queue : List Step) (visited : List String) :
    ∃ e rest, r.remaining queue visited = .notify e :: rest := by
  rw [remaining]
  cases r.graph.visitsFrom r.context queue visited with
  | nil => exact ⟨_, _, rfl⟩
  | cons s later => exact ⟨_, _, rfl⟩

/-- The loop of a run carries out what is left of the plan.  A signal that is found when a step comes
up that is not visited is found again before the next notification, with which the plan goes on. -/
theorem execution_loop : ∀ (queue : List Step) (visited : List String) (m : Moment),
    execution ((r.loop c.signal queue visited m).bind fun m => m.carryOut c.signal ending) =
      executeAfter c m (r.remaining queue visited) := by
  refine r.graph.walk_induction r.context ?nil ?skip ?visit
  case nil =>
    intro visited m
    rw [loop_nil, remaining, Graph.visitsFrom_nil]
    exact execution_carryOut c ending m
  case skip =>
    intro visited s rest h ih m
    rw [r.loop_cons_of_mem c.signal h, remaining, Graph.visitsFrom_cons_of_mem _ _ h, ← remaining]
    cases hsignal : c.signal m with
    | true =>
      obtain ⟨e, later, hremaining⟩ := r.exists_remaining_eq rest visited
      rw [look_eq_error (m := m.pop) hsignal, hremaining, executeAfter_notify_of_signal c hsignal]
      rfl
    | false =>
      rw [look_eq_ok (m := m.pop) hsignal]
      exact ih m.pop.looked
  case visit =>
    intro visited s rest h ih m
    rw [r.loop_cons_of_not_mem c.signal h, remaining, Graph.visitsFrom_cons_of_not_mem _ _ h,
      List.flatMap_cons, List.append_assoc, ← remaining]
    cases hsignal : c.signal m with
    | true =>
      rw [look_eq_error (m := m.pop) hsignal]
      exact (executeAfter_notify_of_signal c hsignal _ _).symm
    | false =>
      rw [look_eq_ok (m := m.pop) hsignal]
      have hblock := execution_carryOut_bind c (r.block s) _ ih m.pop.looked
      rw [← bind_bind] at hblock
      exact hblock

/-- **Runs as traversals.**  The run of a plan is the traversal with the signal of its
cancellation. -/
theorem execution_traverse : execution (r.traverse c.signal) = r.run c := by
  have hrun : executeAfter c {} r.plan = r.run c := rfl
  rw [← hrun, traverse, plan, Graph.visits_eq_visitsFrom]
  cases r.graph.entry? with
  | none => exact execution_carryOut c _ {}
  | some start =>
    simp only [bind_bind, Option.toList_some, List.append_assoc]
    exact execution_carryOut_bind c (r.opening.map announce) _ (r.execution_loop c [start] []) {}

/-! ### The law -/

/-- **How traversals end.**  Whenever the signal of a run is given, and whether or not it is, the loop
of the run takes out of its queue at most one step more than the graph has transitions, and as many as
the queue yields if the run completes.  The run ends with the notification of its outcome, and before
that it notifies of no end.  Runs that are cancelled at some moment are such traversals. -/
theorem traverse_ends (r : Setup) :
    (∀ signal : Signal,
      let (m, outcome) := conclude (r.traverse signal)
      m.pops ≤ 1 + r.graph.transitions.length ∧
      (outcome = .completed → m.pops = (r.graph.pops r.context).length) ∧
      ∃ earlier, m.events = earlier ++ [⟨m.time, outcome.event⟩] ∧
        ∀ t ∈ earlier, t.event ≠ .complete ∧ t.event ≠ .cancelled) ∧
    ∀ c : Cancellation,
      let (m, outcome) := conclude (r.traverse c.signal)
      r.run c = ⟨m.events, outcome, m.time⟩ := by
  refine ⟨fun signal => ?_, fun c => (r.execution_traverse c).symm⟩
  have htakes := r.takes_traverse signal
  have hle := r.graph.length_pops_le r.context
  obtain ⟨earlier, hevents, hopen⟩ := r.endsWith_conclude_traverse signal
  have hearlier : ∀ t ∈ earlier, t.event ≠ .complete ∧ t.event ≠ .cancelled := fun t ht =>
    ⟨hopen t ht .completed, hopen t ht .cancelled⟩
  cases hx : r.traverse signal with
  | ok m =>
    rw [hx] at htakes hevents
    have hpops : m.pops = (r.graph.pops r.context).length := htakes.trans (Nat.zero_add _)
    exact ⟨hpops ▸ hle, fun _ => hpops, earlier, hevents, hearlier⟩
  | error m =>
    rw [hx] at htakes hevents
    have hpops : m.pops ≤ (r.graph.pops r.context).length :=
      Nat.le_trans htakes (Nat.le_of_eq (Nat.zero_add _))
    exact ⟨Nat.le_trans hpops hle, nofun, earlier, hevents, hearlier⟩

end Setup

end Workflow
