import Mathlib.Data.List.Induction
import Mathlib.Data.List.Infix
import Workflow.Proofs.Cancellation
import Workflow.Proofs.Notifications

/-!
# What a viewer knows

A viewer is told of one notification after the other and keeps what it knows up to date.  What it
knows in the end can be read off the list of all it was told, in whatever order that came; and of a
run, whose notifications come in order, it knows at every moment which step is under way.

* `EndsIn` says that only events of one kind come after the last of another.
* `Progress.Reflects` is what a viewer is to know after some notifications, and
  `Progress.Reflects.record` that one more notification keeps it so.
* `Leaves` says that a step is left before anything else is entered.
* `Setup.exists_map_event_events_eq_concat` cuts what a run notifies of before its end, and
  `Progress.current_and_isRunning_of_isPrefix` says what there is to know until then.
* `Progress.ofEvents_reflects_run` puts the two together.
-/

namespace Workflow

/-! ## Any notifications -/

/-- Whether there is an event with a property behind which all events have another one. -/
def EndsIn (p q : Event → Prop) (events : List Event) : Prop :=
  ∃ front e back, events = front ++ e :: back ∧ p e ∧ ∀ x ∈ back, q x

section EndsIn

variable {p q : Event → Prop}

theorem not_endsIn_nil : ¬EndsIn p q [] := by
  rintro ⟨front, e, back, h, -⟩
  simp at h

theorem endsIn_concat_iff {events : List Event} {e : Event} :
    EndsIn p q (events ++ [e]) ↔ p e ∨ q e ∧ EndsIn p q events := by
  constructor
  · rintro ⟨front, x, back, h, hx, hback⟩
    rcases back.eq_nil_or_concat with rfl | ⟨back, y, rfl⟩
    · obtain ⟨-, heq⟩ := List.append_inj' h rfl
      obtain rfl : e = x := List.singleton_inj.1 heq
      exact .inl hx
    · rw [List.concat_eq_append] at h hback
      rw [← List.cons_append, ← List.append_assoc] at h
      obtain ⟨rfl, heq⟩ := List.append_inj' h rfl
      obtain rfl : e = y := List.singleton_inj.1 heq
      simp only [List.mem_append, List.mem_singleton, or_imp, forall_and, forall_eq] at hback
      exact .inr ⟨hback.2, front, x, back, rfl, hx, hback.1⟩
  · rintro (h | ⟨hq, front, x, back, rfl, hx, hback⟩)
    · exact ⟨events, e, [], rfl, h, by simp⟩
    · refine ⟨front, x, back ++ [e], by simp, hx, ?_⟩
      simp only [List.mem_append, List.mem_singleton, or_imp, forall_and, forall_eq]
      exact ⟨hback, hq⟩

end EndsIn

/-- Where nothing says that a run is at its end, the last event but for steps that are left is of a
step that is entered or of a line. -/
theorem endsIn_of_mem {events : List Event}
    (hevents : ∀ e ∈ events, e ≠ .complete ∧ e ≠ .cancelled) {e : Event} (he : e ∈ events)
    (hexit : e.kind ≠ .exit) :
    EndsIn (fun e => e.kind = .enter ∨ e.kind = .log) (·.kind = .exit) events := by
  induction events using List.reverseRecOn with
  | nil => cases he
  | append_singleton events last ih =>
      simp only [List.mem_append, List.mem_singleton, or_imp, forall_and, forall_eq] at hevents he
      rw [endsIn_concat_iff]
      cases last with
      | exit id =>
          refine .inr ⟨rfl, ih (by simpa [forall_and] using ⟨hevents.1.1, hevents.2.1⟩) ?_⟩
          exact he.resolve_right (by rintro rfl; exact hexit rfl)
      | enter id => exact .inl (.inl rfl)
      | log line => exact .inl (.inr rfl)
      | complete => exact absurd rfl hevents.1.2
      | cancelled => exact absurd rfl hevents.2.2

namespace Progress

/-- What a viewer is to know after some notifications: all lines that were said and all steps that
were entered; the step that was entered last, unless more than lines came behind that; and that the
run is going on, if at last, but for steps that were left, a step was entered or a line said. -/
structure Reflects (p : Progress) (events : List Event) : Prop where
  logs_eq : p.logs = events.filterMap Event.line?
  visited_eq : p.visited = events.filterMap Event.entered?
  current_eq_some_iff : ∀ id, p.current = some id ↔
    EndsIn (· = .enter id) (·.kind = .log) events
  isRunning_iff : p.isRunning = true ↔
    EndsIn (fun e => e.kind = .enter ∨ e.kind = .log) (·.kind = .exit) events

variable {p : Progress} {events : List Event}

theorem reflects_nil : ({} : Progress).Reflects [] where
  logs_eq := rfl
  visited_eq := rfl
  current_eq_some_iff := fun _ => iff_of_false nofun not_endsIn_nil
  isRunning_iff := iff_of_false nofun not_endsIn_nil

/-- One more notification is taken in. -/
theorem Reflects.record (h : p.Reflects events) (e : Event) :
    (p.record e).Reflects (events ++ [e]) := by
  obtain ⟨hlogs, hvisited, hcurrent, hrunning⟩ := h
  constructor
  · cases e <;> simp [Progress.record, Event.line?, hlogs]
  · cases e <;> simp [Progress.record, Event.entered?, hvisited]
  · intro id
    cases e <;> simp [Progress.record, Event.kind, endsIn_concat_iff, hcurrent]
  · cases e <;> simp [Progress.record, Event.kind, endsIn_concat_iff, hrunning]

theorem ofEvents_concat (events : List Event) (e : Event) :
    ofEvents (events ++ [e]) = (ofEvents events).record e := by
  simp [ofEvents]

theorem reflects_ofEvents (events : List Event) : (ofEvents events).Reflects events := by
  induction events using List.reverseRecOn with
  | nil => exact reflects_nil
  | append_singleton events e ih =>
      rw [ofEvents_concat]
      exact ih.record e

/-- There is only one thing to know. -/
theorem Reflects.eq {other : Progress} (h : p.Reflects events) (hother : other.Reflects events) :
    p = other := by
  have hcurrent : p.current = other.current :=
    Option.ext fun id => (h.current_eq_some_iff id).trans (hother.current_eq_some_iff id).symm
  have hrunning : p.isRunning = other.isRunning :=
    Bool.eq_iff_iff.2 (h.isRunning_iff.trans hother.isRunning_iff.symm)
  obtain ⟨isRunning, current, logs, visited⟩ := p
  obtain ⟨isRunning', current', logs', visited'⟩ := other
  obtain rfl : current = current' := hcurrent
  obtain rfl : isRunning = isRunning' := hrunning
  obtain rfl : logs = logs' := h.logs_eq.trans hother.logs_eq.symm
  obtain rfl : visited = visited' := h.visited_eq.trans hother.visited_eq.symm
  rfl

end Progress

/-! ## The notifications of a run -/

/-- Whether every step that is entered is left before anything but lines comes. -/
def Leaves (events : List Event) : Prop :=
  ∀ front id back, events = front ++ .enter id :: back →
    ∃ lines rest, back = lines ++ .exit id :: rest ∧ ∀ e ∈ lines, e.kind = .log

theorem leaves_of_forall_ne_enter {events : List Event} (h : ∀ id, .enter id ∉ events) :
    Leaves events := by
  rintro front id back rfl
  exact absurd (List.mem_append_right front List.mem_cons_self) (h id)

theorem Leaves.append {first second : List Event} (hfirst : Leaves first)
    (hsecond : Leaves second) : Leaves (first ++ second) := by
  intro front id back h
  rcases List.append_eq_append_iff.1 h with ⟨more, rfl, hmore⟩ | ⟨more, rfl, hmore⟩
  · exact hsecond more id back hmore
  · cases more with
    | nil => exact hsecond [] id back hmore.symm
    | cons x more =>
        obtain ⟨rfl, rfl⟩ := List.cons.inj hmore
        obtain ⟨lines, rest, rfl, hlines⟩ := hfirst front id more rfl
        exact ⟨lines, rest ++ second, by simp, hlines⟩

theorem Leaves.flatMap {α : Type} {f : α → List Event} {items : List α}
    (h : ∀ a ∈ items, Leaves (f a)) : Leaves (items.flatMap f) := by
  induction items with
  | nil => exact leaves_of_forall_ne_enter (by simp)
  | cons a items ih =>
      rw [List.forall_mem_cons] at h
      rw [List.flatMap_cons]
      exact h.1.append (ih h.2)

/-- Where a step that was entered has not been left yet, there were only lines. -/
theorem Leaves.kind_eq_log_of_isPrefix {events front back : List Event} {id : String}
    (h : Leaves events) (hpart : front ++ .enter id :: back <+: events)
    (hexit : .exit id ∉ back) : ∀ e ∈ back, e.kind = .log := by
  obtain ⟨more, rfl⟩ := hpart
  obtain ⟨lines, rest, heq, hlines⟩ := h front id (back ++ more) (by simp)
  rcases List.append_eq_append_iff.1 heq with ⟨others, rfl, -⟩ | ⟨others, rfl, hothers⟩
  · exact fun e he => hlines e (List.mem_append_left _ he)
  · cases others with
    | nil => simpa using hlines
    | cons x others =>
        obtain ⟨rfl, -⟩ := List.cons.inj hothers
        exact absurd (List.mem_append_right lines List.mem_cons_self) hexit

namespace Setup

theorem leaves_blockEvents (r : Setup) (s : Step) : Leaves (r.blockEvents s) := by
  intro front id back h
  rw [blockEvents, List.cons_append] at h
  cases front with
  | nil =>
      obtain ⟨hid, rfl⟩ := List.cons.inj h
      cases hid
      exact ⟨_, [], rfl, by simp [Event.kind]⟩
  | cons x front =>
      obtain ⟨-, h⟩ := List.cons.inj h
      have hmem : .enter id ∈ front.append (.enter id :: back) := by simp
      rw [← h] at hmem
      simp at hmem

theorem leaves_notifications_plan (r : Setup) : Leaves (notifications r.plan) := by
  cases h : r.graph.entry? with
  | none =>
      rw [notifications_plan_of_entry?_eq_none h]
      exact leaves_of_forall_ne_enter (by simp)
  | some start =>
      rw [notifications_plan h]
      refine .append (.append (leaves_of_forall_ne_enter (by simp)) ?_)
        (leaves_of_forall_ne_enter (by simp))
      exact .flatMap fun s _ => r.leaves_blockEvents s

/-- Before its last notification a run is neither complete nor cancelled. -/
theorem ne_of_mem_dropLast {r : Setup} {e : Event} (h : e ∈ (notifications r.plan).dropLast) :
    e ≠ .complete ∧ e ≠ .cancelled := by
  obtain ⟨before, hplan, hcomplete, hcancelled⟩ := r.notifications_plan_eq_append_complete
  rw [hplan, List.dropLast_concat] at h
  exact ⟨fun heq => hcomplete (heq ▸ h), fun heq => hcancelled (heq ▸ h)⟩

/-- A run begins with a line. -/
theorem exists_notifications_plan_eq_log_cons (r : Setup) :
    ∃ line rest, notifications r.plan = .log line :: rest := by
  cases h : r.graph.entry? with
  | none => exact ⟨_, _, notifications_plan_of_entry?_eq_none h⟩
  | some start => exact ⟨_, _, notifications_plan h⟩

/-- No step is entered twice. -/
theorem nodup_filterMap_entered?_notifications_plan (r : Setup) :
    ((notifications r.plan).filterMap Event.entered?).Nodup := by
  cases h : r.graph.entry? with
  | none =>
      rw [notifications_plan_of_entry?_eq_none h]
      exact List.nodup_nil
  | some start =>
      have hentered := entered_eq_map_id_visits h
      rw [Execution.entered, run_never] at hentered
      rw [← map_event_timeline r.plan 0, List.filterMap_map]
      exact hentered ▸ r.graph.nodup_map_id_visits r.context

/-- What a run notifies of is a front of its plan before the completion, and at last that it is
complete or cancelled. -/
theorem exists_map_event_events_eq_concat (r : Setup) (c : Cancellation) :
    ∃ front last, front <+: (notifications r.plan).dropLast ∧
      (last = .complete ∨ last = .cancelled) ∧
      (r.run c).events.map Timed.event = front ++ [last] := by
  obtain ⟨before, hplan, -, -⟩ := r.notifications_plan_eq_append_complete
  rw [hplan, List.dropLast_concat]
  rcases Nat.lt_or_eq_of_le (c.reach_le_length (timeline 0 r.plan) []) with hlt | hall
  · obtain ⟨next, -, hrun⟩ := run_of_reach_lt_length hlt
    refine ⟨before.take (c.reach [] (timeline 0 r.plan)), .cancelled, List.take_prefix ..,
      .inr rfl, ?_⟩
    rw [← List.length_map (f := Timed.event), map_event_timeline, hplan, List.length_append,
      List.length_singleton] at hlt
    rw [hrun, List.map_append, List.map_take, map_event_timeline, hplan,
      List.take_append_of_le_length (Nat.le_of_lt_succ hlt)]
    rfl
  · refine ⟨before, .complete, List.prefix_rfl, .inl rfl, ?_⟩
    rw [run_of_reach_eq_length hall, map_event_timeline, hplan]

end Setup

/-! ## What is known of a run -/

namespace Progress

/-- Of a run that is not at its end a viewer knows which step is under way, and that it is going
on. -/
theorem current_and_isRunning_of_isPrefix {r : Setup} {seen : List Event}
    (h : seen <+: (notifications r.plan).dropLast) :
    (∀ id, (ofEvents seen).current = some id ↔
      EndsIn (· = .enter id) (· ∉ [.exit id, .complete, .cancelled]) seen) ∧
    ((ofEvents seen).isRunning = true ↔ seen ≠ []) := by
  have hseen := reflects_ofEvents seen
  constructor
  · intro id
    rw [hseen.current_eq_some_iff]
    constructor
    · rintro ⟨front, e, back, rfl, he, hback⟩
      refine ⟨front, e, back, rfl, he, fun x hx => ?_⟩
      have hkind := hback x hx
      cases x <;> simp [Event.kind] at hkind ⊢
    · rintro ⟨front, e, back, rfl, rfl, hback⟩
      have hexit : .exit id ∉ back := fun hmem => hback _ hmem (by simp)
      exact ⟨front, _, back, rfl, rfl, r.leaves_notifications_plan.kind_eq_log_of_isPrefix
        (h.trans (List.dropLast_prefix _)) hexit⟩
  · rw [hseen.isRunning_iff]
    constructor
    · rintro hends rfl
      exact not_endsIn_nil hends
    · intro hne
      obtain ⟨line, rest, hplan⟩ := r.exists_notifications_plan_eq_log_cons
      obtain ⟨more, hmore⟩ := h.trans (List.dropLast_prefix _)
      cases seen with
      | nil => exact absurd rfl hne
      | cons first seen =>
          rw [hplan] at hmore
          obtain ⟨rfl, -⟩ := List.cons.inj hmore
          exact endsIn_of_mem (fun e he => Setup.ne_of_mem_dropLast (h.subset he))
            List.mem_cons_self (by simp [Event.kind])

theorem nodup_visited_of_isPrefix {r : Setup} {seen : List Event}
    (h : seen <+: (notifications r.plan).dropLast) : (ofEvents seen).visited.Nodup := by
  rw [(reflects_ofEvents seen).visited_eq]
  exact r.nodup_filterMap_entered?_notifications_plan.sublist
    ((h.trans (List.dropLast_prefix _)).sublist.filterMap _)

/-- Told that the run is complete or cancelled, a viewer keeps what was and forgets what is. -/
theorem ofEvents_concat_of_ends (seen : List Event) {last : Event}
    (h : last = .complete ∨ last = .cancelled) :
    ofEvents (seen ++ [last]) = { ofEvents seen with isRunning := false, current := none } := by
  rcases h with rfl | rfl <;> rw [ofEvents_concat] <;> rfl

/-- **What a viewer knows.**  After any notifications, in any order, it knows what they amount to,
and nothing else.  Of a run, cancelled or not, it follows for every front of the notifications: no
step was entered twice; the step under way is the one that was entered and since then was not left,
if the run is not at its end; and the run is going on from the first notification, unless that is of
its cancellation, until that of its end. -/
theorem ofEvents_reflects_run :
    (∀ (events : List Event) (p : Progress), p = ofEvents events ↔ p.Reflects events) ∧
    ∀ (r : Setup) (c : Cancellation) (n : Nat),
      let seen := ((r.run c).events.map Timed.event).take n
      let p := ofEvents seen
      p.visited.Nodup ∧
      (∀ id, p.current = some id ↔
        EndsIn (· = .enter id) (· ∉ [.exit id, .complete, .cancelled]) seen) ∧
      (p.isRunning = true ↔
        (∃ e ∈ seen, e ≠ .cancelled) ∧ .complete ∉ seen ∧ .cancelled ∉ seen) := by
  refine ⟨fun events p => ⟨?_, fun h => h.eq (reflects_ofEvents events)⟩, fun r c n => ?_⟩
  · rintro rfl
    exact reflects_ofEvents events
  · intro seen p
    obtain ⟨front, last, hfront, hlast, hevents⟩ := r.exists_map_event_events_eq_concat c
    have hseen : seen <+: front ++ [last] := hevents ▸ List.take_prefix n _
    rcases List.prefix_concat_iff.1 hseen with hall | hseen
    · have hp : p = { ofEvents front with isRunning := false, current := none } := by
        rw [← ofEvents_concat_of_ends front hlast, ← hall]
      rw [hp, hall]
      refine ⟨nodup_visited_of_isPrefix hfront, fun id => ?_, ?_⟩
      · rw [endsIn_concat_iff]
        rcases hlast with rfl | rfl <;> simp
      · rcases hlast with rfl | rfl <;> simp
    · have hopen := hseen.trans hfront
      obtain ⟨hcurrent, hrunning⟩ := current_and_isRunning_of_isPrefix hopen
      have hne : ∀ e ∈ seen, e ≠ .complete ∧ e ≠ .cancelled :=
        fun e he => Setup.ne_of_mem_dropLast (hopen.subset he)
      refine ⟨nodup_visited_of_isPrefix hopen, hcurrent, hrunning.trans ?_⟩
      constructor
      · intro hseen
        obtain ⟨e, he⟩ := List.exists_mem_of_ne_nil seen hseen
        exact ⟨⟨e, he, (hne e he).2⟩, fun h => (hne _ h).1 rfl, fun h => (hne _ h).2 rfl⟩
      · rintro ⟨⟨e, he, -⟩, -⟩
        exact List.ne_nil_of_mem he

end Progress
end Workflow
