import Mathlib.Data.List.Basic
import Workflow.Proofs.Timeline

/-!
# Cancelled runs

A cancelled run is compared with the run that nobody cancels.  Up to the moment of the cancellation
both deliver the same notifications at the same times; the next notification that is due gives way
to that of the cancellation, which is the last.

* `IsNth` says which notification of a timeline is the one during which a run is cancelled.
* `Cancellation.Spares` says whether a notification begins no later than the moment of a
  cancellation; it speaks of the timeline of the run that nobody cancels, and of nothing else.
* `Cancellation.reach` counts the notifications that a run delivers before it sees its
  cancellation; `Cancellation.lt_reach_iff_spares` says that these are the notifications spared.
* `Setup.events_run_eq_take` is the law of cancellation.
-/

namespace Workflow

/-! ## The moment of a cancellation -/

/-- Whether a notification is of the kind that is asked for, if one is. -/
def EventKind.admits (kind : Option EventKind) (x : Timed) : Bool :=
  kind = none ∨ kind = some x.event.kind

/-- Whether number `m` of some notifications is the one of a kind with which there are `count` of
that kind. -/
def IsNth (kind : Option EventKind) (count : Nat) (E : List Timed) (m : Nat) : Prop :=
  ∃ x, E[m]? = some x ∧ EventKind.admits kind x ∧
    (E.take (m + 1)).countP (EventKind.admits kind) = count

/-- Whether number `i` of the notifications of a timeline begins no later than the moment of a
cancellation: that is always so if there is no such moment and never if it is before the run, and
otherwise the moment lies within the delivery of a notification or is given by the clock. -/
def Cancellation.Spares (c : Cancellation) (E : List Timed) (i : Nat) : Prop :=
  match c with
  | .never => True
  | .before => False
  | .during kind count => ∀ m, IsNth kind count E m → i ≤ m
  | .at moment => ∀ x, E[i]? = some x → x.time ≤ moment

/-- If there are enough of a kind, there is a first place at which there are. -/
theorem exists_isNth_of_le_countP (kind : Option EventKind) {count : Nat} (hcount : 0 < count)
    (E : List Timed) : ∀ i, count ≤ (E.take i).countP (EventKind.admits kind) →
      ∃ m < i, IsNth kind count E m := by
  intro i
  induction i with
  | zero =>
      intro h
      rw [List.take_zero, List.countP_nil] at h
      omega
  | succ i ih =>
      intro h
      by_cases hle : count ≤ (E.take i).countP (EventKind.admits kind)
      · obtain ⟨m, hm, hnth⟩ := ih hle
        exact ⟨m, Nat.lt_succ_of_lt hm, hnth⟩
      · -- the count is reached at the last place, so the notification there is counted
        have hsplit := h
        rw [List.take_add_one, List.countP_append] at hsplit
        cases hx : E[i]? with
        | none =>
            rw [hx, Option.toList_none, List.countP_nil] at hsplit
            omega
        | some x =>
            rw [hx, Option.toList_some, List.countP_singleton] at hsplit
            split at hsplit
            · next hadmits =>
                refine ⟨i, Nat.lt_succ_self i, x, hx, hadmits, ?_⟩
                rw [List.take_add_one, List.countP_append, hx, Option.toList_some,
                  List.countP_singleton, if_pos hadmits]
                omega
            · omega

/-- A run is cancelled during a notification just if the notification is among those delivered. -/
theorem lt_or_eq_zero_iff_forall_isNth (kind : Option EventKind) (count : Nat) (E : List Timed)
    (i : Nat) : (count = 0 ∨ (E.take i).countP (EventKind.admits kind) < count) ↔
      ∀ m, IsNth kind count E m → i ≤ m := by
  constructor
  · rintro h m ⟨x, hx, hadmits, hcount⟩
    by_contra hlt
    have hprefix : (E.take (m + 1)).Sublist (E.take i) :=
      (List.take_prefix_take_left (by omega)).sublist
    have hle := hprefix.countP_le (p := EventKind.admits kind)
    have hpos : 0 < (E.take (m + 1)).countP (EventKind.admits kind) := by
      refine List.countP_pos_iff.2 ⟨x, ?_, hadmits⟩
      rw [List.take_add_one, hx]
      exact List.mem_append_right _ (List.mem_singleton_self x)
    omega
  · intro h
    by_contra hnot
    have hcount : 0 < count := by omega
    obtain ⟨m, hm, hnth⟩ := exists_isNth_of_le_countP kind hcount E i (by omega)
    exact absurd (h m hnth) (by omega)

/-! ## How far a cancelled run comes -/

namespace Cancellation

/-- How many notifications of a timeline a run delivers that has delivered some already. -/
def reach (c : Cancellation) (delivered : List Event) : List Timed → Nat
  | [] => 0
  | x :: rest =>
    if c.hasHappened delivered x.time then 0 else reach c (x.event :: delivered) rest + 1

theorem reach_le_length (c : Cancellation) : ∀ (E : List Timed) (delivered : List Event),
    c.reach delivered E ≤ E.length := by
  intro E
  induction E with
  | nil => intro _; exact Nat.le_refl _
  | cons x rest ih =>
      intro delivered
      rw [reach, List.length_cons]
      split
      · exact Nat.zero_le _
      · exact Nat.succ_le_succ (ih _)

/-- A cancellation that has happened has happened for good. -/
theorem hasHappened_mono (c : Cancellation) {delivered later : List Event} {time time' : Nat}
    (hlater : delivered.Sublist later) (htime : time ≤ time')
    (h : c.hasHappened delivered time = true) : c.hasHappened later time' = true := by
  cases c with
  | never => exact h
  | before => rfl
  | during kind count =>
      have hle := (hlater.filter fun e => kind.all (· == e.kind)).length_le
      simp only [hasHappened, Bool.and_eq_true, decide_eq_true_eq] at h ⊢
      exact ⟨h.1, Nat.le_trans h.2 hle⟩
  | «at» moment =>
      simp only [hasHappened, decide_eq_true_eq] at h ⊢
      exact Nat.lt_of_lt_of_le h htime

/-- A notification is delivered just if the cancellation has not happened when it is due. -/
theorem lt_reach_iff (c : Cancellation) : ∀ (E : List Timed) (delivered : List Event) (i : Nat),
    E.Pairwise (fun x y => x.time ≤ y.time) →
      (i < c.reach delivered E ↔ ∃ x, E[i]? = some x ∧
        c.hasHappened (((E.take i).map Timed.event).reverse ++ delivered) x.time = false) := by
  intro E
  induction E with
  | nil => intro delivered i _; simp [reach]
  | cons x rest ih =>
      intro delivered i hsorted
      obtain ⟨hfirst, hrest⟩ := List.pairwise_cons.1 hsorted
      rw [reach]
      cases h : c.hasHappened delivered x.time with
      | true =>
          rw [if_pos rfl]
          refine ⟨fun hi => absurd hi (Nat.not_lt_zero i), ?_⟩
          rintro ⟨y, hy, hnot⟩
          have hle : x.time ≤ y.time := by
            rcases List.mem_cons.1 (List.mem_of_getElem? hy) with rfl | hmem
            · exact Nat.le_refl _
            · exact hfirst y hmem
          rw [c.hasHappened_mono (List.sublist_append_right _ _) hle h] at hnot
          exact absurd hnot (by simp)
      | false =>
          rw [if_neg Bool.false_ne_true]
          cases i with
          | zero => exact ⟨fun _ => ⟨x, rfl, h⟩, fun _ => Nat.succ_pos _⟩
          | succ i =>
              rw [Nat.add_lt_add_iff_right, ih (x.event :: delivered) i hrest]
              simp only [List.getElem?_cons_succ, List.take_succ_cons, List.map_cons,
                List.reverse_cons, List.append_assoc, List.singleton_append]

/-- What has been delivered counts as it does in the timeline. -/
theorem length_filter_reverse_map_event (kind : Option EventKind) (E : List Timed) :
    (((E.map Timed.event).reverse).filter fun e => kind.all (· == e.kind)).length =
      E.countP (EventKind.admits kind) := by
  rw [List.filter_reverse, List.length_reverse, ← List.countP_eq_length_filter, List.countP_map]
  refine List.countP_congr fun x _ => ?_
  cases kind with
  | none => simp [EventKind.admits]
  | some k => simp [EventKind.admits]

/-- The moment of a cancellation is before a notification just if the notification is not spared. -/
theorem hasHappened_eq_false_iff (c : Cancellation) (E : List Timed) {i : Nat} {x : Timed}
    (hx : E[i]? = some x) :
    c.hasHappened (((E.take i).map Timed.event).reverse) x.time = false ↔ c.Spares E i := by
  cases c with
  | never => exact ⟨fun _ => trivial, fun _ => rfl⟩
  | before => exact ⟨fun h => absurd h (by simp [hasHappened]), fun h => h.elim⟩
  | during kind count =>
      rw [Spares, ← lt_or_eq_zero_iff_forall_isNth, hasHappened]
      simp only [length_filter_reverse_map_event, Bool.and_eq_false_iff, decide_eq_false_iff_not]
      omega
  | «at» moment =>
      simp only [hasHappened, Spares, hx, decide_eq_false_iff_not, Option.some.injEq, Nat.not_lt]
      exact ⟨fun h y hy => hy ▸ h, fun h => h x rfl⟩

/-- **The notifications that a cancelled run delivers** are those spared by its cancellation. -/
theorem lt_reach_iff_spares (c : Cancellation) {E : List Timed}
    (hsorted : E.Pairwise fun x y => x.time ≤ y.time) {i : Nat} (hi : i < E.length) :
    i < c.reach [] E ↔ c.Spares E i := by
  have hx : E[i]? = some E[i] := List.getElem?_eq_getElem hi
  rw [c.lt_reach_iff E [] i hsorted, List.append_nil, ← c.hasHappened_eq_false_iff E hx]
  constructor
  · rintro ⟨x, hx', h⟩
    rw [hx, Option.some.injEq] at hx'
    rwa [hx']
  · intro h
    exact ⟨E[i], hx, h⟩

end Cancellation

/-- A cancelled run delivers the front of its timeline, and if something of it is left, the
notification of the cancellation at the time of what would have been next. -/
theorem executeFrom_eq (c : Cancellation) : ∀ (actions : List Action) (delivered : List Event)
    (time : Nat), executeFrom c delivered time actions =
      match (timeline time actions)[c.reach delivered (timeline time actions)]? with
      | none => ⟨timeline time actions, .completed, time + duration actions⟩
      | some next =>
        ⟨(timeline time actions).take (c.reach delivered (timeline time actions)) ++
          [⟨next.time, .cancelled⟩], .cancelled, next.time⟩ := by
  intro actions
  induction actions with
  | nil => intro _ _; rfl
  | cons a rest ih =>
      intro delivered time
      cases a with
      | pause ms =>
          rw [executeFrom, ih]
          simp only [timeline, duration, Nat.add_assoc]
      | notify e =>
          rw [executeFrom, ih, timeline, Cancellation.reach]
          by_cases h : c.hasHappened delivered time
          · simp only [h, if_true, List.getElem?_cons_zero, List.take_zero, List.nil_append]
          · simp only [h, if_false, List.getElem?_cons_succ, List.take_succ_cons, duration,
              Bool.false_eq_true]
            split <;> rfl

namespace Setup

/-- The completion is among the first notifications of a run just if these are all of them. -/
theorem complete_mem_take_iff (r : Setup) {k : Nat} (hk : k ≤ (timeline 0 r.plan).length) :
    .complete ∈ ((timeline 0 r.plan).take k).map Timed.event ↔ k = (timeline 0 r.plan).length := by
  obtain ⟨front, hfront, hcomplete, -⟩ := r.notifications_plan_eq_append_complete
  have hevents : (timeline 0 r.plan).map Timed.event = front ++ [.complete] := by
    rw [map_event_timeline, hfront]
  have hlength : (timeline 0 r.plan).length = front.length + 1 := by
    rw [← List.length_map (f := Timed.event), hevents, List.length_append, List.length_singleton]
  rw [List.map_take, hevents]
  constructor
  · intro hmem
    by_contra hne
    rw [List.take_append_of_le_length (by omega)] at hmem
    exact hcomplete (List.mem_of_mem_take hmem)
  · rintro rfl
    rw [hlength, ← List.length_singleton (a := Event.complete), ← List.length_append,
      List.take_length]
    exact List.mem_append_right _ (List.mem_singleton_self _)

theorem cancelled_not_mem_timeline (r : Setup) :
    .cancelled ∉ (timeline 0 r.plan).map Timed.event := by
  obtain ⟨front, hfront, -, hcancelled⟩ := r.notifications_plan_eq_append_complete
  rw [map_event_timeline, hfront, List.mem_append]
  rintro (h | h)
  · exact hcancelled h
  · exact absurd h (by simp)

/-- A run that comes to the end of its timeline before it is cancelled is complete. -/
theorem run_of_reach_eq_length {r : Setup} {c : Cancellation}
    (h : c.reach [] (timeline 0 r.plan) = (timeline 0 r.plan).length) :
    r.run c = ⟨timeline 0 r.plan, .completed, duration r.plan⟩ := by
  rw [run, execute, executeFrom_eq, List.getElem?_eq_none (Nat.le_of_eq h.symm), Nat.zero_add]

/-- A run that is cancelled on the way delivers the front of its timeline and the cancellation. -/
theorem run_of_reach_lt_length {r : Setup} {c : Cancellation}
    (h : c.reach [] (timeline 0 r.plan) < (timeline 0 r.plan).length) :
    ∃ next, (timeline 0 r.plan)[c.reach [] (timeline 0 r.plan)]? = some next ∧
      r.run c =
        ⟨(timeline 0 r.plan).take (c.reach [] (timeline 0 r.plan)) ++ [⟨next.time, .cancelled⟩],
          .cancelled, next.time⟩ := by
  refine ⟨_, List.getElem?_eq_getElem h, ?_⟩
  rw [run, execute, executeFrom_eq, List.getElem?_eq_getElem h]

/-- What a run delivers, but for the notification of its cancellation, stands in the front of its
timeline. -/
theorem getElem?_take_of_event_ne_cancelled {r : Setup} {c : Cancellation} {i : Nat} {x : Timed}
    (hx : (r.run c).events[i]? = some x) (hevent : x.event ≠ .cancelled) :
    ((timeline 0 r.plan).take (c.reach [] (timeline 0 r.plan)))[i]? = some x := by
  rcases Nat.lt_or_eq_of_le (c.reach_le_length (timeline 0 r.plan) []) with hlt | hall
  · obtain ⟨next, -, hrun⟩ := run_of_reach_lt_length hlt
    rw [hrun, List.getElem?_append] at hx
    split at hx
    · exact hx
    · rw [List.mem_singleton.1 (List.mem_of_getElem? hx)] at hevent
      exact absurd rfl hevent
  · rw [run_of_reach_eq_length hall] at hx
    rw [hall, List.take_length]
    exact hx

/-- **The law of cancellation.**  Let `E` be what the run delivers that nobody cancels.  Some number
of notifications at the front of `E` are spared by the cancellation, and those the cancelled run
delivers.  If the completion is one of them the run is complete and no cancellation is notified.
Otherwise the run is cancelled, and the notification of that is the last, at the time at which the
next notification of `E` was due.  Whatever else is delivered is a notification of `E`, at its place
in `E`, that the cancellation spares. -/
theorem events_run_eq_take (r : Setup) (c : Cancellation) :
    let E := (r.run .never).events
    ∃ k ≤ E.length, (∀ i < E.length, i < k ↔ c.Spares E i) ∧
      (.complete ∈ (E.take k).map Timed.event →
        (r.run c).events = E.take k ∧ (r.run c).outcome = .completed ∧
          .cancelled ∉ (r.run c).events.map Timed.event) ∧
      (.complete ∉ (E.take k).map Timed.event →
        ∃ next, E[k]? = some next ∧
          (r.run c).events = E.take k ++ [⟨next.time, .cancelled⟩] ∧
          (r.run c).outcome = .cancelled) ∧
      ∀ i x, (r.run c).events[i]? = some x → x.event ≠ .cancelled →
        E[i]? = some x ∧ c.Spares E i := by
  rw [run_never]
  intro E
  have hk : c.reach [] E ≤ E.length := c.reach_le_length E []
  have hspares : ∀ i < E.length, i < c.reach [] E ↔ c.Spares E i := fun i hi =>
    c.lt_reach_iff_spares (pairwise_timeline r.plan 0) hi
  have hcomplete := r.complete_mem_take_iff hk
  refine ⟨c.reach [] E, hk, hspares, ?_, ?_, ?_⟩
  · intro hmem
    have hall := hcomplete.1 hmem
    rw [run_of_reach_eq_length hall, hall]
    exact ⟨List.take_length.symm, rfl, r.cancelled_not_mem_timeline⟩
  · intro hnot
    have hlt : c.reach [] E < E.length := Nat.lt_of_le_of_ne hk fun h => hnot (hcomplete.2 h)
    obtain ⟨next, hnext, hrun⟩ := run_of_reach_lt_length hlt
    rw [hrun]
    exact ⟨next, hnext, rfl, rfl⟩
  · intro i x hx hevent
    have hfront := getElem?_take_of_event_ne_cancelled hx hevent
    obtain ⟨hi, -⟩ := List.getElem?_eq_some_iff.1 hfront
    rw [List.length_take, Nat.min_eq_left hk] at hi
    rw [List.getElem?_take_of_lt hi] at hfront
    exact ⟨hfront, (hspares i (Nat.lt_of_lt_of_le hi hk)).1 hi⟩

end Setup
end Workflow
