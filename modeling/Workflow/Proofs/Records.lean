import Workflow.Json.Record
import Workflow.Proofs.JsonText

/-!
# Records are read back

A record is written as an object that gives each of its fields under the first of its names, if it
has a value.  As long as no two fields share a name, every field is found again.

* `Json.written` are the members that are written for the fields of a record.
* `Json.slots?_eq_some` finds the values of the fields again.
* `Json.optional_map`, `Json.list?_map` and `Json.float?_ofFloat` read them.
* `Json.isUsableAt_written` says that nothing in what is written is unusable.
-/

namespace Workflow

/-- A list is read if each of its items is. -/
theorem mapM_map_eq_some {α β γ : Type} {read : β → Option γ} {write : α → β} {value : α → γ}
    {l : List α} (h : ∀ a ∈ l, read (write a) = some (value a)) :
    (l.map write).mapM read = some (l.map value) := by
  induction l with
  | nil => rfl
  | cons a rest ih =>
    rw [List.forall_mem_cons] at h
    rw [List.map_cons, List.mapM_cons, h.1, ih h.2]
    rfl

theorem exists_eq_some_of_mem_mapM {α β : Type} {read : α → Option β} {l : List α} {bs : List β}
    (h : l.mapM read = some bs) : ∀ b ∈ bs, ∃ a ∈ l, read a = some b := by
  induction l generalizing bs with
  | nil =>
    cases h
    simp
  | cons a rest ih =>
    rw [List.mapM_cons] at h
    simp only [bind, pure, Option.bind_eq_some_iff, Option.some.injEq] at h
    obtain ⟨b, hb, bs', hbs', rfl⟩ := h
    rw [List.forall_mem_cons]
    refine ⟨⟨a, List.mem_cons_self, hb⟩, fun b' hb' => ?_⟩
    obtain ⟨a', ha', hread⟩ := ih hbs' b' hb'
    exact ⟨a', List.mem_cons_of_mem _ ha', hread⟩

namespace Json

/-! ## Fields -/

/-- The members that are written for the fields of a record. -/
def written (slots : List (FieldNames × Option Json)) : List (String × Json) :=
  slots.flatMap fun (names, item?) => item?.toList.map (names.headD "", ·)

section Slots

variable {slots : List (FieldNames × Option Json)}

theorem written_cons (names : FieldNames) (item? : Option Json) :
    written ((names, item?) :: slots) = item?.toList.map (names.headD "", ·) ++ written slots :=
  List.flatMap_cons

theorem headD_mem {names : FieldNames} (h : names ≠ []) : names.headD "" ∈ names := by
  obtain ⟨name, rest, rfl⟩ := List.exists_cons_of_ne_nil h
  exact List.mem_cons_self

/-- Members are written under names of their fields. -/
theorem exists_of_mem_written (hne : [] ∉ slots.map Prod.fst) {m : String × Json}
    (h : m ∈ written slots) : ∃ slot ∈ slots, m.1 ∈ slot.1 ∧ slot.2 = some m.2 := by
  obtain ⟨slot, hslot, hm⟩ := List.mem_flatMap.1 h
  obtain ⟨item, hitem, rfl⟩ := List.mem_map.1 hm
  exact ⟨slot, hslot, headD_mem fun hnil => hne (List.mem_map.2 ⟨slot, hslot, hnil⟩),
    Option.mem_toList.1 hitem⟩

/-- What is written for a field is all that is written under its names. -/
theorem filter_written (hnodup : (slots.map Prod.fst).flatten.Nodup)
    (hne : [] ∉ slots.map Prod.fst) : ∀ slot ∈ slots,
      (written slots).filter (slot.1.contains ·.1) =
        slot.2.toList.map (slot.1.headD "", ·) := by
  induction slots with
  | nil => simp
  | cons first rest ih =>
    obtain ⟨names, item?⟩ := first
    rw [List.map_cons, List.flatten_cons, List.nodup_append] at hnodup
    rw [List.map_cons, List.mem_cons, not_or] at hne
    obtain ⟨-, hrest, hapart⟩ := hnodup
    have hhead : names.headD "" ∈ names := headD_mem (Ne.symm hne.1)
    rw [written_cons, List.forall_mem_cons]
    constructor
    · have hfirst : (item?.toList.map (names.headD "", ·)).filter (names.contains ·.1) =
          item?.toList.map (names.headD "", ·) := by
        rw [List.filter_eq_self]
        rintro m hm
        obtain ⟨item, -, rfl⟩ := List.mem_map.1 hm
        simpa using hhead
      have hothers : (written rest).filter (names.contains ·.1) = [] := by
        rw [List.filter_eq_nil_iff]
        intro m hm hmem
        obtain ⟨slot, hslot, hname, -⟩ := exists_of_mem_written hne.2 hm
        have hflatten : m.1 ∈ (rest.map Prod.fst).flatten :=
          List.mem_flatten.2 ⟨slot.1, List.mem_map_of_mem hslot, hname⟩
        exact hapart _ (by simpa using hmem) _ hflatten rfl
      rw [List.filter_append, hfirst, hothers, List.append_nil]
    · intro slot hslot
      have hfirst : (item?.toList.map (names.headD "", ·)).filter (slot.1.contains ·.1) = [] := by
        rw [List.filter_eq_nil_iff]
        intro m hm hmem
        obtain ⟨item, -, rfl⟩ := List.mem_map.1 hm
        have hflatten : names.headD "" ∈ (rest.map Prod.fst).flatten :=
          List.mem_flatten.2 ⟨slot.1, List.mem_map_of_mem hslot, by simpa using hmem⟩
        exact hapart _ hhead _ hflatten rfl
      rw [List.filter_append, hfirst, List.nil_append, ih hrest hne.2 slot hslot]

/-- Every field is found again in what is written. -/
theorem slots?_written (hnodup : (slots.map Prod.fst).flatten.Nodup)
    (hne : [] ∉ slots.map Prod.fst) :
    slots? (slots.map Prod.fst) (.object (written slots)) = some (slots.map Prod.snd) := by
  rw [slots?]
  refine mapM_map_eq_some fun slot hslot => ?_
  rw [slot?, filter_written hnodup hne slot hslot]
  cases slot.2 <;> rfl

end Slots

section Record

variable {j : Json} {fields : List FieldNames} {items : List (Option Json)}

/-- The values of the fields of a record are found again in what is written for them. -/
theorem slots?_eq_some (hj : j = .object (written (fields.zip items)))
    (hlength : items.length = fields.length) (hnodup : fields.flatten.Nodup) (hne : [] ∉ fields) :
    slots? fields j = some items := by
  have hfst : (fields.zip items).map Prod.fst = fields := List.map_fst_zip hlength.ge
  have hsnd : (fields.zip items).map Prod.snd = items := List.map_snd_zip hlength.le
  have hslots := slots?_written (hfst.symm ▸ hnodup) (hfst.symm ▸ hne)
  rwa [hfst, hsnd, ← hj] at hslots

/-- What is written for usable values is usable, one level deeper. -/
theorem isUsableAt_written {depth : Nat} (hj : j = .object (written (fields.zip items)))
    (h : ∀ item? ∈ items, ∀ item ∈ item?, item.isUsableAt depth = true) :
    j.isUsableAt (depth + 1) = true := by
  rw [hj, isUsableAt, Bool.and_eq_true, areUsableMembers_iff]
  refine ⟨decide_eq_true (Nat.succ_pos _), fun m hm => ?_⟩
  obtain ⟨slot, hslot, hm⟩ := List.mem_flatMap.1 hm
  obtain ⟨item, hitem, rfl⟩ := List.mem_map.1 hm
  exact h slot.2 (List.of_mem_zip hslot).2 item (Option.mem_toList.1 hitem)

end Record

theorem optionalMember_eq {α : Type} (name : String) (encode : α → Json) (a? : Option α) :
    optionalMember name encode a? = (a?.map encode).toList.map (name, ·) := by
  cases a? <;> rfl

/-! ## What stands in a field -/

/-- A field that may be missing is read back, whether it is or not. -/
theorem optional_map {α : Type} {read : Json → Option α} {encode : α → Json} {a? : Option α}
    (h : ∀ a ∈ a?, encode a ≠ .null ∧ read (encode a) = some a) :
    optional read (a?.map encode) = some a? := by
  cases a? with
  | none => rfl
  | some a =>
    obtain ⟨hnull, hread⟩ := h a rfl
    rw [Option.map_some, optional, hread]
    · rfl
    · exact fun hj => hnull hj

theorem optional_string (s? : Option String) :
    optional string? (s?.map .string) = some s? :=
  optional_map fun _ _ => ⟨nofun, rfl⟩

theorem ofFloat_eq {x : Float} (hx : x.isFinite = true) : ofFloat x = .number (.float x hx) := by
  rw [ofFloat, JsonNumber.ofFloat?, dif_pos hx]
  rfl

theorem isUsableAt_ofFloat (x : Float) (depth : Nat) : (ofFloat x).isUsableAt depth = true := by
  rw [ofFloat]
  cases JsonNumber.ofFloat? x <;> rfl

theorem float?_ofFloat {x : Float} (hx : x.isFinite = true) : float? (ofFloat x) = some x := by
  rw [ofFloat_eq hx]
  rfl

theorem optional_float {x? : Option Float} (h : ∀ x ∈ x?, x.isFinite = true) :
    optional float? (x?.map ofFloat) = some x? := by
  refine optional_map fun x hx => ⟨?_, float?_ofFloat (h x hx)⟩
  rw [ofFloat_eq (h x hx)]
  nofun

theorem list?_map {α : Type} {read : Json → Option α} {encode : α → Json} {l : List α}
    (h : ∀ a ∈ l, read (encode a) = some a) : list? read (.array (l.map encode)) = some l := by
  have hread : (l.map encode).mapM read = some (l.map id) := mapM_map_eq_some h
  rw [list?, hread, List.map_id]

/-! ## What has been read -/

/-- Whatever number is read, it is finite. -/
theorem isFinite_of_float? {j : Json} {x : Float} (h : float? j = some x) : x.isFinite = true := by
  cases j with
  | number n =>
    cases h
    exact n.isFinite_toFloat
  | _ => cases h

theorem exists_of_optional {α : Type} {read : Json → Option α} {slot : Option Json} {a? : Option α}
    (h : optional read slot = some a?) : ∀ a ∈ a?, ∃ j, read j = some a := by
  unfold optional at h
  split at h
  · cases h
    simp
  · cases h
    simp
  · next j _ =>
    obtain ⟨a, ha, rfl⟩ := Option.map_eq_some_iff.1 h
    rintro a' ⟨⟩
    exact ⟨j, ha⟩

theorem eq_or_exists_of_defaulted {α : Type} {default : α} {read : Json → Option α}
    {slot : Option Json} {a : α} (h : defaulted default read slot = some a) :
    a = default ∨ ∃ j, read j = some a := by
  cases slot with
  | none =>
    cases h
    exact .inl rfl
  | some j => exact .inr ⟨j, h⟩

theorem exists_of_list? {α : Type} {read : Json → Option α} {j : Json} {l : List α}
    (h : list? read j = some l) : ∀ a ∈ l, ∃ j, read j = some a := by
  cases j with
  | array items =>
    intro a ha
    obtain ⟨item, -, hread⟩ := exists_eq_some_of_mem_mapM h a ha
    exact ⟨item, hread⟩
  | _ => cases h

end Json
end Workflow
