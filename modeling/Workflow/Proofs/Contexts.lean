import Workflow.Condition
import Workflow.Proofs.JsonText
import Workflow.Proofs.OrderedMaps

/-!
# Contexts, their histories and their texts

What a context holds after any operations, as a list of members with distinct names and scalar
values; and that the text of a context says all of it.

* `Context.members` is what a context holds.
* `Context.Operation` is what can be done to a context, `Context.perform` does it, and
  `Context.after` is the context after a history, in which failures change nothing.
* `Context.Operation.given?` is what an operation comes with, `Context.Operation.outcome` what it
  makes of the members that are there.
* `Context.Stores` is the answer to storing some members: the first array or object among them is
  named, or else they are stored.
* `Context.after_keeps_scalars` is the law of contexts.
* `Context.ofJson?_toJson` makes a context of its members again, and
  `Context.parse_text_substitute_eq` reads it from its text.
-/

namespace Workflow

/-! ## Scalars -/

/-- Whether a value is an array or an object. -/
def Json.isCompound : Json → Bool
  | .array _ | .object _ => true
  | _ => false

namespace Scalar

theorem ofJson?_eq_some_iff {j : Json} {s : Scalar} : ofJson? j = some s ↔ j = s.toJson := by
  cases j <;> cases s <;> simp [ofJson?, toJson]

theorem ofJson?_toJson (s : Scalar) : ofJson? s.toJson = some s :=
  ofJson?_eq_some_iff.2 rfl

theorem toJson_injective : Function.Injective toJson := fun _ _ h =>
  Option.some.inj ((ofJson?_toJson _).symm.trans (ofJson?_eq_some_iff.2 h))

theorem ofJson?_eq_none_iff {j : Json} (h : j ≠ .unusable) :
    ofJson? j = none ↔ j.isCompound = true := by
  cases j <;> simp [ofJson?, Json.isCompound] at h ⊢

theorem isCompound_toJson (s : Scalar) : s.toJson.isCompound = false := by
  cases s <;> rfl

theorem isUsableAt_toJson (s : Scalar) (depth : Nat) : s.toJson.isUsableAt depth = true := by
  cases s <;> rw [toJson, Json.isUsableAt]

end Scalar

/-- A value that can be taken holds no unusable member. -/
theorem Json.ne_unusable_of_mem {depth : Nat} {members : List (String × Json)}
    (h : (Json.object members).isUsableAt depth = true) : ∀ m ∈ members, m.2 ≠ .unusable := by
  rw [isUsableAt, Bool.and_eq_true, areUsableMembers_iff] at h
  intro m hm hunusable
  cases hunusable ▸ h.2 m hm

namespace Context

/-! ## Members -/

/-- What a context holds, as the members of an object. -/
def members (c : Context) : List (String × Json) :=
  c.entries.map fun (name, s) => (name, s.toJson)

theorem members_empty : members .empty = [] :=
  rfl

theorem map_fst_members (c : Context) : c.members.map Prod.fst = c.keys := by
  rw [members, List.map_map]
  rfl

theorem isCompound_of_mem_members {c : Context} {m : String × Json} (h : m ∈ c.members) :
    m.2.isCompound = false := by
  obtain ⟨e, -, rfl⟩ := List.mem_map.1 h
  exact e.2.isCompound_toJson

/-- A context is no more than its members. -/
theorem members_injective : Function.Injective members := by
  intro c c' h
  have hentries : c.entries = c'.entries := by
    refine List.map_injective_iff.2 ?_ h
    rintro ⟨name, s⟩ ⟨name', s'⟩ hmember
    obtain ⟨rfl, hs⟩ := Prod.mk.inj hmember
    rw [Scalar.toJson_injective hs]
  cases c
  cases c'
  congr

/-- Members of which each name stands once: at the first of its places, with the last of its
values. -/
def distinctMembers (members : List (String × Json)) : List (String × Json) :=
  (members.map Prod.fst).eraseDups.filterMap fun name =>
    (members.reverse.lookup name).map (name, ·)

/-- Members of which one is set: where it stands if it is there, else at the end. -/
def setMember (name : String) (j : Json) (members : List (String × Json)) :
    List (String × Json) :=
  if name ∈ members.map Prod.fst then
    members.map fun m => if m.1 = name then (name, j) else m
  else members ++ [(name, j)]

theorem members_insert (c : Context) (name : String) (s : Scalar) :
    members (c.insert name s) = setMember name s.toJson c.members := by
  rw [members, OrderedMap.entries_insert, setMember, map_fst_members]
  split
  · rw [members, List.map_map, List.map_map]
    refine List.map_congr_left fun e _ => ?_
    simp only [Function.comp_apply]
    split <;> rfl
  · rw [List.map_append]
    rfl

/-! ## Storing members -/

/-- The answer to storing some members: it names the first of them that is an array or an object;
without one, it is a context with the members that result. -/
def Stores (given result : List (String × Json)) (answer : Except ContextError Context) : Prop :=
  match given.find? (·.2.isCompound) with
  | some m => answer = .error (.nonScalar m.1)
  | none => ∃ c, answer = .ok c ∧ c.members = result

section Stores

variable {given result : List (String × Json)} {answer : Except ContextError Context}

theorem Stores.eq_ok_iff (h : Stores given result answer) {c : Context} :
    answer = .ok c ↔ (∀ m ∈ given, m.2.isCompound = false) ∧ c.members = result := by
  rw [Stores] at h
  cases hfind : given.find? (·.2.isCompound) with
  | some m =>
    rw [hfind] at h
    have hm := List.find?_some hfind
    simp only [h, reduceCtorEq, false_iff, not_and]
    exact fun hall => absurd (hall m (List.mem_of_find?_eq_some hfind)) (by simpa using hm)
  | none =>
    rw [hfind] at h
    obtain ⟨c', rfl, rfl⟩ := h
    have hall : ∀ m ∈ given, m.2.isCompound = false := by simpa using List.find?_eq_none.1 hfind
    rw [members_injective.eq_iff, Except.ok.injEq, eq_comm, and_iff_right hall]

theorem Stores.eq_nonScalar_iff (h : Stores given result answer) {name : String} :
    answer = .error (.nonScalar name) ↔
      (given.find? (·.2.isCompound)).map Prod.fst = some name := by
  rw [Stores] at h
  cases hfind : given.find? (·.2.isCompound) with
  | some m =>
    rw [hfind] at h
    simp [h]
  | none =>
    rw [hfind] at h
    obtain ⟨c', rfl, -⟩ := h
    simp

end Stores

variable {c : Context}

theorem stores_insert? {name : String} {j : Json} (h : j ≠ .unusable) :
    Stores [(name, j)] (setMember name j c.members) (c.insert? name j) := by
  rw [Stores, List.find?_singleton, insert?]
  cases hs : Scalar.ofJson? j with
  | none =>
    rw [(Scalar.ofJson?_eq_none_iff h).1 hs]
    rfl
  | some s =>
    obtain rfl := Scalar.ofJson?_eq_some_iff.1 hs
    rw [s.isCompound_toJson]
    exact ⟨_, rfl, c.members_insert name s⟩

/-- Variables with names of their own are set one behind the other. -/
theorem stores_insertAll? {l : List (String × Json)} (hl : ∀ m ∈ l, m.2 ≠ .unusable)
    (h : ((c.members ++ l).map Prod.fst).Nodup) :
    Stores l (c.members ++ l) (c.insertAll? l) := by
  induction l generalizing c with
  | nil => exact ⟨c, rfl, (List.append_nil _).symm⟩
  | cons m rest ih =>
    obtain ⟨name, j⟩ := m
    rw [List.forall_mem_cons] at hl
    have hinsert : Stores [(name, j)] (setMember name j c.members) (c.insert? name j) :=
      stores_insert? hl.1
    have hnew : name ∉ c.members.map Prod.fst := by
      rw [List.map_append, List.map_cons, List.nodup_append] at h
      exact fun hmem => h.2.2 name hmem name List.mem_cons_self rfl
    rw [setMember, if_neg hnew] at hinsert
    rw [Stores, List.find?_singleton] at hinsert
    rw [Stores, List.find?_cons, insertAll?]
    cases hj : j.isCompound with
    | true =>
      rw [hj] at hinsert
      rw [hinsert]
      rfl
    | false =>
      rw [hj] at hinsert
      obtain ⟨c', hc', hmembers⟩ := hinsert
      have happend : c.members ++ (name, j) :: rest = c'.members ++ rest := by
        rw [hmembers, List.append_assoc]
        rfl
      rw [hc', happend]
      exact ih hl.2 (happend ▸ h)

/-! ## Whole contexts -/

/-- The members that a value gives for a context, if it is an object. -/
def membersOf? : Json → Option (List (String × Json))
  | .object members => some (distinctMembers members)
  | _ => none

theorem stores_ofJson? {depth : Nat} {j : Json} (hj : j.isUsableAt depth = true)
    {given : List (String × Json)} (h : membersOf? j = some given) :
    Stores given given (ofJson? j) := by
  cases j with
  | object members =>
    cases h
    have hentries : (OrderedMap.ofList members).entries = distinctMembers members :=
      OrderedMap.entries_ofList members
    rw [ofJson?, ofMembers?, hentries]
    refine stores_insertAll? (c := .empty) (fun m hm => ?_) ?_
    · exact Json.ne_unusable_of_mem hj m (OrderedMap.mem_of_mem_entries_ofList (hentries ▸ hm))
    · rw [members_empty, List.nil_append, ← hentries]
      exact (OrderedMap.ofList members).nodup
  | _ => cases h

theorem ofJson?_eq_notAnObject {j : Json} (h : membersOf? j = none) :
    ofJson? j = .error .notAnObject := by
  cases j with
  | object members => cases h
  | _ => rfl

/-! ## Operations -/

/-- What is done to a context.  The values that come with an operation are values, and nothing in
them is unusable. -/
inductive Operation where
  | new
  | demo
  /-- Reads a context from a text. -/
  | parse (source : String)
  /-- Makes a context of a value that has been read, however deep it is nested. -/
  | read (j : Json) (depth : Nat) (usable : j.isUsableAt depth = true)
  /-- Sets a variable, in the context itself or in a copy that takes its place. -/
  | insert (name : String) (j : Json) (usable : j ≠ .unusable)

/-- Carries out an operation. -/
def perform (c : Context) : Operation → Except ContextError Context
  | .new => .ok .empty
  | .demo => .ok demo
  | .parse source => parse source
  | .read j _ _ => ofJson? j
  | .insert name j _ => c.insert? name j

/-- The context after the operations of a history.  An operation that fails leaves it as it is. -/
def after (history : List Operation) : Context :=
  history.foldl (fun c o => (c.perform o).toOption.getD c) .empty

namespace Operation

/-- The members that an operation would store, in their order; none at all if it reads what is no
object. -/
def given? : Operation → Option (List (String × Json))
  | .new => some []
  | .demo => some [("value", .number (.natural 15)), ("count", .number (.natural 3)),
      ("x", .number (.natural 10))]
  | .parse source => ((Json.parse? source).filter Json.isUsable).bind membersOf?
  | .read j _ _ => membersOf? j
  | .insert name j _ => some [(name, j)]

/-- The members after an operation that comes with some members and stores them. -/
def outcome (given current : List (String × Json)) : Operation → List (String × Json)
  | .insert name j _ => setMember name j current
  | _ => given

/-- What the members become with an operation: its outcome, if it comes with members of which none
is an array or an object; else they stay. -/
def effect (o : Operation) (current : List (String × Json)) : List (String × Json) :=
  match o.given? with
  | some given => if given.any (·.2.isCompound) then current else o.outcome given current
  | none => current

end Operation

section Perform

variable {o : Operation}

theorem stores_perform {given : List (String × Json)} (h : o.given? = some given) :
    Stores given (o.outcome given c.members) (c.perform o) := by
  cases o with
  | new =>
    cases h
    exact ⟨.empty, rfl, rfl⟩
  | demo =>
    cases h
    exact ⟨demo, rfl, rfl⟩
  | parse source =>
    rw [perform, parse]
    obtain ⟨j, hj, hgiven⟩ := Option.bind_eq_some_iff.1 h
    rw [hj]
    exact stores_ofJson? (Option.filter_eq_some_iff.1 hj).2 hgiven
  | read j depth usable => exact stores_ofJson? usable h
  | insert name j usable =>
    cases h
    exact stores_insert? usable

/-- An operation that comes with no members fails, and names none. -/
theorem perform_of_given?_eq_none (h : o.given? = none) :
    ∃ fault, c.perform o = .error fault ∧ ∀ name, fault ≠ .nonScalar name := by
  cases o with
  | parse source =>
    rw [Operation.given?] at h
    rw [perform, parse]
    cases hj : (Json.parse? source).filter Json.isUsable with
    | none => exact ⟨_, rfl, nofun⟩
    | some j =>
      rw [hj] at h
      exact ⟨_, ofJson?_eq_notAnObject h, nofun⟩
  | read j depth usable => exact ⟨_, ofJson?_eq_notAnObject h, nofun⟩
  | _ => cases h

/-- An operation succeeds if it comes with members and none of them is an array or an object. -/
theorem perform_eq_ok_iff {c' : Context} :
    c.perform o = .ok c' ↔ ∃ given, o.given? = some given ∧
      (∀ m ∈ given, m.2.isCompound = false) ∧ c'.members = o.outcome given c.members := by
  cases hgiven : o.given? with
  | none =>
    obtain ⟨fault, hfault, -⟩ := perform_of_given?_eq_none (c := c) hgiven
    simp [hfault]
  | some given => simp [(stores_perform hgiven).eq_ok_iff]

/-- An operation names the first array or object that it comes with. -/
theorem perform_eq_nonScalar_iff {name : String} :
    c.perform o = .error (.nonScalar name) ↔ ∃ given, o.given? = some given ∧
      (given.find? (·.2.isCompound)).map Prod.fst = some name := by
  cases hgiven : o.given? with
  | none =>
    obtain ⟨fault, hfault, hname⟩ := perform_of_given?_eq_none (c := c) hgiven
    simp [hfault, hname]
  | some given => simp [(stores_perform hgiven).eq_nonScalar_iff]

/-- What one operation makes of the members. -/
theorem members_perform (c : Context) (o : Operation) :
    members ((c.perform o).toOption.getD c) = o.effect c.members := by
  rw [Operation.effect]
  cases hgiven : o.given? with
  | none =>
    obtain ⟨fault, hfault, -⟩ := perform_of_given?_eq_none (c := c) hgiven
    rw [hfault]
    rfl
  | some given =>
    have hstores := stores_perform (c := c) hgiven
    rw [Stores] at hstores
    simp only [← List.isSome_find?]
    split at hstores
    · next m hfind =>
      rw [hstores, hfind]
      rfl
    · next hfind =>
      obtain ⟨c', hc', hmembers⟩ := hstores
      rw [hc', hfind]
      exact hmembers

end Perform

/-! ## Histories -/

theorem after_concat (history : List Operation) (o : Operation) :
    after (history ++ [o]) = ((after history).perform o).toOption.getD (after history) := by
  rw [after, List.foldl_append]
  rfl

/-- The members after a history are what its operations make of none. -/
theorem members_after (history : List Operation) :
    (after history).members = history.foldl (fun current o => o.effect current) [] := by
  induction history using List.reverseRecOn with
  | nil => rfl
  | append_singleton history o ih =>
    rw [after_concat, members_perform, List.foldl_append, ih]
    rfl

theorem after_concat_of_error {history : List Operation} {o : Operation} {fault : ContextError}
    (h : (after history).perform o = .error fault) : after (history ++ [o]) = after history := by
  rw [after_concat, h]
  rfl

/-! ## Look-ups -/

/-- A variable counts as what its JSON value counts as. -/
theorem value?_eq (c : Context) (name : String) :
    c.value? name = ((c.members.lookup name).bind Scalar.ofJson?).map Scalar.toValue := by
  have hlookup : c.members.lookup name = (c.entries.lookup name).map Scalar.toJson := by
    rw [members]
    induction c.entries with
    | nil => rfl
    | cons e rest ih =>
      rw [List.map_cons, List.lookup_cons, List.lookup_cons, ih]
      cases name == e.1 <;> rfl
  rw [value?, OrderedMap.get?_eq_lookup, hlookup]
  cases c.entries.lookup name with
  | none => rfl
  | some s => simp [Scalar.ofJson?_toJson]

theorem isSome_value?_iff (c : Context) (name : String) :
    (c.value? name).isSome ↔ name ∈ c.members.map Prod.fst := by
  rw [value?, Option.isSome_map, map_fst_members, OrderedMap.mem_keys_iff]

/-- **What a context holds.**  After any operations, the names of a context are distinct and its
values are scalars: they are what the effects of the operations, one after the other, make of no
members at all.  A look-up finds a value exactly of the names that are there, the one that its
member counts as, and the size is the number of names.  An operation succeeds exactly if it comes
with members of which none is an array or an object.  To set a variable is to change its member where
it stands, or to put a new one behind the others; of a whole object what counts is the first place and
the last value of each name.  If there is an array or an object, the first is named, and an operation
that fails leaves the context as it is. -/
theorem after_keeps_scalars (history : List Operation) :
    let c := after history
    let names := c.members.map Prod.fst
    c.toJson = .object c.members ∧
      c.members = history.foldl (fun current o => o.effect current) [] ∧
      names.Nodup ∧ (∀ m ∈ c.members, m.2.isCompound = false) ∧
      (∀ name, ((c.value? name).isSome ↔ name ∈ names) ∧
        c.value? name = ((c.members.lookup name).bind Scalar.ofJson?).map Scalar.toValue) ∧
      c.size = names.length ∧
      ∀ o, (∀ c', c.perform o = .ok c' ↔ ∃ given, o.given? = some given ∧
          (∀ m ∈ given, m.2.isCompound = false) ∧ c'.members = o.outcome given c.members) ∧
        (∀ name, c.perform o = .error (.nonScalar name) ↔ ∃ given, o.given? = some given ∧
          (given.find? (·.2.isCompound)).map Prod.fst = some name) ∧
        ∀ fault, c.perform o = .error fault → after (history ++ [o]) = c := by
  intro c names
  have hnames : names = c.keys := map_fst_members c
  refine ⟨rfl, members_after history, hnames ▸ c.nodup, fun m => isCompound_of_mem_members,
    fun name => ⟨isSome_value?_iff c name, value?_eq c name⟩, ?_, fun o =>
      ⟨fun c' => perform_eq_ok_iff, fun name => perform_eq_nonScalar_iff,
        fun fault => after_concat_of_error⟩⟩
  rw [hnames, OrderedMap.keys, List.length_map, OrderedMap.size]

/-! ## Texts -/

/-- Members of which each name stands once are kept as they are. -/
theorem distinctMembers_members (c : Context) : distinctMembers c.members = c.members := by
  have hnodup : (c.members.map Prod.fst).Nodup := c.map_fst_members ▸ c.nodup
  rw [distinctMembers, ← OrderedMap.entries_ofList, OrderedMap.entries_ofList_of_nodup hnodup]

theorem isUsableAt_toJson (c : Context) (depth : Nat) : c.toJson.isUsableAt (depth + 1) = true := by
  rw [toJson, Json.isUsableAt, Bool.and_eq_true, Json.areUsableMembers_iff]
  refine ⟨decide_eq_true (Nat.succ_pos _), fun m hm => ?_⟩
  obtain ⟨e, -, rfl⟩ := List.mem_map.1 hm
  exact e.2.isUsableAt_toJson _

/-- The object of a context describes the context. -/
theorem ofJson?_toJson (c : Context) : ofJson? c.toJson = .ok c := by
  have hgiven : membersOf? c.toJson = some c.members := congrArg some c.distinctMembers_members
  exact (stores_ofJson? (c.isUsableAt_toJson 0) hgiven).eq_ok_iff.2
    ⟨fun m => isCompound_of_mem_members, rfl⟩

/-- **Contexts are read back.**  Whatever its names, strings and numbers are, the text that is
written for a context is read as the same context, with the variables in their order and every number
of its kind; and so is the object that the text stands for.  So nothing changes for a condition in
which the variables are put in. -/
theorem parse_text_substitute_eq (c : Context) :
    parse c.text = .ok c ∧ Json.parse? c.text = some c.toJson ∧ ofJson? c.toJson = .ok c ∧
      ∀ source, (parse c.text).map (·.substitute source) = .ok (c.substitute source) ∧
        (ofJson? c.toJson).map (·.substitute source) = .ok (c.substitute source) := by
  have htext : Json.parse? c.text = some c.toJson := Json.parse?_text (c.isUsableAt_toJson 0)
  have husable : c.toJson.isUsable = true := c.isUsableAt_toJson _
  have hparse : parse c.text = .ok c := by
    rw [parse, htext, Option.filter_some_pos husable]
    exact c.ofJson?_toJson
  refine ⟨hparse, htext, c.ofJson?_toJson, fun source => ⟨?_, ?_⟩⟩
  · rw [hparse]
    rfl
  · rw [c.ofJson?_toJson]
    rfl

example : text (OrderedMap.ofList [("a\"é", .number (.float (-0.0) (by decide))), ("", .string "\n"),
    ("n", .number (.negative 1 (by decide))), ("m", .number (.float (-1) (by decide)))]) =
    "\x7b\"a\\\"é\":-0.0,\"\":\"\\n\",\"n\":-1,\"m\":-1.0\x7d" := by
  decide +kernel

end Context
end Workflow
