import Opstack.Proofs.Machine.Construction
import Opstack.Proofs.Machine.Hosting
import Opstack.Proofs.Machine.References

/-!
# Initialized records

While a record is constructed its initializers may do anything: call functions, start threads,
construct other records.  Meanwhile other calls go on.  None of them gets hold of the record before
all its declared fields are set, so nobody ever finds one of them unset.

The numbers of objects can be guessed, though.  So this holds if nothing that comes from outside
refers to the record before its construction has ended (`Construction.Secret`), and not otherwise
(`Machine.call_guesser_unset`).

* `Construction.Underway` is a machine in which the record is constructed, with the values that the
  initializers have had so far.  `Construction.Underway.react` says what one event can do to it.
* `Construction.Comes` is what a session can come to: the construction is still under way, or it has
  ended, or it has broken off, and then nobody has a reference to the record.
* `Construction.Sound` puts it without the invariant, and `Machine.exists_sound_construction` says
  that every construction of a record is so.
-/

set_option autoImplicit false

namespace Opstack

/-! ## What comes from outside -/

/-- The event brings a reference to the object into a machine, or sets a field of it from
outside. -/
def Event.Exposes (o : ObjectId) : Event → Prop
  | .ask request => request.value? = some (.ref o) ∨ ∃ field v, request = .setField o field v
  | .move (.begin _ args) => .ref o ∈ args
  | _ => False

namespace Machine

variable {m : Machine} {event : Event} {o : ObjectId}

theorem bringsOnly_of_not_exposes (hadds : m.AddsCompiled event) (hexposes : ¬ event.Exposes o) :
    BringsOnly (· ≠ .ref o) event := by
  cases event with
  | add routine =>
    obtain ⟨-, f, table, hlower⟩ := hadds
    exact Function.lower_refFree hlower
  | ask request =>
    rintro v hv rfl
    exact hexposes (.inl hv)
  | move move =>
    cases move with
    | begin name args =>
      rintro v hv rfl
      exact hexposes hv
    | advance position => trivial
    | forget call => trivial

/-- A new machine that a program is loaded into has no values at all. -/
theorem hasOnly_load {p : Program} {config : Config} {console : Console}
    (h : (create config console).load p = .ok m) (P : Value → Prop) : m.HasOnly P := by
  have hcreate := hasOnly_create P config console
  have hroutines : ∀ r ∈ m.shared.routines, r.RefFree := by
    intro r hr
    rcases mem_of_load h hr with ⟨f, -, hlower⟩ | hr
    · exact Function.lower_refFree hlower
    · exact hcreate.shared.routines r hr
  rw [load_eq h]
  exact ⟨⟨hcreate.shared.heap, hroutines, hcreate.shared.threads⟩, hcreate.tasks⟩

/-- As long as there is no object with the number, nobody has a reference to it. -/
theorem hasOnly_live_of_unknown (hm : m.HasOnly (· ≠ .ref o)) {events : List Event}
    (hadds : m.Observes AddsCompiled events) (hexposes : ∀ event ∈ events, ¬ event.Exposes o)
    (hunknown : (m.live events).shared.heap.find? o = none) :
    (m.live events).HasOnly (· ≠ .ref o) := by
  have hsession : m.Observes (fun m event => m.AddsCompiled event ∧ ¬ event.Exposes o) events := by
    intro earlier event later hevents
    exact ⟨hadds earlier event later hevents, hexposes event (hevents ▸ by simp)⟩
  refine live_induction (P := fun _ later =>
    later.shared.heap.find? o = none → later.HasOnly (· ≠ .ref o)) hsession (fun _ => hm)
    ?_ hunknown
  rintro earlier event ⟨hadds, hexposes⟩ hpast hunknown
  have hbefore : (m.live earlier).shared.heap.find? o = none := by
    cases hfind : (m.live earlier).shared.heap.find? o with
    | none => rfl
    | some object =>
      have hsome := grows_react (m.live earlier) event o (by rw [hfind]; rfl)
      rw [hunknown] at hsome
      cases hsome
  refine react_hasOnly (hpast hbefore) ?_ (bringsOnly_of_not_exposes hadds hexposes) ?_
  · rintro v hv rfl
    cases hv
  · rintro other - hother heq
    cases heq
    rw [hunknown] at hother
    cases hother

end Machine

/-! ## Values of the fields -/

theorem zip_concat {α β : Type} {as : List α} {bs : List β} {a : α} (h : as[bs.length]? = some a)
    (b : β) : as.zip (bs ++ [b]) = as.zip bs ++ [(a, b)] := by
  induction bs generalizing as with
  | nil =>
    cases as with
    | nil => cases h
    | cons a' as =>
      cases h
      simp
  | cons b' bs ih =>
    cases as with
    | nil => cases h
    | cons a' as => simpa using ih (by simpa using h)

namespace Construction

section

variable (c : Construction)

/-- The fields of the record once its first initializers have had these values. -/
def filled (values : List Value) : List (String × Value) :=
  (c.names.zip values).foldl (fun fields part => withField fields part.1 part.2) []

/-- The value of a field by its name: that of the last initializer for it. -/
def lastValue? (values : List Value) (field : String) : Option Value :=
  (c.names.zip values).reverse.lookup field

end

variable {c : Construction} {values : List Value} {field : String}

theorem filled_concat (h : c.names[values.length]? = some field) (v : Value) :
    c.filled (values ++ [v]) = withField (c.filled values) field v := by
  rw [filled, zip_concat h, List.foldl_append]
  rfl

theorem fieldOf?_foldl (parts fields : List (String × Value)) (field : String) :
    fieldOf? (parts.foldl (fun fields part => withField fields part.1 part.2) fields) field =
      (parts.reverse.lookup field).or (fieldOf? fields field) := by
  induction parts generalizing fields with
  | nil => rfl
  | cons part rest ih =>
    obtain ⟨name, v⟩ := part
    rw [List.foldl_cons, ih, List.reverse_cons, List.lookup_append, Option.or_assoc,
      fieldOf?_withField, List.lookup_cons, List.lookup_nil]
    by_cases h : field = name
    · rw [if_pos h, beq_iff_eq.mpr h]
      rfl
    · rw [if_neg h, beq_eq_false_iff_ne.mpr h]
      rfl

theorem fieldOf?_filled (c : Construction) (values : List Value) (field : String) :
    fieldOf? (c.filled values) field = c.lastValue? values field := by
  rw [filled, fieldOf?_foldl]
  exact Option.or_none

/-- Once all initializers have had their values, every field has one. -/
theorem exists_lastValue? (hlength : values.length = c.fields.length) (hfield : field ∈ c.names) :
    ∃ v, c.lastValue? values field = some v := by
  have hnames : c.names.length ≤ values.length := by
    rw [names, List.length_map]
    omega
  have hmem : field ∈ (c.names.zip values).map Prod.fst := by
    rwa [List.map_fst_zip hnames]
  obtain ⟨part, hpart, rfl⟩ := List.mem_map.mp hmem
  rw [← Option.isSome_iff_exists, lastValue?, List.lookup_isSome_iff]
  exact ⟨part, List.mem_reverse.mpr hpart, beq_self_eq_true _⟩

/-! ## Machines in which a record is constructed -/

/-- Two places in a list are the same, or one of them is before the other. -/
theorem append_cons_cases {α : Type} {before after before' after' : List α} {a b : α}
    (h : before ++ a :: after = before' ++ b :: after') :
    (before = before' ∧ a = b ∧ after = after') ∨
      (∃ mid, before = before' ++ b :: mid ∧ after' = mid ++ a :: after) ∨
      ∃ mid, before' = before ++ a :: mid ∧ after = mid ++ b :: after' := by
  rcases List.append_eq_append_iff.mp h with ⟨mid, rfl, hmid⟩ | ⟨mid, rfl, hmid⟩
  · cases mid with
    | nil =>
      cases hmid
      exact .inl ⟨(List.append_nil _).symm, rfl, rfl⟩
    | cons a' mid =>
      cases hmid
      exact .inr (.inr ⟨mid, rfl, rfl⟩)
  · cases mid with
    | nil =>
      cases hmid
      exact .inl ⟨List.append_nil _, rfl, rfl⟩
    | cons b' mid =>
      cases hmid
      exact .inr (.inl ⟨mid, rfl, rfl⟩)

section

variable (c : Construction)

/-- The construction has come to its end: its execution is right behind the code, with the reference
on top of the operands that were there before. -/
def Ended (m : Machine) : Prop :=
  ∃ x, .running x ∈ m.tasks ∧ x.thread = c.thread ∧ x.call = c.call ∧
    c.activation.At (c.place c.fields.length) x ∧ x.operands = .ref c.object :: c.base

/-- The first initializers have had these values, the record has the fields that they are for, and
one task goes on constructing it.  Nothing else in the machine refers to the record. -/
structure Underway (p : Program) (values : List Value) (m : Machine) : Prop where
  /-- What executions share does not refer to the record. -/
  shared : m.shared.HasOnly c.IsOther
  /-- The record has the fields so far. -/
  record : m.shared.heap.find? c.object = some (.record (c.filled values))
  /-- One task constructs the record, and the others do not refer to it. -/
  tasks : ∃ before t after, m.tasks = before ++ t :: after ∧ c.Builds p values.length t ∧
    ∀ u ∈ before ++ after, u.HasOnly c.IsOther

/-- What an event can do to a machine in which the record is constructed. -/
inductive Reacts (p : Program) (values : List Value) (m : Machine) (event : Event) : Prop
  | stays (h : c.Underway p values (m.react event))
  | sets {x : Execution} {v : Value} (hx : .running x ∈ m.tasks)
      (hsets : c.Sets values.length v x) (h : c.Underway p (values ++ [v]) (m.react event))
  | breaks {position : Nat} {t : Task} (hevent : event = .move (.advance position))
      (ht : m.tasks[position]? = some t) (hbuilds : c.Builds p values.length t)
      (hbreaks : t.BreaksOff m.shared) (h : (m.react event).HasOnly c.IsOther)

end

section

variable {p : Program} {k : Nat} {m : Machine} {event : Event} {x : Execution}

theorem place_lt (hk : k < c.fields.length) : c.place k < c.place c.fields.length := by
  have hfields : c.fields = c.fields.take k ++ c.fields.drop k := (List.take_append_drop k _).symm
  have hcode := congrArg (fun parts => (fieldsCode parts).length) hfields
  simp only [fieldsCode_append, List.length_append] at hcode
  have hrest : 0 < (fieldsCode (c.fields.drop k)).length := by
    cases hdrop : c.fields.drop k with
    | nil =>
      have hlength := congrArg List.length hdrop
      simp at hlength
      omega
    | cons part rest =>
      obtain ⟨field, code⟩ := part
      simp [fieldsCode]
  rw [place, place, List.take_length]
  omega

/-- Whoever is at the end with the reference has set all fields. -/
theorem Stage.eq_length (h : c.Stage p k x) (hk : k ≤ c.fields.length)
    (hat : c.activation.At (c.place c.fields.length) x)
    (hoperands : x.operands = .ref c.object :: c.base) : k = c.fields.length := by
  cases h with
  | between hy hat' _ =>
    have hplace : c.place k = c.place c.fields.length := hat'.unique hat
    rcases Nat.lt_or_eq_of_le hk with hlt | heq
    · have := c.place_lt hlt
      omega
    · exact heq
  | evaluating _ _ _ =>
    have hlength := congrArg List.length hoperands
    simp [upon] at hlength
    omega

/-- Whoever has set all fields is at the end with the reference. -/
theorem Stage.ended (h : c.Stage p c.fields.length x) :
    x.thread = c.thread ∧ x.call = c.call ∧ c.activation.At (c.place c.fields.length) x ∧
      x.operands = .ref c.object :: c.base := by
  cases h with
  | between hy hat hoperands => exact ⟨rfl, rfl, hat, by rw [upon, hoperands]; rfl⟩
  | evaluating hfield _ _ => simp at hfield

theorem not_hasOnly_of_ref (hx : x.operands = .ref c.object :: c.base) :
    ¬ Task.HasOnly c.IsOther (.running x) :=
  fun h => Execution.HasOnly.operands h _ (by rw [hx]; exact List.mem_cons_self) rfl

theorem not_ended_of_hasOnly (hm : m.HasOnly c.IsOther) : ¬ c.Ended m := by
  rintro ⟨x, hx, -, -, -, hoperands⟩
  exact not_hasOnly_of_ref hoperands (hm.tasks _ hx)

namespace Underway

/-- The construction has ended exactly if all initializers have had their values. -/
theorem ended_iff (h : c.Underway p values m) (hk : values.length ≤ c.fields.length) :
    c.Ended m ↔ values.length = c.fields.length := by
  obtain ⟨before, t, after, htasks, hbuilds, hothers⟩ := h.tasks
  constructor
  · rintro ⟨x, hx, -, -, hat, hoperands⟩
    rw [htasks, List.mem_append, List.mem_cons] at hx
    rcases hx with hx | rfl | hx
    · exact absurd (hothers _ (List.mem_append_left _ hx)) (not_hasOnly_of_ref hoperands)
    · cases hbuilds with
      | running hstage => exact hstage.eq_length hk hat hoperands
    · exact absurd (hothers _ (List.mem_append_right _ hx)) (not_hasOnly_of_ref hoperands)
  · intro hlength
    rw [hlength] at hbuilds
    cases hbuilds with
    | @running x hstage =>
      obtain ⟨hthread, hcall, hat, hoperands⟩ := hstage.ended
      exact ⟨x, by rw [htasks]; simp, hthread, hcall, hat, hoperands⟩
    | @waiting x _ _ hstage =>
      obtain ⟨-, -, -, hoperands⟩ := (hstage .null (c.allButRefs_isOther _ rfl)).ended
      cases hoperands

/-- An event that is no turn leaves the construction where it is. -/
theorem stays (h : c.Underway p values m) (hadds : m.AddsCompiled event)
    (hexposes : ¬ event.Exposes c.object)
    (hevent : ∀ position, event ≠ .move (.advance position)) :
    c.Underway p values (m.react event) := by
  obtain ⟨before, t, after, htasks, hbuilds, hothers⟩ := h.tasks
  -- The rest of the machine does not refer to the record, and the event leaves it so.
  have hrest : Machine.HasOnly c.IsOther { m with tasks := before ++ after } :=
    ⟨h.shared, hothers⟩
  have hnext := Machine.react_hasOnly hrest c.allButRefs_isOther
    (Machine.bringsOnly_of_not_exposes hadds hexposes) (addsOnly_isOther h.record _)
  cases event with
  | add routine => exact ⟨hnext.shared, h.record, before, t, after, htasks, hbuilds, hothers⟩
  | ask request =>
    refine ⟨hnext.shared, ?_, before, t, after, htasks, hbuilds, hothers⟩
    exact (m.shared.heap.serves request).find?_record h.record fun field v heq =>
      hexposes (.inr ⟨field, v, heq⟩)
  | move move =>
    cases move with
    | begin name args =>
      refine ⟨hnext.shared, h.record, Machine.entry m.shared m.calls name args ++ before, t, after,
        ?_, hbuilds, ?_⟩
      · rw [List.append_assoc, ← htasks]
        rfl
      · rw [List.append_assoc]
        exact hnext.tasks
    | advance position => exact absurd rfl (hevent position)
    | forget call =>
      refine ⟨hnext.shared, h.record, Machine.dropAnswer call before, t,
        Machine.dropAnswer call after, ?_, hbuilds, ?_⟩
      · change Machine.dropAnswer call m.tasks = _
        rw [htasks, Machine.dropAnswer, List.filter_append]
        cases hbuilds <;> rfl
      · rw [Machine.dropAnswer, Machine.dropAnswer, ← List.filter_append]
        exact hnext.tasks

/-- The turn of another task leaves the construction where it is. -/
theorem of_turn (h : c.Underway p values m) {u t : Task} {before after : List Task} (calls : Nat)
    (hu : u.HasOnly c.IsOther) (hbuilds : c.Builds p values.length t)
    (hothers : ∀ w ∈ before ++ after, w.HasOnly c.IsOther ∨ w ∈ (u.turn m.shared).2) :
    c.Underway p values ⟨(u.turn m.shared).1, before ++ t :: after, calls⟩ := by
  have hleaves : Task.LeavesOnly c.IsOther (u.turn m.shared) :=
    Task.turn_hasOnly h.shared c.allButRefs_isOther hu (addsOnly_isOther h.record _)
  have hfind : (u.turn m.shared).1.heap.find? c.object = some (.record (c.filled values)) := by
    rw [Task.find?_turn m.shared u (ne_nextObject h.record), h.record]
    rintro x i rfl -
    exact target?_ne (Execution.HasOnly.operands hu) i
  exact ⟨hleaves.1, hfind, before, t, after, rfl, hbuilds,
    fun w hw => (hothers w hw).elim id (hleaves.2 w)⟩

/-- The turn of the task that constructs the record. -/
theorem turn_own (h : c.Underway p values m) (hp : p.WellCalled) (hm : m.Hosts p) (hc : c.IsOf p)
    (hk : values.length < c.fields.length) {position : Nat} {t : Task} {before after : List Task}
    (ht : m.tasks[position]? = some t) (hbuilds : c.Builds p values.length t)
    (hothers : ∀ u ∈ before ++ after, u.HasOnly c.IsOther)
    (hreact : m.react (.move (.advance position)) =
      ⟨(t.turn m.shared).1, before ++ (t.turn m.shared).2 ++ after, m.calls⟩) :
    c.Reacts p values m (.move (.advance position)) := by
  have hmem : t ∈ m.tasks := List.mem_of_getElem? ht
  have hinside : ∀ x, t = .running x → Inside x.frames := by
    rintro x rfl
    exact hm.inside _ hmem
  have hturns := hbuilds.turns hp hm.loaded hc h.shared h.record hk hinside
  generalize t.turn m.shared = r at hturns hreact
  cases hturns with
  | @stays s' more t' hs' hfind hmore ht' =>
    refine .stays ?_
    rw [hreact]
    refine ⟨hs', hfind, before ++ more, t', after, by simp, ht', fun u hu => ?_⟩
    simp only [List.mem_append] at hu
    rcases hu with (hu | hu) | hu
    · exact hothers u (List.mem_append_left _ hu)
    · exact hmore u hu
    · exact hothers u (List.mem_append_right _ hu)
  | @sets s' x field code v t' hx hfield hsets hs' hfind ht' =>
    refine .sets (hx ▸ hmem) hsets ?_
    rw [hreact]
    have hname : c.names[values.length]? = some field := by
      rw [names, List.getElem?_map, hfield]
      rfl
    rw [← filled_concat hname] at hfind
    refine ⟨hs', hfind, before, t', after, by simp, ?_, hothers⟩
    rw [List.length_append]
    exact ht'
  | breaks hbreaks hleaves =>
    refine .breaks rfl ht hbuilds hbreaks ?_
    rw [hreact]
    refine ⟨hleaves.1, fun u hu => ?_⟩
    rcases Task.mem_cases hu with hu | hu
    · exact hothers u hu
    · exact hleaves.2 u hu

/-- **One turn** of any task in a machine in which the record is constructed. -/
theorem advance (h : c.Underway p values m) (hp : p.WellCalled) (hm : m.Hosts p) (hc : c.IsOf p)
    (hk : values.length < c.fields.length) (position : Nat) :
    c.Reacts p values m (.move (.advance position)) := by
  cases ht : m.tasks[position]? with
  | none =>
    refine .stays ?_
    change c.Underway p values (m.advance position)
    rwa [Machine.advance_eq_self ht]
  | some u =>
    obtain ⟨before, t, after, htasks, hbuilds, hothers⟩ := h.tasks
    obtain ⟨before', after', htasks', hadvance⟩ := Machine.advance_eq ht
    have hreact : m.react (.move (.advance position)) =
      ⟨(u.turn m.shared).1, before' ++ (u.turn m.shared).2 ++ after', m.calls⟩ := hadvance
    rw [htasks] at htasks'
    -- The task of the turn is the one that constructs the record, or before it, or behind it.
    rcases append_cons_cases htasks' with ⟨rfl, rfl, rfl⟩ | ⟨mid, rfl, rfl⟩ | ⟨mid, rfl, rfl⟩
    · exact h.turn_own hp hm hc hk ht hbuilds hothers hreact
    · refine .stays ?_
      rw [hreact, ← List.append_assoc _ mid]
      refine h.of_turn m.calls (hothers u (by simp)) hbuilds fun w hw => ?_
      simp only [List.mem_append] at hw
      rcases hw with ((hw | hw) | hw) | hw
      · exact .inl (hothers w (by simp [hw]))
      · exact .inr hw
      · exact .inl (hothers w (by simp [hw]))
      · exact .inl (hothers w (by simp [hw]))
    · refine .stays ?_
      rw [hreact, List.append_assoc, List.append_assoc, List.cons_append, ← List.append_assoc mid]
      refine h.of_turn m.calls (hothers u (by simp)) hbuilds fun w hw => ?_
      simp only [List.mem_append] at hw
      rcases hw with hw | (hw | hw) | hw
      · exact .inl (hothers w (by simp [hw]))
      · exact .inl (hothers w (by simp [hw]))
      · exact .inr hw
      · exact .inl (hothers w (by simp [hw]))

/-- **One event** in a machine in which the record is constructed. -/
theorem react (h : c.Underway p values m) (hp : p.WellCalled) (hm : m.Hosts p) (hc : c.IsOf p)
    (hk : values.length < c.fields.length) (hadds : m.AddsCompiled event)
    (hexposes : ¬ event.Exposes c.object) : c.Reacts p values m event := by
  by_cases hevent : ∃ position, event = .move (.advance position)
  · obtain ⟨position, rfl⟩ := hevent
    exact h.advance hp hm hc hk position
  · exact .stays (h.stays hadds hexposes fun position heq => hevent ⟨position, heq⟩)

end Underway

end

/-! ## Sessions -/

section

variable (c : Construction)

/-- Nothing that comes from outside exposes the record before its construction has ended. -/
def Secret (m : Machine) (later : List Event) : Prop :=
  ∀ before event, before ++ [event] <+: later → event.Exposes c.object →
    ∃ earlier, earlier <+: before ∧ c.Ended (m.live earlier)

/-- Each of the values is what an initializer has left in the session. -/
def Gives (m : Machine) (later : List Event) (values : List Value) : Prop :=
  ∀ k v, values[k]? = some v → ∃ earlier x, earlier <+: later ∧
    .running x ∈ (m.live earlier).tasks ∧ c.Sets k v x

/-- What a session can come to after the record has been allocated. -/
inductive Comes (p : Program) (m : Machine) (later : List Event) : Prop
  | underway {values : List Value} (h : c.Underway p values (m.live later))
      (hk : values.length < c.fields.length) (hgives : c.Gives m later values)
      (hnot : ∀ earlier, earlier <+: later → ¬ c.Ended (m.live earlier))
  | ended {build : List Event} {values : List Value} (hbuild : build <+: later)
      (h : c.Underway p values (m.live build)) (hlength : values.length = c.fields.length)
      (hgives : c.Gives m build values)
      (hnot : ∀ earlier, earlier <+: build → earlier ≠ build → ¬ c.Ended (m.live earlier))
  | broken {object : Obj} (h : (m.live later).HasOnly c.IsOther)
      (hfind : (m.live later).shared.heap.find? c.object = some object)
      (hnot : ∀ earlier, earlier <+: later → ¬ c.Ended (m.live earlier))

end

section

variable {p : Program} {m : Machine} {later : List Event} {event : Event} {x : Execution}

theorem Gives.mono (h : c.Gives m later values) {more : List Event} (hmore : later <+: more) :
    c.Gives m more values := by
  intro k v hv
  obtain ⟨earlier, x, hearlier, hx, hsets⟩ := h k v hv
  exact ⟨earlier, x, hearlier.trans hmore, hx, hsets⟩

theorem Gives.concat (h : c.Gives m later values) {v : Value}
    (hx : .running x ∈ (m.live later).tasks) (hsets : c.Sets values.length v x) :
    c.Gives m (later ++ [event]) (values ++ [v]) := by
  intro k w hw
  rw [List.getElem?_append] at hw
  split at hw
  · exact h.mono (List.prefix_append _ _) k w hw
  · rename_i hk
    obtain ⟨hlt, hget⟩ := List.getElem?_eq_some_iff.mp hw
    have hk' : k = values.length := by
      simp at hlt
      omega
    subst hk'
    simp at hget
    subst hget
    exact ⟨later, x, List.prefix_append _ _, hx, hsets⟩

/-- The construction is under way, or it has just ended. -/
theorem Comes.of_underway (h : c.Underway p values (m.live later))
    (hk : values.length ≤ c.fields.length) (hgives : c.Gives m later values)
    (hnot : ∀ earlier, earlier <+: later → earlier ≠ later → ¬ c.Ended (m.live earlier)) :
    c.Comes p m later := by
  rcases Nat.lt_or_eq_of_le hk with hlt | hlength
  · refine .underway h hlt hgives fun earlier hearlier => ?_
    by_cases heq : earlier = later
    · rw [heq, h.ended_iff hk]
      omega
    · exact hnot earlier hearlier heq
  · exact .ended (List.prefix_refl _) h hlength hgives hnot

theorem not_ended_concat (hnot : ∀ earlier, earlier <+: later → ¬ c.Ended (m.live earlier))
    (hlast : ¬ c.Ended (m.live (later ++ [event]))) :
    ∀ earlier, earlier <+: later ++ [event] → ¬ c.Ended (m.live earlier) := by
  intro earlier hearlier
  rcases List.prefix_concat_iff.mp hearlier with rfl | hearlier
  · exact hlast
  · exact hnot earlier hearlier

/-- One more event. -/
theorem Comes.react (h : c.Comes p m later) (hp : p.WellCalled) (hm : (m.live later).Hosts p)
    (hc : c.IsOf p) (hadds : (m.live later).AddsCompiled event)
    (hsecret : c.Secret m (later ++ [event])) : c.Comes p m (later ++ [event]) := by
  have hlive : m.live (later ++ [event]) = (m.live later).react event := m.live_append _ _
  have hspares : (∀ earlier, earlier <+: later → ¬ c.Ended (m.live earlier)) →
      ¬ event.Exposes c.object := by
    intro hnot hexposes
    obtain ⟨earlier, hearlier, hended⟩ := hsecret later event (List.prefix_refl _) hexposes
    exact hnot earlier hearlier hended
  have hproper : (∀ earlier, earlier <+: later → ¬ c.Ended (m.live earlier)) →
      ∀ earlier, earlier <+: later ++ [event] → earlier ≠ later ++ [event] →
        ¬ c.Ended (m.live earlier) := by
    intro hnot earlier hearlier hne
    exact hnot earlier ((List.prefix_concat_iff.mp hearlier).resolve_left hne)
  cases h with
  | @underway values h hk hgives hnot =>
    cases h.react hp hm hc hk hadds (hspares hnot) with
    | stays h' =>
      rw [← hlive] at h'
      exact .of_underway h' (Nat.le_of_lt hk) (hgives.mono (List.prefix_append _ _)) (hproper hnot)
    | sets hx hsets h' =>
      rw [← hlive] at h'
      refine .of_underway h' ?_ (hgives.concat hx hsets) (hproper hnot)
      rw [List.length_append]
      exact hk
    | breaks _ _ _ _ h' =>
      obtain ⟨object, hobject⟩ := Option.isSome_iff_exists.mp
        (Machine.grows_react _ event _ (Option.isSome_iff_exists.mpr ⟨_, h.record⟩))
      rw [← hlive] at h' hobject
      exact .broken h' hobject (not_ended_concat hnot (not_ended_of_hasOnly h'))
  | ended hbuild h hlength hgives hnot =>
    exact .ended (hbuild.trans (List.prefix_append _ _)) h hlength hgives hnot
  | broken h hfind hnot =>
    obtain ⟨object, hobject⟩ := Option.isSome_iff_exists.mp
      (Machine.grows_react _ event _ (Option.isSome_iff_exists.mpr ⟨_, hfind⟩))
    have h' := Machine.react_hasOnly h c.allButRefs_isOther
      (Machine.bringsOnly_of_not_exposes hadds (hspares hnot)) (addsOnly_isOther hfind _)
    rw [← hlive] at h' hobject
    exact .broken h' hobject (not_ended_concat hnot (not_ended_of_hasOnly h'))

/-- **What a session comes to** after the record has been allocated. -/
theorem comes_of_live (hp : p.WellCalled) (hm : m.Hosts p) (hc : c.IsOf p)
    (h : c.Underway p [] m) (hadds : m.Observes Machine.AddsCompiled later)
    (hsecret : c.Secret m later) : c.Comes p m later := by
  refine (Machine.live_induction (P := fun later after => after.Hosts p ∧
    (c.Secret m later → c.Comes p m later)) hadds ⟨hm, fun _ => ?_⟩ ?_).2 hsecret
  · refine .of_underway h (Nat.zero_le _) (fun k v hv => by cases hv) fun earlier hearlier hne => ?_
    exact absurd (List.prefix_nil.mp hearlier) hne
  · rintro later event hadds ⟨hhosts, hpast⟩
    refine ⟨hhosts.react hadds, fun hsecret => ?_⟩
    have hbefore : c.Secret m later := fun before event' hbefore =>
      hsecret before event' (hbefore.trans (List.prefix_append _ _))
    exact (hpast hbefore).react hp hhosts hc hadds hsecret

end

/-! ## What there is to say of a construction -/

/-- A `GETF` of a field that is set fails only if it is aborted. -/
theorem aborted_of_getf {s s' : Shared} {x : Execution} {i : Instr} {o : ObjectId} {field : String}
    {e : Failure} (hi : x.instr? = some i) (hop : i.op = .getf)
    (harg : i.arg = some (.name field)) (hhead : x.operands.head? = some (.ref o))
    (hfield : s.heap.HasField o field) (h : step s x = (s', .fails e)) : e.fault = .aborted := by
  cases hhalted : s.isHalted with
  | true =>
    rw [step_of_isHalted hi hhalted] at h
    cases h
    rfl
  | false =>
    obtain ⟨v, hv⟩ := hfield
    obtain ⟨rest, hoperands⟩ := List.head?_eq_some_iff.mp hhead
    have hget : ∃ y, x.passed.getField s.heap i = .ok y := by
      have hpassed : x.passed.operands = .ref o :: rest := x.operands_passed.trans hoperands
      generalize x.passed = z at hpassed
      obtain ⟨thread, call, operands, frames⟩ := z
      cases hpassed
      simp only [Execution.getField, Execution.pop, bind, Except.bind, Value.asObject,
        Instr.nameArg, harg, hv, pure, Except.pure]
      exact ⟨_, rfl⟩
    obtain ⟨y, hy⟩ := hget
    rw [step_of_instr? hi hhalted] at h
    simp only [perform, hop, hy] at h
    cases h

section

variable {p : Program} {m : Machine} {x : Execution} {i : Instr}

/-- While the record is constructed nobody reads a field of it. -/
theorem Underway.not_getf (h : c.Underway p values m) (hp : p.WellCalled) (hm : m.Hosts p)
    (hc : c.IsOf p) (hk : values.length < c.fields.length) (hx : .running x ∈ m.tasks)
    (hi : x.instr? = some i) (hop : i.op = .getf) :
    x.operands.head? ≠ some (.ref c.object) := by
  intro hhead
  obtain ⟨before, t, after, htasks, hbuilds, hothers⟩ := h.tasks
  have hinside : Inside x.frames := hm.inside _ hx
  have hother : Task.running x ∈ before ++ after → False := by
    intro hmem
    exact Execution.HasOnly.operands (hothers _ hmem) _ (List.mem_of_mem_head? hhead) rfl
  rw [htasks, List.mem_append, List.mem_cons] at hx
  rcases hx with hx | rfl | hx
  · exact hother (List.mem_append_left _ hx)
  · cases hbuilds with
    | running hstage =>
      cases hstage with
      | between hy hat _ =>
        have hdup := hat.instr?_eq.trans (hc.next (List.getElem?_eq_getElem hk)).1
        cases hdup.symm.trans hi
        cases hop
      | @evaluating y field code hfield hy heval =>
        by_cases hat : c.activation.At (c.place values.length + 1 + code.length) y
        · have hsetf := hat.instr?_eq.trans (hc.next hfield).2.2
          cases hsetf.symm.trans hi
          cases hop
        · obtain ⟨scope, e, hcode⟩ := hc.initializers _ (List.mem_of_getElem? hfield)
          obtain ⟨j, hj, hpops⟩ := heval.exists_instr hp hcode (hc.next hfield).2.1 hinside hat
          cases hj.symm.trans hi
          rw [hop] at hpops
          obtain ⟨v, rest, hoperands⟩ := List.exists_cons_of_length_pos hpops
          rw [upon, hoperands] at hhead
          cases hhead
          exact hy.hasOnly.operands _ (by rw [hoperands]; exact List.mem_cons_self) rfl
  · exact hother (List.mem_append_right _ hx)

end

/-- What there is to say of the construction of a record in a session. -/
structure Sound (c : Construction) (p : Program) (m : Machine) (later : List Event) : Prop where
  /-- The operands that were there before do not refer to the record. -/
  base : ∀ v ∈ c.base, c.IsOther v
  /-- Until it has ended, nothing in the machine refers to the record but the execution that
  constructs it, and that one only below the operands that the initializers work with; and if it
  has broken off, nothing does. -/
  hidden : (∀ earlier, earlier <+: later → ¬ c.Ended (m.live earlier)) →
    (∃ values, c.Underway p values (m.live later)) ∨ (m.live later).HasOnly c.IsOther
  /-- When it ends, every declared field is set, to the value that its last initializer has
  left. -/
  complete : c.Ended (m.live later) →
    (∀ earlier, earlier <+: later → earlier ≠ later → ¬ c.Ended (m.live earlier)) →
    ∃ values, values.length = c.fields.length ∧ c.Gives m later values ∧
      ∀ field ∈ c.names, ∃ v, c.lastValue? values field = some v ∧
        (m.live later).shared.heap.getField c.object field = .ok v
  /-- From then on every declared field can be read. -/
  reads : ∀ earlier, earlier <+: later → c.Ended (m.live earlier) → ∀ field ∈ c.names,
    (m.live later).shared.heap.HasField c.object field
  /-- Whoever reads a declared field finds it set: the instruction fails only if it is aborted. -/
  finds : ∀ x i field s' e, .running x ∈ (m.live later).tasks → x.instr? = some i →
    i.op = .getf → i.arg = some (.name field) → field ∈ c.names →
    x.operands.head? = some (.ref c.object) → step (m.live later).shared x = (s', .fails e) →
    e.fault = .aborted

section

variable {p : Program} {m : Machine} {later : List Event}

/-- Once the construction has ended, every declared field has its value. -/
theorem Underway.getField_eq (h : c.Underway p values m)
    (hlength : values.length = c.fields.length) (hfield : field ∈ c.names) :
    ∃ v, c.lastValue? values field = some v ∧ m.shared.heap.getField c.object field = .ok v := by
  obtain ⟨v, hv⟩ := c.exists_lastValue? hlength hfield
  exact ⟨v, hv, Heap.getField_eq_ok.mpr ⟨_, h.record, (c.fieldOf?_filled values field).trans hv⟩⟩

theorem Comes.sound (h : c.Comes p m later) (hp : p.WellCalled) (hm : (m.live later).Hosts p)
    (hc : c.IsOf p) : c.Sound p m later := by
  cases h with
  | underway h hk hgives hnot =>
    exact
      { base := hc.base
        hidden := fun _ => .inl ⟨_, h⟩
        complete := fun hended => absurd hended (hnot _ (List.prefix_refl _))
        reads := fun earlier hearlier hended => absurd hended (hnot _ hearlier)
        finds := fun x i field s' e hx hi hop _ _ hhead =>
          absurd hhead (h.not_getf hp hm hc hk hx hi hop) }
  | @ended build values hbuild h hlength hgives hnot =>
    have hended : c.Ended (m.live build) := (h.ended_iff (Nat.le_of_eq hlength)).mpr hlength
    have hreads : ∀ field ∈ c.names, (m.live later).shared.heap.HasField c.object field := by
      intro field hfield
      obtain ⟨v, -, hv⟩ := h.getField_eq hlength hfield
      obtain ⟨rest, rfl⟩ := hbuild
      obtain ⟨requests, hrequests⟩ := (m.live build).exists_requests_of_live rest
      rw [m.live_append, hrequests]
      exact Heap.hasField_after ⟨v, hv⟩ requests
    refine
      { base := hc.base
        hidden := fun hnone => absurd hended (hnone _ hbuild)
        complete := fun _ hfirst => ?_
        reads := fun _ _ _ => hreads
        finds := fun x i field s' e _ hi hop harg hfield hhead hstep =>
          aborted_of_getf hi hop harg hhead (hreads field hfield) hstep }
    have heq : build = later := by
      by_contra hne
      exact hfirst _ hbuild hne hended
    subst heq
    exact ⟨values, hlength, hgives, fun field hfield => h.getField_eq hlength hfield⟩
  | broken h hfind hnot =>
    exact
      { base := hc.base
        hidden := fun _ => .inr h
        complete := fun hended => absurd hended (hnot _ (List.prefix_refl _))
        reads := fun earlier hearlier hended => absurd hended (hnot _ hearlier)
        finds := fun x i field s' e hx _ _ _ _ hhead => absurd rfl
          (Execution.HasOnly.operands (h.tasks _ hx) _ (List.mem_of_mem_head? hhead)) }

end

end Construction

/-! ## Every construction -/

theorem Expr.obeys_of_allObey {rules : Rules} {es : List Expr} (h : Expr.allObey rules es = true)
    {e : Expr} (he : e ∈ es) : e.obeys rules = true := by
  induction es with
  | nil => cases he
  | cons e' rest ih =>
    rw [allObey, Bool.and_eq_true] at h
    rcases List.mem_cons.mp he with rfl | he
    · exact h.1
    · exact ih h.2 he

namespace Machine

section

variable {m : Machine} {p : Program} {a : Activation} {start position : Nat} {x : Execution}
  {fields : List (String × List Instr)}

/-- The construction that an execution begins with its next instruction. -/
def beginning (m : Machine) (a : Activation) (start : Nat) (x : Execution)
    (fields : List (String × List Instr)) : Construction :=
  ⟨a, x.thread, x.call, x.operands, m.shared.heap.nextObject, start, fields⟩

theorem upon_beginning (m : Machine) (a : Activation) (start : Nat) (x : Execution)
    (fields : List (String × List Instr)) :
    (m.beginning a start x fields).upon 1 { x.passed with operands := [] } =
      x.passed.push (.ref m.shared.heap.nextObject) := by
  obtain ⟨thread, call, operands, _ | ⟨f, fs⟩⟩ := x <;> rfl

/-- An `ALLOCS` begins a construction. -/
theorem underway_beginning (hm : m.HasOnly (m.beginning a start x fields).IsOther)
    (hx : m.tasks[position]? = some (.running x)) (hrun : m.shared.isHalted = false)
    (hat : a.At start x) (hi : x.instr? = some (.plain .allocs)) :
    (m.beginning a start x fields).Underway p [] (m.react (.move (.advance position))) := by
  obtain ⟨before, after, htasks, hadvance⟩ := advance_eq hx
  have hothers : ∀ u ∈ before ++ .running x :: after,
      u.HasOnly (m.beginning a start x fields).IsOther := htasks ▸ hm.tasks
  have hown : x.HasOnly (m.beginning a start x fields).IsOther :=
    hm.tasks _ (List.mem_of_getElem? hx)
  have hstep : step m.shared x = ({ m.shared with heap := m.shared.heap.push (.record []) },
      .continues (x.passed.push (.ref m.shared.heap.nextObject))) := by
    rw [step_of_instr? hi hrun]
    rfl
  rw [Task.turn_of_continues hstep] at hadvance
  change (m.beginning a start x fields).Underway p [] (m.advance position)
  rw [hadvance]
  -- Without the reference the execution has no operands of its own.
  have hy : (m.beginning a start x fields).Apart { x.passed with operands := [] } :=
    ⟨x.owner_passed.1, x.owner_passed.2, hown.passed.of_subset (List.nil_subset _)⟩
  have hstage : (m.beginning a start x fields).Stage p 0
      ((m.beginning a start x fields).upon 1 { x.passed with operands := [] }) :=
    .between hy hat.passed rfl
  rw [upon_beginning] at hstage
  have hheap : (m.shared.heap.push (.record [])).HasOnly (m.beginning a start x fields).IsOther :=
    hm.shared.heap.push fun field v hv => by cases hv
  refine ⟨⟨hheap, hm.shared.routines, hm.shared.threads⟩, ?_, before, _, after, by simp,
    .running hstage, fun u hu => hothers u (Task.mem_of_mem hu)⟩
  rw [Construction.filled, List.zip_nil_right]
  exact (m.shared.heap.find?_push _ _).trans (if_pos rfl)

end

/-- **Records come with their fields.**  Let a well-called program be loaded into a new machine, and
let some execution come to the code of an expression that constructs a record, anywhere in the
session.  If nothing that comes from outside refers to the record before its construction has ended,
then, whatever happens in the session: nothing but the execution itself refers to the record until
all declared fields are set; they are set to the values of their initializers; from then on each of
them can be read; and nobody ever finds one of them unset. -/
theorem exists_sound_construction {p : Program} {config : Config} {console : Console}
    {m₀ : Machine} (hp : p.WellCalled) (hload : (create config console).load p = .ok m₀)
    {type : String} {args : List Expr} {scope : Scope} {code : List Instr}
    (hlower : lowerExpr (p.table []) scope (.newRecord type args) = .ok code)
    (hargs : Expr.allObey p.callRules args = true) {before : List Event}
    (hadds : m₀.Observes AddsCompiled before) {position : Nat} {x : Execution}
    (hx : (m₀.live before).tasks[position]? = some (.running x))
    (hrun : (m₀.live before).shared.isHalted = false) {a : Activation} {start : Nat}
    (hat : a.At start x) (hcode : a.routine.Holds start code)
    (hexposes : ∀ event ∈ before, ¬ event.Exposes (m₀.live before).shared.heap.nextObject) :
    ∃ fields : List (String × List Instr),
      (p.table []).lookup type = some (fields.map Prod.fst) ∧
      args.map (lowerExpr (p.table []) scope) = fields.map (fun part => .ok part.2) ∧
      ((m₀.live before).beginning a start x fields).place fields.length = start + code.length ∧
      ∀ later,
        ((m₀.live before).react (.move (.advance position))).Observes AddsCompiled later →
        ((m₀.live before).beginning a start x fields).Secret
          ((m₀.live before).react (.move (.advance position))) later →
        ((m₀.live before).beginning a start x fields).Sound p
          ((m₀.live before).react (.move (.advance position))) later := by
  obtain ⟨fields, hlookup, hparts, rfl⟩ := exists_parts_of_lowerExpr hlower
  have hhosts₀ : m₀.Hosts p := hosts_load hload hp.toDistinct
  have hhosts : (m₀.live before).Hosts p := hosts_live hhosts₀ hadds
  have hm := hasOnly_live_of_unknown (hasOnly_load hload _) hadds hexposes (Heap.find?_nextObject _)
  obtain ⟨halloc, hholds⟩ := holds_cons.mp hcode
  refine ⟨fields, hlookup, hparts, ?_, ?_⟩
  · simp [Construction.place, beginning]
    omega
  intro later hlater hsecret
  have hc : ((m₀.live before).beginning a start x fields).IsOf p := by
    refine ⟨hholds, fun part hpart => ?_, ?_⟩
    · have hmem : .ok part.2 ∈ args.map (lowerExpr (p.table []) scope) := by
        rw [hparts]
        exact List.mem_map_of_mem hpart
      obtain ⟨e, he, hlower⟩ := List.mem_map.mp hmem
      exact ⟨scope, e, code_of_lowerExpr hlower (Expr.obeys_of_allObey hargs he)⟩
    · exact Execution.HasOnly.operands (hm.tasks _ (List.mem_of_getElem? hx))
  have hunderway : ((m₀.live before).beginning a start x fields).Underway p []
      ((m₀.live before).react (.move (.advance position))) :=
    underway_beginning hm hx hrun hat (hat.instr?_eq.trans halloc)
  have hhosts' := hhosts.advance position
  exact (Construction.comes_of_live hp hhosts' hc hunderway hlater hsecret).sound hp
    (hosts_live hhosts' hlater) hc

/-- A program with a function that constructs a record, for which it calls another one. -/
def pairer : Program where
  records := [⟨"Pair", ["first", "second"]⟩]
  functions := [
    { name := "make"
      params := ["x"]
      body := [.ret (.newRecord "Pair" [.call "same" [.var "x"], .literal ⟨.int, "2"⟩])] },
    { name := "same", params := ["x"], body := [.ret (.var "x")] }]

/-- The code that constructs the record. -/
def pairCode : List Instr :=
  [.plain .allocs, .plain .dup, .load 0, .call "same", .setf "first", .plain .dup, .push (.int 2),
    .setf "second"]

/-- The routine of the function that constructs the record. -/
def pairRoutine : Routine :=
  ⟨"make", #[.store 0, .plain .allocs, .plain .dup, .load 0, .call "same", .setf "first",
    .plain .dup, .push (.int 2), .setf "second", .plain .ret]⟩

/-- A machine that knows both functions. -/
def pairMachine : Machine :=
  ((create {} {}).add pairRoutine).add ⟨"same", #[.store 0, .load 0, .plain .ret]⟩

/-- A session in which the first function is called and stores its argument. -/
def pairing : List Event := [.move (.begin "make" [.int 7]), .move (.advance 0)]

/-- The execution that is about to construct the record. -/
def pairExecution : Execution := ⟨none, 0, [], [⟨pairRoutine, #[.int 7], 1⟩]⟩

/-- The construction, with the codes of the initializers. -/
def pairConstruction (fields : List (String × List Instr)) : Construction :=
  (pairMachine.live pairing).beginning ⟨pairRoutine, []⟩ 1 pairExecution fields

/-- The record has been allocated. -/
def pairBegun : Machine := (pairMachine.live pairing).react (.move (.advance 0))

theorem exists_sound_construction_pair : (create {} {}).load pairer = .ok pairMachine ∧
    (pairMachine.live pairing).tasks = [.running pairExecution] ∧
    ∃ fields, (pairConstruction fields).Ended (pairBegun.live (turnsAt (List.replicate 10 0))) ∧
      (pairConstruction fields).Sound pairer pairBegun (turnsAt (List.replicate 10 0)) ∧
      ∀ field ∈ ["first", "second"],
        (pairBegun.live (turnsAt (List.replicate 10 0))).shared.heap.HasField 2025 field := by
  have hp : pairer.WellCalled := ⟨⟨by decide, by decide⟩, by decide⟩
  have hload : (create {} {}).load pairer = .ok pairMachine := by rfl
  have hlower : lowerExpr (pairer.table []) { locals := [⟨"x", 0, 0⟩], slotCount := 1 }
      (.newRecord "Pair" [.call "same" [.var "x"], .literal ⟨.int, "2"⟩]) = .ok pairCode := by rfl
  have hargs : Expr.allObey pairer.callRules
      [.call "same" [.var "x"], .literal ⟨.int, "2"⟩] = true := by decide
  have hadds : pairMachine.Observes AddsCompiled pairing :=
    observes_cons trivial (observes_cons trivial (observes_nil _ _))
  have htasks : (pairMachine.live pairing).tasks = [.running pairExecution] := by rfl
  have hx : (pairMachine.live pairing).tasks[0]? = some (.running pairExecution) := by
    rw [htasks]
    rfl
  have hat : Activation.At ⟨pairRoutine, []⟩ 1 pairExecution := ⟨_, rfl⟩
  have hcode : pairRoutine.Holds 1 pairCode := by
    simp only [pairCode, holds_cons, holds_nil, and_true]
    exact ⟨rfl, rfl, rfl, rfl, rfl, rfl, rfl, rfl⟩
  have hexposes : ∀ event ∈ pairing,
      ¬ event.Exposes (pairMachine.live pairing).shared.heap.nextObject := by
    intro event hevent
    rcases List.mem_cons.mp hevent with rfl | hevent
    · intro hmem
      cases List.mem_singleton.mp hmem
    · cases List.mem_singleton.mp hevent
      exact id
  obtain ⟨fields, hlookup, -, hplace, hsound⟩ :=
    exists_sound_construction hp hload hlower hargs hadds hx rfl hat hcode hexposes
  have hnames : ["first", "second"] = (pairConstruction fields).names := Option.some.inj hlookup
  have hsecret : (pairConstruction fields).Secret pairBegun (turnsAt (List.replicate 10 0)) := by
    intro before event hbefore hexposes
    obtain ⟨position, -, rfl⟩ := List.mem_map.mp (hbefore.subset (List.mem_append_right before
      List.mem_cons_self))
    exact absurd hexposes id
  have hsound := hsound _ (observes_turnsAt (fun _ _ => trivial) _) hsecret
  have hends : Activation.At ⟨pairRoutine, []⟩ (1 + pairCode.length)
      ⟨none, 0, [.ref 2025], [⟨pairRoutine, #[.int 7], 9⟩]⟩ := ⟨_, rfl⟩
  rw [← hplace] at hends
  have hended : (pairConstruction fields).Ended
      (pairBegun.live (turnsAt (List.replicate 10 0))) :=
    ⟨_, List.mem_singleton.mpr rfl, rfl, rfl, hends, rfl⟩
  refine ⟨hload, htasks, fields, hended, hsound, fun field hfield => ?_⟩
  rw [hnames] at hfield
  exact hsound.reads _ (List.prefix_refl _) hended field hfield

/-- A program whose function passes its argument on to an initializer, which reads a field of
it. -/
def guesser : Program where
  records := [⟨"S", ["a"]⟩]
  functions := [
    { name := "f", params := ["x"], body := [.ret (.newRecord "S" [.call "g" [.var "x"]])] },
    { name := "g", params := ["x"], body := [.ret (.path [.plain "x", .plain "a"])] }]

/-- **The number of a record can be guessed.**  A call gets a reference to the record that it will
construct, and an initializer finds a declared field of it unset. -/
theorem call_guesser_unset : guesser.WellCalled ∧ (guesser.table []).lookup "S" = some ["a"] ∧
    ∃ m e, (create {} {}).load guesser = .ok m ∧
      (m.call 20 "f" [.ref 2025]).1 = some (.error e) ∧ e.fault = .unsetField "a" ∧
      e.site = some ⟨"g", 2, "GETF(a)"⟩ ∧
      (m.call 20 "f" [.ref 2025]).2.shared.heap.isRecord 2025 = true ∧
      (m.call 20 "f" [.ref 2025]).2.shared.heap.recordCount = 1 := by
  have hp : guesser.WellCalled := ⟨⟨by decide, by decide⟩, by decide⟩
  exact ⟨hp, rfl, _, _, rfl, rfl, rfl, rfl, rfl, rfl⟩

end Machine

end Opstack
