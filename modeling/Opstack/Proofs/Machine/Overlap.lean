import Opstack.Machine.Session
import Opstack.Proofs.Machine.RootCause

/-!
# Calls that overlap

Calls can be under way at the same time, but there is one record of a failure for all of them, and a
call takes it at its end, whichever call the failure belongs to.  So a call can answer with a value
although one of its threads has failed, because another call has come to its end in between
(`Machine.play_loses_failure`).

This is the only way in which a failure gets lost.  `Accounted` says that every thread and every
call has its own tasks, in whatever order calls begin and tasks take turns.  A call one of whose
executions has failed is `Failed`: the failure is still to be recorded, or is recorded, or is the
result of the call itself; and it stays so until another call takes what is recorded
(`Machine.TakesFrom`).  `Machine.AtRest.reported_or_taken` puts this together.
-/

set_option autoImplicit false

namespace Opstack

/-! ## All executions have their own tasks -/

/-- So many calls have begun, and every thread and every call is accounted for. -/
structure Accounted (calls : Nat) (s : Shared) (tasks : List Task) : Prop where
  /-- Every thread has a number. -/
  room : s.HasRoom
  /-- Every thread that has not ended has one task. -/
  staffed : Task.Staffed s tasks
  /-- A thread and its task belong to the same call. -/
  owned : ∀ t ∈ tasks, ∀ thread, t.thread = some thread →
    ∃ r, s.thread? thread = some r ∧ r.call = t.call
  /-- A call has at most one task of its own. -/
  single : ∀ c, (tasks.map Task.owner).count (none, c) ≤ 1
  /-- The tasks belong to calls that have begun. -/
  begun : ∀ t ∈ tasks, t.call < calls
  /-- The threads of a call that has been joined have ended. -/
  joined : ∀ t ∈ tasks, t.isOver = true → ∀ thread r, s.thread? thread = some r →
    r.call = t.call → r.outcome.hasEnded = true

theorem Task.thread_of_isOver {t : Task} (h : t.isOver = true) : t.thread = none := by
  cases t with
  | closing | answered => rfl
  | _ => cases h

namespace Accounted

variable {calls call : Nat} {s s' : Shared} {before after tasks : List Task} {t u : Task}
  {incident : Option Incident}

/-- A call has no second task of its own. -/
theorem owner_ne (h : Accounted calls s (before ++ t :: after)) (hu : u ∈ before ++ after)
    (ht : t.owner = (none, call)) : u.owner ≠ (none, call) := fun hu' =>
  absurd (Task.two_le_count ht hu hu') (Nat.not_le_of_lt (Nat.lt_succ_of_le (h.single call)))

/-- A call that has been joined has no other task, so none of an execution. -/
theorem call_ne (h : Accounted calls s (before ++ t :: after)) (hu : u ∈ before ++ after)
    (hover : u.isOver = true) : t.call ≠ u.call := by
  intro hcall
  have ht : t ∈ before ++ t :: after := List.mem_append_right _ List.mem_cons_self
  cases hthread : t.thread with
  | none =>
    exact h.owner_ne hu (Prod.ext hthread hcall) (Prod.ext (Task.thread_of_isOver hover) rfl)
  | some thread =>
    obtain ⟨r, hr, hrcall⟩ := h.owned t ht thread hthread
    obtain ⟨r', hr', hlive⟩ := Shared.isLive_eq_true.mp (h.staffed.isLive ht hthread)
    cases hr.symm.trans hr'
    rw [h.joined u (Task.mem_of_mem hu) hover thread r hr (hrcall.trans hcall)] at hlive
    cases hlive

/-- The new tasks belong to the same call. -/
theorem call_eq (hturn : t.Turns s s' tasks incident) (hu : u ∈ tasks) : u.call = t.call := by
  rcases hturn.owner_of_mem hu with howner | ⟨howner, -⟩
  · exact congrArg Prod.snd howner
  · exact congrArg Prod.snd howner

/-- A thread and its task still belong to the same call. -/
theorem owned_turn (h : Accounted calls s (before ++ t :: after))
    (hturn : t.Turns s s' tasks incident) (hu : u ∈ before ++ tasks ++ after) {thread : ThreadId}
    (hthread : u.thread = some thread) : ∃ r, s'.thread? thread = some r ∧ r.call = u.call := by
  have hold : ∀ v ∈ before ++ t :: after, v.thread = some thread →
      ∃ r, s'.thread? thread = some r ∧ r.call = v.call := fun v hv hthread => by
    obtain ⟨r, hr, hcall⟩ := h.owned v hv thread hthread
    obtain ⟨r', hr', hcall'⟩ := hturn.kept hr
    exact ⟨r', hr', hcall'.trans hcall⟩
  rcases Task.mem_cases hu with hu | hu
  · exact hold u (Task.mem_of_mem hu) hthread
  · rw [call_eq hturn hu]
    have ht : t ∈ before ++ t :: after := List.mem_append_right _ List.mem_cons_self
    rcases hturn.owner_of_mem hu with howner | ⟨howner, hnew⟩
    · exact hold t ht ((congrArg Prod.fst howner).symm.trans hthread)
    · cases (congrArg Prod.fst howner).symm.trans hthread
      exact ⟨_, hnew, rfl⟩

/-- The threads of a call that has been joined still have ended. -/
theorem joined_turn (h : Accounted calls s (before ++ t :: after))
    (hturn : t.Turns s s' tasks incident) (hu : u ∈ before ++ tasks ++ after)
    (hover : u.isOver = true) {thread : ThreadId} {r : Thread} (hr : s'.thread? thread = some r)
    (hcall : r.call = u.call) : r.outcome.hasEnded = true := by
  have ht : t ∈ before ++ t :: after := List.mem_append_right _ List.mem_cons_self
  rcases Task.mem_cases hu with hu | hu
  · rcases hturn.persists thread with ⟨f, hf, hkeeps⟩ | ⟨-, hnew⟩
    · obtain ⟨r₀, hr₀, rfl⟩ := Option.map_eq_some_iff.mp (hf.symm.trans hr)
      have hcall₀ : r₀.call = u.call := (hkeeps r₀).1.symm.trans hcall
      exact (hkeeps r₀).2 (h.joined u (Task.mem_of_mem hu) hover thread r₀ hr₀ hcall₀)
    · -- An execution of the call would have started the thread.
      cases hnew.symm.trans hr
      exact absurd hcall (h.call_ne hu hover)
  · rcases hturn.of_isOver hu hover with ⟨c, result, rfl, hjoined, rfl, rfl⟩ |
      ⟨c, result, rfl, rfl, rfl⟩ | ⟨rfl, rfl⟩
    · rw [Shared.thread?_congr (Task.threads_join s c)] at hr
      exact (Shared.hasJoined_iff h.room).mp hjoined thread r hr hcall
    · exact h.joined _ ht rfl thread r hr hcall
    · exact h.joined _ ht hover thread r hr hcall

/-- **One turn** keeps all executions accounted for. -/
theorem turn (h : Accounted calls s (before ++ t :: after))
    (hturn : t.Turns s s' tasks incident) : Accounted calls s' (before ++ tasks ++ after) where
  room := hturn.hasRoom h.room
  staffed := h.staffed.turn hturn
  owned u hu thread := h.owned_turn hturn hu
  single c := by
    have hold := h.single c
    have hnew := hturn.count_owner_le c
    simp only [List.map_append, List.map_cons, List.count_append, List.count_cons,
      List.count_nil] at hold hnew ⊢
    omega
  begun u hu := by
    rcases Task.mem_cases hu with hu | hu
    · exact h.begun u (Task.mem_of_mem hu)
    · rw [call_eq hturn hu]
      exact h.begun t (List.mem_append_right _ List.mem_cons_self)
  joined u hu hover thread r hr hcall := h.joined_turn hturn hu hover hr hcall

/-- Taking an answer leaves the tasks of executions. -/
theorem count_dropAnswer (c : Nat) (tasks : List Task) (thread : ThreadId) :
    ((Machine.dropAnswer c tasks).map Task.thread).count (some thread) =
      (tasks.map Task.thread).count (some thread) := by
  induction tasks with
  | nil => rfl
  | cons t rest ih =>
    rw [List.map_cons, List.count_cons, ← ih]
    cases t with
    | answered c' result =>
      -- The answer is the task of no thread, whether it is taken or not.
      by_cases hc : c' = c <;> simp [Machine.dropAnswer, Task.thread, hc]
    | _ => exact List.count_cons

theorem forget (h : Accounted calls s tasks) (c : Nat) :
    Accounted calls s (Machine.dropAnswer c tasks) where
  room := h.room
  staffed thread := (count_dropAnswer c tasks thread).trans (h.staffed thread)
  owned t ht := h.owned t (List.mem_filter.mp ht).1
  single c' := Nat.le_trans ((List.filter_sublist.map Task.owner).count_le _) (h.single c')
  begun t ht := h.begun t (List.mem_filter.mp ht).1
  joined t ht := h.joined t (List.mem_filter.mp ht).1

/-- The task that a call begins with is its own. -/
theorem owner_entry (s : Shared) (call : Nat) (name : String) (args : List Value) :
    ∀ t ∈ Machine.entry s call name args, t.owner = (none, call) :=
  Machine.forall_mem_entry (fun _ _ => rfl) rfl

theorem isOver_entry (s : Shared) (call : Nat) (name : String) (args : List Value) :
    ∀ t ∈ Machine.entry s call name args, t.isOver = false :=
  Machine.forall_mem_entry (fun _ _ => rfl) rfl

/-- One more task, of a call that has just begun. -/
theorem cons (h : Accounted calls s tasks) (howner : t.owner = (none, calls))
    (hover : t.isOver = false) : Accounted (calls + 1) s (t :: tasks) := by
  have hthread : t.thread = none := congrArg Prod.fst howner
  have hcall : t.call = calls := congrArg Prod.snd howner
  refine ⟨h.room, fun thread => ?_, ?_, fun c => ?_, ?_, ?_⟩
  · rw [List.map_cons, hthread, List.count_cons_of_ne (by simp)]
    exact h.staffed thread
  · refine List.forall_mem_cons.mpr ⟨fun thread hsome => ?_, h.owned⟩
    cases hthread.symm.trans hsome
  · rw [List.map_cons, howner]
    by_cases hc : c = calls
    · -- The number of the call is new.
      subst hc
      have hnone : (tasks.map Task.owner).count (none, c) = 0 := by
        refine List.count_eq_zero.mpr fun hmem => ?_
        obtain ⟨u, hu, howner⟩ := List.mem_map.mp hmem
        exact Nat.ne_of_lt (h.begun u hu) (congrArg Prod.snd howner)
      exact Nat.le_of_eq (by rw [List.count_cons_self, hnone])
    · rw [List.count_cons_of_ne fun heq => hc (congrArg Prod.snd heq).symm]
      exact h.single c
  · have hlt := fun u hu => Nat.lt_succ_of_lt (h.begun u hu)
    exact List.forall_mem_cons.mpr ⟨Nat.lt_succ_of_le (Nat.le_of_eq hcall), hlt⟩
  · refine List.forall_mem_cons.mpr ⟨fun hover' => ?_, h.joined⟩
    cases hover.symm.trans hover'

theorem begin (h : Accounted calls s tasks) (name : String) (args : List Value) :
    Accounted (calls + 1) s (Machine.entry s calls name args ++ tasks) := by
  rcases Machine.entry_cases s calls name args with ⟨routine, -, -, hentry⟩ | ⟨-, -, hentry⟩ |
    ⟨-, hentry⟩ <;> rw [hentry]
  · exact h.cons rfl rfl
  · exact ⟨h.room, h.staffed, h.owned, h.single, fun t ht => Nat.lt_succ_of_lt (h.begun t ht),
      h.joined⟩
  · exact h.cons rfl rfl

end Accounted

namespace Machine

variable {m : Machine} {call : Nat}

theorem accounted_move (h : Accounted m.calls m.shared m.tasks) (move : Move) :
    Accounted (m.move move).calls (m.move move).shared (m.move move).tasks := by
  cases move with
  | begin name args => exact h.begin name args
  | forget c => exact h.forget c
  | advance position =>
    have hadvances := m.advances position
    rw [Machine.move]
    generalize m.advance position = m' at hadvances ⊢
    generalize m.incidentAt? position = incident at hadvances
    cases hadvances with
    | idle => exact h
    | turn htasks hturn =>
      rw [htasks] at h
      exact h.turn hturn

/-- **All executions are accounted for**, in whatever order calls begin and tasks take turns. -/
theorem accounted_play (h : Accounted m.calls m.shared m.tasks) (moves : List Move) :
    Accounted (m.play moves).calls (m.play moves).shared (m.play moves).tasks := by
  induction moves generalizing m with
  | nil => exact h
  | cons move moves ih => exact ih (accounted_move h move)

theorem AtRest.accounted (h : m.AtRest) : Accounted m.calls m.shared m.tasks := by
  rw [h.tasks]
  refine ⟨h.settled.room, fun thread => ?_, List.forall_mem_nil _, fun _ => Nat.zero_le _,
    List.forall_mem_nil _, List.forall_mem_nil _⟩
  rw [h.settled.isLive_eq_false]
  rfl

end Machine

/-! ## A failure stays where it is -/

/-- The task of a call that will answer with a failure. -/
def Task.hasFailed : Task → Bool
  | .failing _ _ _ => true
  | .joining _ (.error _) | .closing _ (.error _) | .answered _ (.error _) => true
  | _ => false

/-- The result of the call itself is a failure. -/
def ResultFailed (call : Nat) (tasks : List Task) : Prop :=
  ∀ t ∈ tasks, t.owner = (none, call) → t.hasFailed = true

/-- An execution of the call has failed, and no other call has taken the failure: it is still to be
recorded, or it is recorded, or it is the result of the call itself. -/
inductive Failed (call : Nat) (s : Shared) (tasks : List Task) : Prop
  | pending {thread : ThreadId} {e : Failure} (h : .failing (some thread) call e ∈ tasks)
  | recorded (hfailure : s.failure ≠ none) (hanswer : ∀ v, .answered call (.ok v) ∉ tasks)
  | result (h : ResultFailed call tasks)

section

variable {calls call : Nat} {s s' : Shared} {before after tasks : List Task} {t u : Task}
  {incident : Option Incident}

/-- A task of its own that has failed leaves one that has failed. -/
theorem Task.Turns.hasFailed (h : t.Turns s s' tasks incident) (ht : t.hasFailed = true)
    (hthread : t.thread = none) (hu : u ∈ tasks) : u.hasFailed = true := by
  cases h with
  | records => cases hthread
  | admits => exact List.mem_singleton.mp hu ▸ rfl
  | @joins c result _ | @pauses c result _ | @rests c result =>
    cases result with
    | ok v => cases ht
    | error e => exact List.mem_singleton.mp hu ▸ rfl
  | @closes c result =>
    cases result with
    | ok v => cases ht
    | error e =>
      rw [List.mem_singleton.mp hu, Task.answer.eq_def]
      cases s.failure <;> rfl
  | _ => cases ht

theorem ResultFailed.turn (h : ResultFailed call (before ++ t :: after))
    (hturn : t.Turns s s' tasks incident) : ResultFailed call (before ++ tasks ++ after) := by
  intro u hu howner
  rcases Task.mem_cases hu with hu | hu
  · exact h u (Task.mem_of_mem hu) howner
  · rcases hturn.owner_of_mem hu with heq | ⟨heq, -⟩
    · have ht := heq.symm.trans howner
      exact hturn.hasFailed (h t (List.mem_append_right _ List.mem_cons_self) ht)
        (congrArg Prod.fst ht) hu
    · cases heq.symm.trans howner

namespace Failed

/-- A call that has failed has not answered with a value. -/
theorem not_answered (h : Failed call s tasks) (hacc : Accounted calls s tasks) (v : Value) :
    .answered call (.ok v) ∉ tasks := by
  intro hanswer
  cases h with
  | pending h =>
    obtain ⟨before, after, rfl⟩ := List.append_of_mem h
    have hother : .answered call (.ok v) ∈ before ++ after := by
      rcases List.mem_append.mp hanswer with hu | hu
      · exact List.mem_append_left _ hu
      · rcases List.mem_cons.mp hu with hu | hu
        · cases hu
        · exact List.mem_append_right _ hu
    exact hacc.call_ne hother rfl rfl
  | recorded _ h => exact h v hanswer
  | result h => cases h _ hanswer rfl

/-- A turn that records the failure of a thread. -/
theorem of_failing {thread : ThreadId} {e : Failure}
    (hacc : Accounted calls s (before ++ .failing (some thread) call e :: after))
    (hturn : (Task.failing (some thread) call e).Turns s s' tasks incident) :
    Failed call s' (before ++ tasks ++ after) := by
  cases hturn with
  | records =>
    refine .recorded (fun hnone => ?_) fun v hanswer => ?_
    · rw [Shared.deliver, Shared.failure_modifyThread] at hnone
      cases hnone
    · rw [List.append_nil] at hanswer
      exact hacc.call_ne hanswer rfl rfl

/-- The turn of a call that comes to its end while a failure is recorded. -/
theorem of_closing {e : Failure} {result : Except Failure Value}
    (hacc : Accounted calls s (before ++ .closing call result :: after))
    (hturn : (Task.closing call result).Turns s s' tasks incident) (he : s.failure = some e) :
    Failed call s' (before ++ tasks ++ after) := by
  cases hturn with
  | closes =>
    refine .result fun u hu howner => ?_
    rcases Task.mem_cases hu with hu | hu
    · exact absurd howner (hacc.owner_ne hu rfl)
    · rw [List.mem_singleton.mp hu, he]
      rfl

/-- **One turn**: a call that has failed stays so, unless another call takes the failure. -/
theorem turn (h : Failed call s (before ++ t :: after))
    (hacc : Accounted calls s (before ++ t :: after)) (hturn : t.Turns s s' tasks incident)
    (hother : ∀ c result, t = .closing c result → c ≠ call → s.failure = none) :
    Failed call s' (before ++ tasks ++ after) := by
  cases h with
  | @pending thread e hpending =>
    rcases List.mem_append.mp hpending with hmem | hmem
    · exact .pending (List.mem_append_left _ (List.mem_append_left _ hmem))
    · rcases List.mem_cons.mp hmem with rfl | hmem
      · exact of_failing hacc hturn
      · exact .pending (List.mem_append_right _ hmem)
  | recorded hfailure hanswer =>
    obtain ⟨e, he⟩ := Option.ne_none_iff_exists'.mp hfailure
    by_cases hclosing : ∃ c result, t = .closing c result
    · obtain ⟨c, result, rfl⟩ := hclosing
      by_cases hc : c = call
      · subst hc
        exact of_closing hacc hturn he
      · exact absurd (hother c result rfl hc) hfailure
    · have hkept := hturn.failure_eq (fun c result h => hclosing ⟨c, result, h⟩) he
      refine .recorded (by rw [hkept]; exact Option.some_ne_none e) fun v hmem => ?_
      rcases Task.mem_cases hmem with hmem | hmem
      · exact hanswer v (Task.mem_of_mem hmem)
      · rcases hturn.of_isOver hmem rfl with ⟨c, result, -, -, -, heq⟩ |
          ⟨c, result, heq, -, -⟩ | ⟨heq, -⟩
        · cases heq
        · exact hclosing ⟨c, result, heq⟩
        · exact hanswer v (heq ▸ List.mem_append_right _ List.mem_cons_self)
  | result h => exact .result (h.turn hturn)

end Failed

end

namespace Machine

variable {m : Machine} {call position : Nat}

/-! ## Another call takes the failure -/

/-- The task at the position is that of another call which is about to take the recorded
failure. -/
def TakesFrom (m : Machine) (call position : Nat) : Prop :=
  m.shared.failure ≠ none ∧
    ∃ c result, c ≠ call ∧ m.tasks[position]? = some (.closing c result)

/-- What another call takes is its answer, and nothing of it is left. -/
theorem TakesFrom.answered (h : m.TakesFrom call position) :
    ∃ c e, c ≠ call ∧ m.shared.failure = some e ∧
      .answered c (.error e) ∈ (m.advance position).tasks ∧
      (m.advance position).shared.failure = none ∧
      (m.advance position).shared.isHalted = false := by
  obtain ⟨hfailure, c, result, hc, ht⟩ := h
  obtain ⟨e, he⟩ := Option.ne_none_iff_exists'.mp hfailure
  obtain ⟨before, after, -, hadvance⟩ := advance_eq ht
  have hturn : (Task.closing c result).turn m.shared =
      (m.shared.takeFailure.2, [.answered c (.error e)]) := by
    simp only [Task.turn, Shared.takeFailure, Task.answer, he]
  rw [hadvance, hturn]
  refine ⟨c, e, hc, he, ?_, rfl, rfl⟩
  exact List.mem_append_left _ (List.mem_append_right _ List.mem_cons_self)

theorem resultFailed_move (h : ResultFailed call m.tasks) (hcall : call < m.calls) (move : Move) :
    ResultFailed call (m.move move).tasks := by
  cases move with
  | begin name args =>
    refine List.forall_mem_append.mpr ⟨fun t ht howner => ?_, h⟩
    have hnew := (Accounted.owner_entry m.shared m.calls name args t ht).symm.trans howner
    cases hnew
    exact absurd hcall (Nat.lt_irrefl _)
  | forget c => exact fun t ht => h t (List.mem_filter.mp ht).1
  | advance position =>
    have hadvances := m.advances position
    rw [Machine.move]
    generalize m.advance position = m' at hadvances ⊢
    generalize m.incidentAt? position = incident at hadvances
    cases hadvances with
    | idle => exact h
    | turn htasks hturn =>
      rw [htasks] at h
      exact h.turn hturn

theorem failed_move (h : Failed call m.shared m.tasks)
    (hacc : Accounted m.calls m.shared m.tasks) (hcall : call < m.calls) {move : Move}
    (hmove : ∀ position, move = .advance position → ¬m.TakesFrom call position) :
    Failed call (m.move move).shared (m.move move).tasks := by
  cases move with
  | begin name args =>
    cases h with
    | pending h => exact .pending (List.mem_append_right _ h)
    | recorded hfailure hanswer =>
      refine .recorded hfailure fun v hmem => ?_
      rcases List.mem_append.mp hmem with hmem | hmem
      · cases Accounted.isOver_entry m.shared m.calls name args _ hmem
      · exact hanswer v hmem
    | result h => exact .result (resultFailed_move h hcall (.begin name args))
  | forget c =>
    cases h with
    | pending h => exact .pending (List.mem_filter.mpr ⟨h, rfl⟩)
    | recorded hfailure hanswer =>
      exact .recorded hfailure fun v hmem => hanswer v (List.mem_filter.mp hmem).1
    | result h => exact .result (resultFailed_move h hcall (.forget c))
  | advance position =>
    rw [Machine.move]
    cases ht : m.tasks[position]? with
    | none => rwa [advance_eq_self ht]
    | some t =>
      obtain ⟨before, after, htasks, hadvance⟩ := advance_eq ht
      rw [hadvance]
      rw [htasks] at h hacc
      refine h.turn hacc (t.turns_turn m.shared) fun c result heq hc => ?_
      refine Classical.byContradiction fun hfailure => ?_
      exact hmove position rfl ⟨hfailure, c, result, hc, heq ▸ ht⟩

/-! ## Whole histories -/

theorem calls_le_move (m : Machine) (move : Move) : m.calls ≤ (m.move move).calls := by
  cases move with
  | begin name args => exact Nat.le_succ _
  | advance position => exact Nat.le_refl _
  | forget c => exact Nat.le_refl _

/-- A call whose own result is a failure does not answer with a value. -/
theorem not_answered_of_resultFailed (h : ResultFailed call m.tasks) (hcall : call < m.calls)
    (moves : List Move) (v : Value) : .answered call (.ok v) ∉ (m.play moves).tasks := by
  induction moves generalizing m with
  | nil =>
    intro hanswer
    cases h _ hanswer rfl
  | cons move moves ih =>
    exact ih (resultFailed_move h hcall move) (Nat.lt_of_lt_of_le hcall (m.calls_le_move move))

/-- **A failure gets lost only to another call.** -/
theorem exists_takesFrom (h : Failed call m.shared m.tasks)
    (hacc : Accounted m.calls m.shared m.tasks) (hcall : call < m.calls) {moves : List Move}
    {v : Value} (hanswer : .answered call (.ok v) ∈ (m.play moves).tasks) :
    ∃ earlier position later, moves = earlier ++ .advance position :: later ∧
      (m.play earlier).TakesFrom call position := by
  induction moves generalizing m with
  | nil => exact absurd hanswer (h.not_answered hacc v)
  | cons move moves ih =>
    by_cases htakes : ∃ position, move = .advance position ∧ m.TakesFrom call position
    · obtain ⟨position, rfl, htakes⟩ := htakes
      exact ⟨[], position, moves, rfl, htakes⟩
    · have hmove := failed_move h hacc hcall fun position heq htaken =>
        htakes ⟨position, heq, htaken⟩
      obtain ⟨earlier, position, later, rfl, hlater⟩ := ih hmove (accounted_move hacc move)
        (Nat.lt_of_lt_of_le hcall (m.calls_le_move move)) hanswer
      exact ⟨move :: earlier, position, later, rfl, hlater⟩

/-- **The failure of a call is reported unless another call takes it.**  From a machine at rest,
let calls begin and tasks take turns in any order, so that at some moment an execution of a call
has failed, and let the call be answered later on.  Then the answer is a failure; or else the
execution was that of a thread, and in between another call came to its end while a failure was
recorded, and took it. -/
theorem AtRest.reported_or_taken (h : m.AtRest) (before after : List Move)
    {thread : Option ThreadId} {e : Failure} {answer : Except Failure Value}
    (hfailing : .failing thread call e ∈ (m.play before).tasks)
    (hanswer : .answered call answer ∈ (m.play (before ++ after)).tasks) :
    (∃ e', answer = .error e') ∨
      (∃ id, thread = some id) ∧
      ∃ earlier position later, after = earlier ++ .advance position :: later ∧
        (m.play (before ++ earlier)).TakesFrom call position := by
  cases answer with
  | error e' => exact .inl ⟨e', rfl⟩
  | ok v =>
    have hacc := accounted_play h.accounted before
    have hcall : call < (m.play before).calls := hacc.begun _ hfailing
    rw [play_append] at hanswer
    cases thread with
    | none =>
      obtain ⟨left, right, hsplit⟩ := List.append_of_mem hfailing
      have hfailed : ResultFailed call (m.play before).tasks := fun t ht howner => by
        rw [hsplit] at ht hacc
        rcases List.mem_append.mp ht with ht | ht
        · exact absurd howner (hacc.owner_ne (List.mem_append_left _ ht) rfl)
        · rcases List.mem_cons.mp ht with rfl | ht
          · rfl
          · exact absurd howner (hacc.owner_ne (List.mem_append_right _ ht) rfl)
      exact absurd hanswer (not_answered_of_resultFailed hfailed hcall after v)
    | some id =>
      obtain ⟨earlier, position, later, rfl, htakes⟩ :=
        exists_takesFrom (.pending hfailing) hacc hcall hanswer
      rw [← play_append] at htakes
      exact .inr ⟨⟨id, rfl⟩, earlier, position, later, rfl, htakes⟩

/-- A machine with a routine that starts a thread which fails and one which does not, and with a
routine that waits for the first of them. -/
def rivals : Machine :=
  ((((create {} {}).add
    ⟨"starts", #[.push (.int 1), .push (.str "fails"), .plain .thread, .push (.int 2),
      .push (.str "returns"), .plain .thread, .plain .ret]⟩).add
    ⟨"waits", #[.push (.int 2025), .plain .wait, .plain .ret]⟩).add
    ⟨"fails", #[.push (.int 0), .plain (.binary .div), .plain .ret]⟩).add
    ⟨"returns", #[.plain .ret]⟩

/-- Both calls begin; the first one starts its threads and waits for their end, the second one waits
for the first thread, and this thread fails. -/
def rivalsFail : List Move :=
  .begin "waits" [] :: .begin "starts" [] :: [0, 0, 0, 1, 1, 1, 2, 2, 3, 3, 0, 0].map .advance

/-- The failure is recorded, the second call fails with it and comes to its end, and only then do
the second thread and the first call go on. -/
def rivalsAnswer : List Move := [0, 2, 2, 2, 2, 0, 0, 0, 0].map .advance

theorem AtRest.reported_or_taken_rivals :
    ∃ earlier position later, rivalsAnswer = earlier ++ .advance position :: later ∧
      (rivals.play (rivalsFail ++ earlier)).TakesFrom 1 position := by
  have hrest : rivals.AtRest :=
    (Used.add (.add (.add (.add (.create _ _) _) _) _) _).atRest
  have hfailing : .failing (some 2025) 1 (.raised .divisionByZero ⟨"fails", 1, "DIV()"⟩
      (some 2025)) ∈ (rivals.play rivalsFail).tasks := List.mem_cons_self
  have hanswer : .answered 1 (.ok (.int 2026)) ∈
      (rivals.play (rivalsFail ++ rivalsAnswer)).tasks := List.mem_cons_self
  rcases hrest.reported_or_taken rivalsFail rivalsAnswer hfailing hanswer with ⟨e, he⟩ | ⟨-, htaken⟩
  · cases he
  · exact htaken

/-- A call can answer with a value although one of its threads has failed. -/
theorem play_loses_failure :
    ∃ (before after : List Move) (e : Failure) (v : Value),
      .failing (some 2025) 1 e ∈ (rivals.play before).tasks ∧
        .answered 1 (.ok v) ∈ (rivals.play (before ++ after)).tasks := by
  refine ⟨rivalsFail, rivalsAnswer, .raised .divisionByZero ⟨"fails", 1, "DIV()"⟩ (some 2025),
    .int 2026, ?_, ?_⟩
  · exact List.mem_cons_self
  · exact List.mem_cons_self

/-! ## Several calls at once -/

theorem beginEach_eq_play (m : Machine) (calls : List (String × List Value)) :
    ∃ moves, m.beginEach calls = m.play moves := by
  induction calls with
  | nil => exact ⟨[], rfl⟩
  | cons c rest ih =>
    obtain ⟨moves, hmoves⟩ := ih
    refine ⟨moves ++ [.begin c.1 c.2], ?_⟩
    rw [play_append, ← hmoves]
    rfl

theorem runEach_eq_play (turns : Nat) (m : Machine) : ∃ moves, runEach turns m = m.play moves := by
  induction turns generalizing m with
  | zero => exact ⟨[], rfl⟩
  | succ n ih =>
    rw [runEach]
    cases m.oldest? with
    | none => exact ⟨[], rfl⟩
    | some position =>
      obtain ⟨moves, hmoves⟩ := ih (m.advance position)
      exact ⟨.advance position :: moves, hmoves⟩

theorem takeEach_eq_play (m : Machine) (first n : Nat) :
    ∃ moves, (m.takeEach first n).2 = m.play moves := by
  induction n generalizing m with
  | zero => exact ⟨[], rfl⟩
  | succ n ih =>
    obtain ⟨moves, hmoves⟩ := ih (m.move (.forget (first + n)))
    exact ⟨.forget (first + n) :: moves, hmoves⟩

/-- Making several calls at once is one of the ways in which a machine can go on. -/
theorem callEach_eq_play (turns : Nat) (m : Machine) (calls : List (String × List Value)) :
    ∃ moves, (m.callEach turns calls).2 = m.play moves := by
  obtain ⟨begins, hbegins⟩ := m.beginEach_eq_play calls
  obtain ⟨turns', hturns⟩ := runEach_eq_play turns (m.play begins)
  obtain ⟨takes, htakes⟩ := ((m.play begins).play turns').takeEach_eq_play m.calls calls.length
  refine ⟨begins ++ (turns' ++ takes), ?_⟩
  rw [callEach, hbegins, hturns, htakes, play_append, play_append]

-- The first call loses the failure of its thread to the second one.
example : (rivals.callEach 30 [("starts", []), ("waits", [])]).1 =
    [some (.ok (.int 2026)),
      some (.error (.raised .divisionByZero ⟨"fails", 1, "DIV()"⟩ (some 2025)))] := rfl

end Machine
end Opstack
