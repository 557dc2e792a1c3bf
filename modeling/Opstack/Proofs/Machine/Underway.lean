import Opstack.Proofs.Machine.Staffing

/-!
# Calls under way

A call that has the machine to itself begins with an execution, which may start threads, and it
ends when all of them have ended.  `InProgress` is the invariant of a call until then, in whatever
order its tasks take turns:

* every thread that has not ended has one task, and so has the call itself (`hands`, `entry`), so
  that no execution is left when the call has been joined (`InProgress.eq_singleton`);
* the machine is halted exactly if a failure is recorded (`halted`);
* the recorded failure, and every failure still to be recorded while there is none, has a cause in
  the incidents of the call (`Failure.CausedBy`);
* an execution that failed by itself has its failure recorded or still to be recorded (`pending`).

`Underway` adds the two states behind the end of the last execution, in which the output has been
flushed and the answer has been given.  `Machine.Underway.follow` is the whole run of a call.
-/

set_option autoImplicit false

namespace Opstack

/-! ## Where failures come from -/

namespace Failure

variable {e : Failure} {call : Nat} {log log' : List Incident}

/-- The instruction that raised the failure and the thread that executed it are known. -/
def Located (e : Failure) : Prop := e.site.isSome = true ∧ e.thread.isSome = true

/-- A failure with a place keeps it wherever it is passed on. -/
theorem Located.inThread_atSite (h : e.Located) (site : Site) (thread : Option ThreadId) :
    (e.atSite site).inThread thread = e := by
  obtain ⟨fault, site', thread'⟩ := e
  obtain ⟨hsite, hthread⟩ := h
  obtain ⟨place, rfl⟩ := Option.isSome_iff_exists.mp hsite
  obtain ⟨id, rfl⟩ := Option.isSome_iff_exists.mp hthread
  rfl

theorem located_raised (fault : Fault) (site : Site) {thread : Option ThreadId}
    (h : thread.isSome = true) : (raised fault site thread).Located :=
  ⟨rfl, h⟩

/-- The failure has a cause in the incidents of a call: it arose there, or a thread of an earlier
call passed it on. -/
def CausedBy (e : Failure) (call : Nat) (log : List Incident) : Prop :=
  (∃ i ∈ log, i.own? = some e) ∨ ∃ thread c, c < call ∧ .passes thread c e ∈ log

theorem CausedBy.mono (h : e.CausedBy call log) (hlog : log ⊆ log') : e.CausedBy call log' := by
  rcases h with ⟨i, hi, he⟩ | ⟨thread, c, hc, hi⟩
  · exact .inl ⟨i, hlog hi, he⟩
  · exact .inr ⟨thread, c, hc, hlog hi⟩

end Failure

/-! ## What holds of each task and of each thread -/

/-- The second state has what is recorded in the first, and its threads. -/
structure Shared.Leads (s s' : Shared) : Prop where
  /-- The recorded failure is still recorded. -/
  failure : s'.failure = none → s.failure = none
  /-- No thread has been forgotten. -/
  threads : ∀ thread, (s.thread? thread).isSome = true → (s'.thread? thread).isSome = true

/-- A task of a call with these incidents before its last execution has ended. -/
def Task.Sound (call : Nat) (log : List Incident) (s : Shared) : Task → Prop
  | .running x => x.call = call
  | .waiting x thread site =>
    x.call = call ∧ x.lastSite? = some site ∧ (s.thread? thread).isSome = true
  | .failing thread c e =>
    c = call ∧ (s.failure = none → e.CausedBy call log) ∧ (thread.isSome = true → e.Located)
  | .joining c result => c = call ∧ (s.failure = none → ∃ v, result = .ok v)
  | .closing _ _ | .answered _ _ => False

/-- A failure that the task is about to record. -/
def Task.isFailing : Task → Bool
  | .failing _ _ _ => true
  | _ => false

/-- A thread of a call with these incidents or of an earlier one. -/
structure Thread.Sound (call : Nat) (log : List Incident) (s : Shared) (thread : ThreadId)
    (t : Thread) : Prop where
  /-- It was not started by a later call. -/
  call_le : t.call ≤ call
  /-- Only threads of this call have not ended. -/
  running : t.outcome.hasEnded = false → t.call = call
  /-- The place of its failure is known. -/
  located : ∀ e, t.outcome = .finished (.error e) → e.Located
  /-- If it failed in this call, then a failure is recorded. -/
  recorded : ∀ e, t.outcome = .finished (.error e) → t.call = call → s.failure ≠ none
  /-- If it crashed in this call, then that is one of the incidents. -/
  crashed : t.outcome = .crashed → t.call = call → .breaks (some thread) ∈ log

section

variable {call call' : Nat} {log log' : List Incident} {s s' : Shared} {t : Task} {r : Thread}
  {thread : ThreadId}

theorem Shared.SameBooks.leads (h : s.SameBooks s') : s.Leads s' where
  failure hnone := h.failure ▸ hnone
  threads thread hthread := by rwa [Shared.thread?_congr h.threads]

theorem Task.Sound.mono (h : t.Sound call log s) (hlog : log ⊆ log') (hs : s.Leads s') :
    t.Sound call log' s' := by
  cases t with
  | running x => exact h
  | waiting x thread site => exact ⟨h.1, h.2.1, hs.threads thread h.2.2⟩
  | failing thread c e => exact ⟨h.1, fun hnone => (h.2.1 (hs.failure hnone)).mono hlog, h.2.2⟩
  | joining c result => exact ⟨h.1, fun hnone => h.2 (hs.failure hnone)⟩
  | closing c result => exact h
  | answered c result => exact h

theorem Thread.Sound.mono (h : r.Sound call log s thread) (hlog : log ⊆ log')
    (hs : s'.failure = none → s.failure = none) : r.Sound call log' s' thread where
  call_le := h.call_le
  running := h.running
  located := h.located
  recorded e he hcall hnone := h.recorded e he hcall (hs hnone)
  crashed hc hcall := hlog (h.crashed hc hcall)

theorem Thread.sound_new (h : call = call') : Thread.Sound call' log s thread { call } where
  call_le := Nat.le_of_eq h
  running _ := h
  located e he := by cases he
  recorded e he := by cases he
  crashed hc := by cases hc

theorem Thread.Sound.finished (h : r.Sound call log s thread) (v : Value) :
    Thread.Sound call log' s' thread { r with outcome := .finished (.ok v) } where
  call_le := h.call_le
  running hr := by cases hr
  located e he := by cases he
  recorded e he := by cases he
  crashed hc := by cases hc

theorem Thread.Sound.failed {e : Failure} (h : r.Sound call log s thread) (he : e.Located)
    (hs : s'.failure ≠ none) :
    Thread.Sound call log' s' thread { r with outcome := .finished (.error e) } where
  call_le := h.call_le
  running hr := by cases hr
  located e' he' := by
    cases he'
    exact he
  recorded _ _ _ := hs
  crashed hc := by cases hc

theorem Thread.Sound.broken (h : r.Sound call log s thread)
    (hlog : .breaks (some thread) ∈ log') :
    Thread.Sound call log' s' thread { r with outcome := .crashed } where
  call_le := h.call_le
  running hr := by cases hr
  located e he := by cases he
  recorded e he := by cases he
  crashed _ _ := hlog

end

/-! ## The invariant -/

/-- A call with these incidents before its last execution has ended. -/
structure InProgress (call : Nat) (log : List Incident) (s : Shared) (tasks : List Task) :
    Prop where
  /-- All tasks are executions of the call. -/
  sound : ∀ t ∈ tasks, t.Sound call log s
  /-- All threads are of this call or of an earlier one. -/
  threads : ∀ thread r, s.thread? thread = some r → r.Sound call log s thread
  /-- A thread has one task until it has ended. -/
  hands : Task.Staffed s tasks
  /-- The call itself has one task, or none if its own execution crashed. -/
  entry_le : (tasks.map Task.thread).count none ≤ 1
  /-- The call itself has one task unless its own execution crashed. -/
  entry : .breaks none ∉ log → (tasks.map Task.thread).count none = 1
  /-- Every thread has a number. -/
  room : s.HasRoom
  /-- The machine is halted exactly if a failure is recorded. -/
  halted : s.isHalted = s.failure.isSome
  /-- The recorded failure has a cause. -/
  caused : ∀ e, s.failure = some e → e.CausedBy call log
  /-- If a failure has arisen, then one is recorded or will be. -/
  pending : (∃ i ∈ log, i.own?.isSome = true) →
    s.failure ≠ none ∨ ∃ t ∈ tasks, t.isFailing = true

theorem append_cons_eq_singleton {α : Type} {before after : List α} {a b : α}
    (h : before ++ a :: after = [b]) : before = [] ∧ a = b ∧ after = [] := by
  cases before with
  | nil =>
    cases h
    exact ⟨rfl, rfl, rfl⟩
  | cons c before => cases before <;> cases h

namespace InProgress

variable {call : Nat} {log : List Incident} {s s' : Shared} {before after tasks : List Task}
  {t : Task} {incident : Option Incident}

theorem log_subset (log : List Incident) (incident : Option Incident) :
    log ⊆ log ++ incident.toList :=
  List.subset_append_left _ _

theorem no_incident {P : Prop} (h : ∃ i ∈ (none : Option Incident).toList, i.own?.isSome = true) :
    P := by
  obtain ⟨i, hi, -⟩ := h
  cases hi

/-- What is recorded once a failure has been recorded has a cause. -/
theorem caused_of_fail {tasks : List Task} {e : Failure} (h : InProgress call log s tasks)
    (he : s.failure = none → e.CausedBy call log) (e' : Failure)
    (he' : (s.fail e).failure = some e') : e'.CausedBy call (log ++ incident.toList) := by
  have hlog := log_subset log incident
  rw [Shared.fail, Option.some.injEq] at he'
  cases hs : s.failure with
  | none =>
    rw [hs] at he'
    cases he'
    exact (he hs).mono hlog
  | some e₀ =>
    rw [hs] at he'
    cases he'
    exact (h.caused e₀ hs).mono hlog

theorem sound_of_append (h : InProgress call log s (before ++ t :: after)) :
    t.Sound call log s :=
  h.sound t (List.mem_append_right _ List.mem_cons_self)

/-- What is to be shown of a turn. -/
theorem of_turn (h : InProgress call log s (before ++ t :: after)) (hleads : s.Leads s')
    (htasks : ∀ u ∈ tasks, u.Sound call (log ++ incident.toList) s')
    (hthreads : ∀ thread r, s'.thread? thread = some r →
      r.Sound call (log ++ incident.toList) s' thread)
    (hhands : Task.Staffed s' (before ++ tasks ++ after))
    (hentry_le : (tasks.map Task.thread).count none ≤ [t.thread].count none)
    (hentry : incident ≠ some (.breaks none) →
      (tasks.map Task.thread).count none = [t.thread].count none)
    (hroom : s'.HasRoom) (hhalted : s'.isHalted = s'.failure.isSome)
    (hcaused : ∀ e, s'.failure = some e → e.CausedBy call (log ++ incident.toList))
    (hpending : t.isFailing = true ∨ (∃ i ∈ incident.toList, i.own?.isSome = true) →
      s'.failure ≠ none ∨ ∃ u ∈ tasks, u.isFailing = true) :
    InProgress call (log ++ incident.toList) s' (before ++ tasks ++ after) where
  sound := by
    have hsound := h.sound
    rw [List.forall_mem_append, List.forall_mem_cons] at hsound
    obtain ⟨hbefore, -, hafter⟩ := hsound
    have hlog := log_subset log incident
    refine List.forall_mem_append.mpr ⟨List.forall_mem_append.mpr ⟨?_, htasks⟩, ?_⟩
    · exact fun u hu => (hbefore u hu).mono hlog hleads
    · exact fun u hu => (hafter u hu).mono hlog hleads
  threads := hthreads
  hands := hhands
  entry_le := by
    have hold := h.entry_le
    simp only [List.map_append, List.map_cons, List.count_append, List.count_cons,
      List.count_nil] at hold hentry_le ⊢
    omega
  entry hlog := by
    rw [List.mem_append, not_or] at hlog
    have hold := h.entry hlog.1
    have hnew := hentry (by rintro rfl; exact hlog.2 (List.mem_singleton.mpr rfl))
    simp only [List.map_append, List.map_cons, List.count_append, List.count_cons,
      List.count_nil] at hold hnew ⊢
    omega
  room := hroom
  halted := hhalted
  caused := hcaused
  pending := by
    rintro ⟨i, hi, hown⟩
    -- Either the task or the incident is new, or what was to be recorded before still is.
    have hmem : ∀ u ∈ before ++ after, u ∈ before ++ tasks ++ after := fun u hu => by
      rcases List.mem_append.mp hu with hu | hu
      · exact List.mem_append_left _ (List.mem_append_left _ hu)
      · exact List.mem_append_right _ hu
    have hnew : t.isFailing = true ∨ (∃ i ∈ incident.toList, i.own?.isSome = true) →
        s'.failure ≠ none ∨ ∃ u ∈ before ++ tasks ++ after, u.isFailing = true := by
      intro hcase
      rcases hpending hcase with hfailure | ⟨u, hu, hfailing⟩
      · exact .inl hfailure
      · exact .inr ⟨u, List.mem_append_left _ (List.mem_append_right _ hu), hfailing⟩
    rcases List.mem_append.mp hi with hi | hi
    · rcases h.pending ⟨i, hi, hown⟩ with hfailure | ⟨u, hu, hfailing⟩
      · exact .inl fun hnone => hfailure (hleads.failure hnone)
      · rcases List.mem_append.mp hu with hu | hu
        · exact .inr ⟨u, hmem u (List.mem_append_left _ hu), hfailing⟩
        · rcases List.mem_cons.mp hu with rfl | hu
          · exact hnew (.inl hfailing)
          · exact .inr ⟨u, hmem u (List.mem_append_right _ hu), hfailing⟩
    · exact hnew (.inr ⟨i, hi, hown⟩)

/-- A turn that leaves the books as they are and the execution with its task. -/
theorem of_sameBooks (h : InProgress call log s (before ++ t :: after))
    (hbooks : s.SameBooks s') {u : Task} (hu : u.Sound call (log ++ incident.toList) s)
    (hthread : u.thread = t.thread) (hfailing : t.isFailing = false)
    (hown : (∃ i ∈ incident.toList, i.own?.isSome = true) → u.isFailing = true) :
    InProgress call (log ++ incident.toList) s' (before ++ [u] ++ after) := by
  have hlog := log_subset log incident
  have hnone : s'.failure = none → s.failure = none := hbooks.leads.failure
  have hhands := h.hands.of_same (Shared.isLive_congr hbooks.threads) hthread
  refine h.of_turn hbooks.leads ?_ (fun thread r hr => ?_) hhands ?_ (fun _ => ?_) ?_ ?_
    (fun e he => ?_) fun hcase => ?_
  · exact List.forall_mem_singleton.mpr (hu.mono (fun _ hi => hi) hbooks.leads)
  · rw [Shared.thread?_congr hbooks.threads] at hr
    exact (h.threads thread r hr).mono hlog hnone
  · exact Nat.le_of_eq (by rw [List.map_singleton, hthread])
  · rw [List.map_singleton, hthread]
  · rw [Shared.HasRoom, hbooks.threads]
    exact h.room
  · rw [hbooks.isHalted, hbooks.failure]
    exact h.halted
  · exact (h.caused e (hbooks.failure ▸ he)).mono hlog
  · rcases hcase with hcase | hcase
    · rw [hfailing] at hcase
      cases hcase
    · exact .inr ⟨u, List.mem_singleton.mpr rfl, hown hcase⟩

/-- A turn with which a thread ends, after a failure has been recorded or not. -/
theorem of_deliver (h : InProgress call log s (before ++ t :: after)) {thread : ThreadId}
    {outcome : Outcome} (hthread : t.thread = some thread) (hended : outcome.hasEnded = true)
    (hthreads : s'.threads = s.threads) (hfailure : s'.failure = none → s.failure = none)
    (hsound : ∀ r : Thread, r.Sound call log s thread →
      ({ r with outcome } : Thread).Sound call (log ++ incident.toList) s' thread)
    (hhalted : s'.isHalted = s'.failure.isSome)
    (hcaused : ∀ e, s'.failure = some e → e.CausedBy call (log ++ incident.toList))
    (hpending : t.isFailing = true ∨ (∃ i ∈ incident.toList, i.own?.isSome = true) →
      s'.failure ≠ none) :
    InProgress call (log ++ incident.toList) (s'.deliver thread outcome)
      (before ++ [] ++ after) := by
  have hdeliver : (s'.deliver thread outcome).failure = s'.failure :=
    s'.failure_modifyThread thread _
  have hfind : ∀ other, (s'.deliver thread outcome).thread? other =
      if other = thread then (s.thread? thread).map fun r => { r with outcome }
      else s.thread? other := fun other => by
    rw [Shared.thread?_deliver, Shared.thread?_congr hthreads, Shared.thread?_congr hthreads]
  refine h.of_turn ⟨fun hnone => hfailure (hdeliver ▸ hnone), fun other hother => ?_⟩
    (List.forall_mem_nil _) (fun other r hr => ?_) (h.hands.of_ended hthread hended hthreads)
    (Nat.zero_le _) (fun _ => ?_) ?_ ?_ (fun e he => hcaused e (hdeliver ▸ he)) fun hcase =>
      .inl (hdeliver ▸ hpending hcase)
  · rw [hfind]
    split
    · rename_i heq
      rw [Option.isSome_map, ← heq]
      exact hother
    · exact hother
  · rw [hfind] at hr
    split at hr
    · rename_i heq
      subst heq
      obtain ⟨r₀, hr₀, rfl⟩ := Option.map_eq_some_iff.mp hr
      exact (hsound r₀ (h.threads other r₀ hr₀)).mono (fun _ hi => hi) (hdeliver ▸ id)
    · exact (h.threads other r hr).mono (log_subset log incident) fun hnone =>
        hfailure (hdeliver ▸ hnone)
  · rw [hthread]
    rfl
  · rw [Shared.HasRoom, Shared.deliver, Shared.size_threads_modifyThread, hthreads]
    exact h.room
  · rw [hdeliver, Shared.deliver, Shared.isHalted_modifyThread]
    exact hhalted

/-- A turn with which a thread is started. -/
theorem of_spawn {x y child : Execution}
    (h : InProgress call log s (before ++ .running x :: after))
    (hroom : firstThread + s.threads.size < Nat.pow 2 63) (howner : x.SameOwner y)
    (hthread : child.thread = some (threadId s.threads.size)) (hcall : child.call = x.call) :
    InProgress call log (s.withThread x.call)
      (before ++ [.running child, .running y] ++ after) := by
  have hx : x.call = call := h.sound_of_append
  have hpush : (s.withThread x.call).threads = s.threads.push { call := x.call } := rfl
  have hfind := Shared.thread?_push hroom hpush
  have hturn : InProgress call (log ++ (none : Option Incident).toList) (s.withThread x.call)
      (before ++ [.running child, .running y] ++ after) := by
    refine h.of_turn ⟨id, fun other hother => ?_⟩ ?_ (fun other r hr => ?_)
      (h.hands.of_spawn hroom howner hthread) ?_ (fun _ => ?_) ?_ h.halted
      (fun e he => (h.caused e he).mono (log_subset log none)) fun hcase => ?_
    · rw [hfind]
      split
      · rfl
      · exact hother
    · exact List.forall_mem_cons.mpr ⟨hcall.trans hx, List.forall_mem_singleton.mpr
        (howner.2.trans hx)⟩
    · rw [hfind] at hr
      split at hr
      · cases hr
        exact Thread.sound_new hx
      · exact (h.threads other r hr).mono (log_subset log none) id
    · rw [List.map_cons, List.map_singleton, Task.thread, Task.thread, Task.thread, hthread,
        howner.1, List.count_cons]
      exact Nat.le_refl _
    · rw [List.map_cons, List.map_singleton, Task.thread, Task.thread, Task.thread, hthread,
        howner.1, List.count_cons]
      rfl
    · rw [Shared.HasRoom, hpush, Array.size_push]
      exact hroom
    · rcases hcase with hcase | ⟨i, hi, -⟩
      · cases hcase
      · cases hi
  rwa [Option.toList_none, List.append_nil] at hturn

/-- A turn with which the result of a thread is asked for. -/
theorem of_claim {x y : Execution} {thread : ThreadId} {r : Thread} {site : Site}
    (h : InProgress call log s (before ++ .running x :: after)) (hr : s.thread? thread = some r)
    (howner : x.SameOwner y) (hsite : y.lastSite? = some site) :
    InProgress call log (s.withClaim thread) (before ++ [.waiting y thread site] ++ after) := by
  have hx : x.call = call := h.sound_of_append
  have hfailure : (s.withClaim thread).failure = s.failure := s.failure_modifyThread thread _
  have hfind : ∀ other, (s.withClaim thread).thread? other =
      if other = thread then (s.thread? thread).map fun r => { r with isClaimed := true }
      else s.thread? other := s.thread?_modifyThread thread _
  have hthreads : ∀ other, (s.thread? other).isSome = true →
      ((s.withClaim thread).thread? other).isSome = true := fun other hother => by
    rw [hfind]
    split
    · rename_i heq
      rw [Option.isSome_map, ← heq]
      exact hother
    · exact hother
  have hturn : InProgress call (log ++ (none : Option Incident).toList) (s.withClaim thread)
      (before ++ [.waiting y thread site] ++ after) := by
    refine h.of_turn ⟨(hfailure ▸ ·), hthreads⟩ ?_ (fun other r hr => ?_)
      (h.hands.of_same (s.isLive_modifyThread thread _ fun _ => rfl) howner.1) ?_
      (fun _ => ?_) ?_ ?_ (fun e he => ?_) fun hcase => ?_
    · have hsome : (s.thread? thread).isSome = true := by rw [hr]; rfl
      exact List.forall_mem_singleton.mpr ⟨howner.2.trans hx, hsite, hthreads thread hsome⟩
    · rw [hfind] at hr
      split at hr
      · rename_i heq
        subst heq
        obtain ⟨r₀, hr₀, rfl⟩ := Option.map_eq_some_iff.mp hr
        have hr₀ := (h.threads other r₀ hr₀).mono (log_subset log none) (hfailure ▸ ·)
        exact ⟨hr₀.call_le, hr₀.running, hr₀.located, hr₀.recorded, hr₀.crashed⟩
      · exact (h.threads other r hr).mono (log_subset log none) (hfailure ▸ ·)
    · exact Nat.le_of_eq (by rw [List.map_singleton, Task.thread, Task.thread, howner.1])
    · rw [List.map_singleton, Task.thread, Task.thread, howner.1]
    · rw [Shared.HasRoom, Shared.withClaim, Shared.size_threads_modifyThread]
      exact h.room
    · rw [hfailure, Shared.withClaim, Shared.isHalted_modifyThread]
      exact h.halted
    · exact (h.caused e (hfailure ▸ he)).mono (log_subset log none)
    · rcases hcase with hcase | ⟨i, hi, -⟩
      · cases hcase
      · cases hi
  rwa [Option.toList_none, List.append_nil] at hturn

/-- **One turn**: the call is still in progress, unless it has just been joined. -/
theorem turn (h : InProgress call log s (before ++ t :: after))
    (hturn : t.Turns s s' tasks incident)
    (hjoin : ∀ c result, t = .joining c result → s.hasJoined c = false) :
    InProgress call (log ++ incident.toList) s' (before ++ tasks ++ after) := by
  have hlog := log_subset log incident
  have ht := h.sound_of_append
  cases hturn with
  | @runs s' x y hrun hbooks howner =>
    exact h.of_sameBooks hbooks (howner.2.trans ht) howner.1 rfl no_incident
  | spawns hrun hroom howner hthread hcall =>
    rw [Option.toList_none, List.append_nil]
    exact h.of_spawn hroom howner hthread hcall
  | asks hrun hr howner hsite =>
    rw [Option.toList_none, List.append_nil]
    exact h.of_claim hr howner hsite
  | @delivers x thread v hthread =>
    refine h.of_deliver hthread rfl rfl id (fun r hr => hr.finished v) h.halted
      (fun e he => (h.caused e he).mono hlog) ?_
    rintro (hfailing | hown)
    · cases hfailing
    · exact no_incident hown
  | @returns x v hthread =>
    exact h.of_sameBooks (.refl s) ⟨ht, fun _ => ⟨v, rfl⟩⟩ hthread.symm rfl no_incident
  | @stops x site hhalted hsite =>
    refine h.of_sameBooks (.refl s) ⟨ht, fun hnone => ?_, fun hthread => ?_⟩ rfl rfl fun _ => rfl
    · rw [h.halted, hnone] at hhalted
      cases hhalted
    · exact Failure.located_raised _ _ hthread
  | @raises s' x site fault hrun hbooks hsite hfault =>
    refine h.of_sameBooks hbooks ⟨ht, fun _ => .inl ?_, fun hthread => ?_⟩ rfl rfl fun _ => rfl
    · exact ⟨_, List.mem_append_right _ (List.mem_singleton.mpr rfl), rfl⟩
    · exact Failure.located_raised _ _ hthread
  | @breaks x thread hrun hthread =>
    have hbreaks : .breaks (some thread) ∈ log ++ [.breaks (some thread)] :=
      List.mem_append_right _ (List.mem_singleton.mpr rfl)
    refine h.of_deliver hthread rfl rfl id (fun r hr => hr.broken hbreaks) h.halted
      (fun e he => (h.caused e he).mono hlog) ?_
    rintro (hfailing | ⟨i, hi, hown⟩)
    · cases hfailing
    · cases List.mem_singleton.mp hi
      cases hown
  | @vanishes x hrun hthread =>
    refine h.of_turn ⟨id, fun _ => id⟩ (List.forall_mem_nil _)
      (fun thread r hr => (h.threads thread r hr).mono hlog id) (h.hands.of_none hthread)
      (Nat.zero_le _) (fun hne => absurd rfl hne) h.room h.halted
      (fun e he => (h.caused e he).mono hlog) ?_
    · rintro (hfailing | ⟨i, hi, hown⟩)
      · cases hfailing
      · cases List.mem_singleton.mp hi
        cases hown
  | waits _ => exact h.of_sameBooks (.refl s) (ht.mono hlog ⟨id, fun _ => id⟩) rfl rfl no_incident
  | wakes hr hv => exact h.of_sameBooks (.refl s) ht.1 rfl rfl no_incident
  | @passes x thread site r e hr he =>
    have hsound := h.threads thread r hr
    have hlocated := hsound.located e he
    rw [hlocated.inThread_atSite]
    refine h.of_sameBooks (.refl s) ⟨ht.1, fun hnone => .inr ?_, fun _ => hlocated⟩ rfl rfl ?_
    · -- If the thread were of this call, its failure would have been recorded.
      have hne : r.call ≠ call := fun hcall => hsound.recorded e he hcall hnone
      exact ⟨thread, r.call, Nat.lt_of_le_of_ne hsound.call_le hne,
        List.mem_append_right _ (List.mem_singleton.mpr rfl)⟩
    · exact fun _ => rfl
  | @misses x thread site r hr hcrashed =>
    obtain ⟨hcall, hsite, -⟩ := ht
    rw [hsite]
    refine h.of_sameBooks (.refl s) ⟨hcall, fun _ => .inl ?_, fun hthread => ?_⟩ rfl rfl
      fun _ => rfl
    · exact ⟨_, List.mem_append_right _ (List.mem_singleton.mpr rfl), rfl⟩
    · exact Failure.located_raised _ _ hthread
  | @records thread c e =>
    obtain ⟨hcall, hcaused, hlocated⟩ := ht
    have hrecorded : (s.fail e).failure ≠ none := fun hnone => by cases hnone
    exact h.of_deliver rfl rfl rfl (fun hnone => absurd hnone hrecorded)
      (fun r hr => hr.failed (hlocated rfl) hrecorded) rfl (h.caused_of_fail hcaused)
      fun _ => hrecorded
  | @admits c e =>
    obtain ⟨hcall, hcaused, hlocated⟩ := ht
    have hrecorded : (s.fail e).failure ≠ none := fun hnone => by cases hnone
    have hleads : s.Leads (s.fail e) := ⟨fun hnone => absurd hnone hrecorded, fun _ => id⟩
    have hsound : (Task.joining c (.error e)).Sound call (log ++ (none : Option Incident).toList)
        (s.fail e) := ⟨hcall, fun hnone => absurd hnone hrecorded⟩
    exact h.of_turn hleads (List.forall_mem_singleton.mpr hsound)
      (fun thread r hr => (h.threads thread r hr).mono hlog hleads.failure)
      (h.hands.of_same (fun _ => rfl) rfl) (Nat.le_refl _) (fun _ => rfl) h.room rfl
      (h.caused_of_fail hcaused) fun _ => .inl hrecorded
  | @joins c result hjoined =>
    rw [hjoin c result rfl] at hjoined
    cases hjoined
  | pauses _ => exact h.of_sameBooks (.refl s) (ht.mono hlog ⟨id, fun _ => id⟩) rfl rfl no_incident
  | closes => exact ht.elim
  | rests => exact ht.elim

/-- **When a call has been joined, none of its executions is left.** -/
theorem eq_singleton (h : InProgress call log s (before ++ t :: after))
    (hthread : t.thread = none) (hjoined : s.hasJoined call = true) :
    before = [] ∧ after = [] := by
  have hnone : before ++ after = [] := by
    refine List.eq_nil_iff_forall_not_mem.mpr fun u hu => ?_
    cases hu' : u.thread with
    | none =>
      -- The call itself would have two tasks.
      have htwo := Task.two_le_count hthread hu hu'
      exact absurd htwo (Nat.not_le_of_lt (Nat.lt_succ_of_le h.entry_le))
    | some thread =>
      -- The task would be one of a thread that has not ended.
      have hlive := h.hands.isLive (Task.mem_of_mem hu) hu'
      obtain ⟨r, hr, hended⟩ := Shared.isLive_eq_true.mp hlive
      have hcall := (h.threads thread r hr).running hended
      rw [(Shared.hasJoined_iff h.room).mp hjoined thread r hr hcall] at hended
      cases hended
  exact List.append_eq_nil_iff.mp hnone

end InProgress

/-! ## The end of a call -/

/-- All threads have ended, and so have the calls that they were started in, of which there have
been so many. -/
structure Shared.Settled (s : Shared) (calls : Nat) : Prop where
  /-- Every thread has a number. -/
  room : s.HasRoom
  /-- The threads were started in these calls. -/
  call_lt : ∀ thread r, s.thread? thread = some r → r.call < calls
  /-- The threads have ended. -/
  ended : ∀ thread r, s.thread? thread = some r → r.outcome.hasEnded = true
  /-- The places of their failures are known. -/
  located : ∀ thread r e, s.thread? thread = some r → r.outcome = .finished (.error e) → e.Located

/-- The answer accords with the incidents of the call. -/
structure Accords (call : Nat) (log : List Incident) (answer : Except Failure Value) : Prop where
  /-- A failure has a cause in the call, or arose when the output was flushed or because a thread
  crashed. -/
  cause : ∀ e, answer = .error e → e.CausedBy call log ∨
    (∃ reason, .refuses reason ∈ log ∧ e = { fault := .io reason }) ∨
    ∃ thread, .breaks (some thread) ∈ log
  /-- If an execution failed by itself, the answer is a failure with a cause in the call. -/
  failed : (∃ i ∈ log, i.own?.isSome = true) → ∃ e, answer = .error e ∧ e.CausedBy call log

section

variable {call calls : Nat} {log : List Incident} {s s' : Shared}

theorem Shared.Settled.congr (h : s.Settled calls) (hthreads : s'.threads = s.threads) :
    s'.Settled calls where
  room := by
    rw [HasRoom, hthreads]
    exact h.room
  call_lt thread r hr := h.call_lt thread r (thread?_congr hthreads thread ▸ hr)
  ended thread r hr := h.ended thread r (thread?_congr hthreads thread ▸ hr)
  located thread r e hr := h.located thread r e (thread?_congr hthreads thread ▸ hr)

theorem Shared.Settled.isLive_eq_false (h : s.Settled calls) (thread : ThreadId) :
    s.isLive thread = false := by
  cases hlive : s.isLive thread with
  | false => rfl
  | true =>
    obtain ⟨r, hr, hended⟩ := isLive_eq_true.mp hlive
    rw [h.ended thread r hr] at hended
    cases hended

/-- The threads of earlier calls. -/
theorem Shared.Settled.sound (h : s.Settled calls) (log : List Incident) {thread : ThreadId}
    {r : Thread} (hr : s.thread? thread = some r) : r.Sound calls log s thread where
  call_le := Nat.le_of_lt (h.call_lt thread r hr)
  running hended := by
    rw [h.ended thread r hr] at hended
    cases hended
  located e he := h.located thread r e hr he
  recorded _ _ hcall := absurd hcall (Nat.ne_of_lt (h.call_lt thread r hr))
  crashed _ hcall := absurd hcall (Nat.ne_of_lt (h.call_lt thread r hr))

/-- A call begins with one task, which may be about to record that there is no such routine. -/
theorem Shared.Settled.inProgress (h : s.Settled calls) (hfailure : s.failure = none)
    (hrunning : s.isHalted = false) {t : Task} (hthread : t.thread = none)
    (ht : t.Sound calls log s)
    (hown : (∃ i ∈ log, i.own?.isSome = true) → t.isFailing = true) :
    InProgress calls log s [t] where
  sound := List.forall_mem_singleton.mpr ht
  threads thread r hr := h.sound log hr
  hands thread := by
    rw [List.map_singleton, hthread, h.isLive_eq_false]
    rfl
  entry_le := by
    rw [List.map_singleton, hthread]
    exact Nat.le_refl _
  entry _ := by
    rw [List.map_singleton, hthread]
    rfl
  room := h.room
  halted := by
    rw [hrunning, hfailure]
    rfl
  caused e he := by
    rw [hfailure] at he
    cases he
  pending hlog := .inr ⟨t, List.mem_singleton.mpr rfl, hown hlog⟩

/-- A call whose execution crashes before its first instruction has no task. -/
theorem Shared.Settled.inProgress_of_crash (h : s.Settled calls) (hfailure : s.failure = none)
    (hrunning : s.isHalted = false) : InProgress calls [.breaks none] s [] where
  sound := List.forall_mem_nil _
  threads thread r hr := h.sound _ hr
  hands thread := by
    rw [h.isLive_eq_false]
    rfl
  entry_le := Nat.zero_le _
  entry hlog := absurd (List.mem_singleton.mpr rfl) hlog
  room := h.room
  halted := by
    rw [hrunning, hfailure]
    rfl
  caused e he := by
    rw [hfailure] at he
    cases he
  pending := by
    rintro ⟨i, hi, hown⟩
    cases List.mem_singleton.mp hi
    cases hown

namespace Task

/-- The failures of threads that crashed do not replace one that is recorded. -/
theorem failure_foldl_fail {e : Failure} (threads : List ThreadId) (h : s.failure = some e) :
    (threads.foldl (fun s t => s.fail (crashFailure t)) s).failure = some e := by
  induction threads generalizing s with
  | nil => exact h
  | cons t threads ih => exact ih (by simp only [Shared.fail, h, Option.getD_some])

/-- The end of the last execution does not replace a recorded failure. -/
theorem failure_join_of_some {e : Failure} (h : s.failure = some e) (call : Nat) :
    (join s call).failure = some e := by
  have hfold := failure_foldl_fail (s.crashed call) h
  unfold join
  dsimp only
  split
  · exact hfold
  · rw [Shared.fail, hfold]
    rfl

theorem failure_of_join_eq_none (h : (join s call).failure = none) : s.failure = none := by
  cases hs : s.failure with
  | none => rfl
  | some e =>
    rw [failure_join_of_some hs] at h
    cases h

theorem failure_join_of_none (h : s.failure = none) (hcrashed : s.crashed call = []) :
    (join s call).failure =
      (s.console.flushLimit s.console.flushes).map fun reason =>
        { fault := .io reason } := by
  simp only [join, hcrashed, List.foldl_nil, Console.flush]
  cases s.console.flushLimit s.console.flushes with
  | none => exact h
  | some reason => simp only [Shared.fail, h, Option.getD_none, Option.map_some]

end Task

/-- When the call has been joined, all threads have ended. -/
theorem InProgress.settled {tasks : List Task} (h : InProgress call log s tasks)
    (hjoined : s.hasJoined call = true) : s.Settled (call + 1) where
  room := h.room
  call_lt thread r hr := Nat.lt_succ_of_le (h.threads thread r hr).call_le
  ended thread r hr := by
    cases hended : r.outcome.hasEnded with
    | true => rfl
    | false =>
      have hcall := (h.threads thread r hr).running hended
      rw [(Shared.hasJoined_iff h.room).mp hjoined thread r hr hcall] at hended
      cases hended
  located thread r e hr := (h.threads thread r hr).located e

/-- **The answer that a call will give when it has been joined** accords with its incidents. -/
theorem InProgress.accords {result : Except Failure Value}
    (h : InProgress call log s [.joining call result]) :
    Accords call
      (log ++ ((s.console.flushLimit s.console.flushes).map Incident.refuses).toList)
      (Task.answer (Task.join s call).failure result) := by
  generalize hrefusal : s.console.flushLimit s.console.flushes = refusal
  have hlog : log ⊆ log ++ (refusal.map Incident.refuses).toList := List.subset_append_left _ _
  cases hs : s.failure with
  | some e =>
    rw [Task.failure_join_of_some hs, Task.answer]
    have hcaused := (h.caused e hs).mono hlog
    refine ⟨fun e' he' => ?_, fun _ => ⟨e, rfl, hcaused⟩⟩
    cases he'
    exact .inl hcaused
  | none =>
    constructor
    · intro e he
      by_cases hbreaks : ∃ thread, .breaks (some thread) ∈ log
      · obtain ⟨thread, hbreaks⟩ := hbreaks
        exact .inr (.inr ⟨thread, hlog hbreaks⟩)
      · have hcrashed : s.crashed call = [] := Shared.crashed_eq_nil fun r hr hcall hcrashed => by
          obtain ⟨thread, hthread⟩ := h.room.exists_thread? hr
          exact hbreaks ⟨thread, (h.threads thread r hthread).crashed hcrashed hcall⟩
        rw [Task.failure_join_of_none hs hcrashed, hrefusal] at he
        cases refusal with
        | none =>
          obtain ⟨-, hok⟩ := h.sound _ (List.mem_singleton.mpr rfl)
          obtain ⟨v, rfl⟩ := hok hs
          cases he
        | some reason =>
          cases he
          exact .inr (.inl ⟨reason, List.mem_append_right _ (List.mem_singleton.mpr rfl), rfl⟩)
    · rintro ⟨i, hi, hown⟩
      rcases List.mem_append.mp hi with hi | hi
      · -- Nothing is left that could record the failure, and none is recorded.
        rcases h.pending ⟨i, hi, hown⟩ with hne | ⟨t, ht, hfailing⟩
        · exact absurd hs hne
        · cases List.mem_singleton.mp ht
          cases hfailing
      · obtain ⟨reason, -, rfl⟩ := Option.map_eq_some_iff.mp (Option.mem_toList.mp hi)
        cases hown

end

/-! ## The whole call -/

namespace Machine

/-- A call with these incidents, from its beginning to its answer. -/
inductive Underway (call : Nat) (log : List Incident) (m : Machine) : Prop
  | inProgress (h : InProgress call log m.shared m.tasks)
  | closing {result : Except Failure Value} (htasks : m.tasks = [.closing call result])
      (hsettled : m.shared.Settled (call + 1))
      (hresult : m.shared.failure = none → ∃ v, result = .ok v)
      (haccords : Accords call log (Task.answer m.shared.failure result))
  | answered {result : Except Failure Value} (htasks : m.tasks = [.answered call result])
      (hsettled : m.shared.Settled (call + 1)) (hfailure : m.shared.failure = none)
      (hrunning : m.shared.isHalted = false) (haccords : Accords call log result)

section

variable {call : Nat} {log : List Incident} {m m' : Machine} {incident : Option Incident}

theorem Underway.advance (h : m.Underway call log) (hadvance : m.Advances m' incident) :
    m'.Underway call (log ++ incident.toList) := by
  cases hadvance with
  | idle =>
    rw [Option.toList_none, List.append_nil]
    exact h
  | @turn before after tasks t s' _ htasks hturn =>
    cases h with
    | inProgress h =>
      rw [htasks] at h
      by_cases hjoin : ∀ c result, t = .joining c result → m.shared.hasJoined c = false
      · exact .inProgress (h.turn hturn hjoin)
      · simp only [Classical.not_forall, Bool.not_eq_false] at hjoin
        obtain ⟨c, result, rfl, hjoined⟩ := hjoin
        obtain ⟨rfl, -⟩ := h.sound_of_append
        obtain ⟨rfl, rfl⟩ := h.eq_singleton rfl hjoined
        cases hturn with
        | joins _ =>
          obtain ⟨-, hresult⟩ := h.sound_of_append
          exact .closing rfl ((h.settled hjoined).congr (Task.threads_join _ _))
            (fun hnone => hresult (Task.failure_of_join_eq_none hnone)) h.accords
        | pauses hnot =>
          rw [hjoined] at hnot
          cases hnot
    | closing hclosing hsettled _ haccords =>
      obtain ⟨rfl, rfl, rfl⟩ := append_cons_eq_singleton (htasks.symm.trans hclosing)
      cases hturn with
      | closes =>
        rw [Option.toList_none, List.append_nil]
        exact .answered rfl (hsettled.congr rfl) rfl rfl haccords
    | answered hanswered hsettled hfailure hrunning haccords =>
      obtain ⟨rfl, rfl, rfl⟩ := append_cons_eq_singleton (htasks.symm.trans hanswered)
      cases hturn with
      | rests =>
        rw [Option.toList_none, List.append_nil]
        exact .answered rfl hsettled hfailure hrunning haccords

/-- **A call under way stays so in whatever order its tasks take turns.** -/
theorem Underway.follow (h : m.Underway call log) (order : List Nat) :
    (m.follow order).Underway call (log ++ m.incidents order) := by
  induction order generalizing m log with
  | nil =>
    rw [incidents, List.append_nil]
    exact h
  | cons position order ih =>
    rw [incidents, ← List.append_assoc]
    exact ih (h.advance (m.advances position))

theorem calls_follow (m : Machine) (order : List Nat) : (m.follow order).calls = m.calls := by
  induction order generalizing m with
  | nil => rfl
  | cons position order ih => exact ih (m.advance position)

/-! ### The beginning -/

/-- Nothing is under way, no failure is recorded, and all threads belong to earlier calls and have
ended. -/
structure AtRest (m : Machine) : Prop where
  /-- Nothing is under way. -/
  tasks : m.tasks = []
  /-- No failure is recorded. -/
  failure : m.shared.failure = none
  /-- The machine is not halted. -/
  running : m.shared.isHalted = false
  /-- The threads have ended. -/
  settled : m.shared.Settled m.calls

/-- The incident with which a call begins if its routine does not exist, or if the host has no room
for the stacks of its execution. -/
def entryIncident? (m : Machine) (name : String) : Option Incident :=
  match m.shared.find? name with
  | none => some (.misses name)
  | some _ => if m.shared.config.roomForStacks then none else some (.breaks none)

/-- The incidents of a call whose tasks take turns in a given order. -/
def callIncidents (m : Machine) (name : String) (args : List Value) (order : List Nat) :
    List Incident :=
  (m.entryIncident? name).toList ++ (m.begin name args).incidents order

/-- The machine in a call whose tasks have taken turns in a given order. -/
def during (m : Machine) (name : String) (args : List Value) (order : List Nat) : Machine :=
  (m.begin name args).follow order

theorem AtRest.begin (h : m.AtRest) (name : String) (args : List Value) :
    (m.begin name args).Underway m.calls (m.entryIncident? name).toList := by
  refine .inProgress ?_
  rw [Machine.begin, h.tasks, List.append_nil, entryIncident?]
  rcases entry_cases m.shared m.calls name args with ⟨routine, hfind, hroom, hentry⟩ |
    ⟨⟨routine, hfind⟩, hroom, hentry⟩ | ⟨hfind, hentry⟩ <;> rw [hentry, hfind]
  · simp only [hroom, if_true]
    refine h.settled.inProgress h.failure h.running rfl rfl ?_
    rintro ⟨i, hi, -⟩
    cases hi
  · simp only [hroom]
    exact h.settled.inProgress_of_crash h.failure h.running
  · have hmisses : Incident.misses name ∈ [Incident.misses name] := List.mem_singleton.mpr rfl
    refine h.settled.inProgress h.failure h.running rfl ⟨rfl, fun _ => ?_, fun hthread => ?_⟩
      fun _ => rfl
    · exact .inl ⟨_, hmisses, rfl⟩
    · cases hthread

/-- **A call of a machine at rest** is under way in whatever order its tasks take turns. -/
theorem AtRest.during (h : m.AtRest) (name : String) (args : List Value) (order : List Nat) :
    (m.during name args order).Underway m.calls (m.callIncidents name args order) :=
  (h.begin name args).follow order

end
end Machine
end Opstack
