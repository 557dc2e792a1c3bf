import Mathlib.Data.List.Basic
import Opstack.Proofs.Machine.News
import Opstack.Proofs.Machine.Overlap

/-!
# The result of a thread is delivered once

The news of a session (`Machine.log`) are told one after another, and each of them follows from
those before (`News.Follows`): threads are numbered in the order in which they begin, the first
execution that asks for a thread waits for it and all others are refused, a thread ends once, and
what it has ended with is told once, to the execution that has asked for it.

* `Chronicles` says that the table of threads and the tasks are what the news say, and
  `Chronicles.turn` that it stays so with a turn.
* `Machine.Delivers` adds what the next turn does at `THREAD` and at `WAIT`, at the end of a thread,
  and when an execution has waited for one that has ended.
* `Machine.delivered_of_live` is the whole statement, for every session of a new machine.
-/

set_option autoImplicit false

namespace Opstack

/-! ## Logs -/

namespace News

/-- A thread begins. -/
def isStart : News → Bool
  | .starts _ _ => true
  | _ => false

/-- Who asks for the thread and is not refused. -/
def asker? (thread : ThreadId) : News → Option Owner
  | .asks owner other none => if other = thread then some owner else none
  | _ => none

/-- Who is told the result of the thread. -/
def listener? (thread : ThreadId) : News → Option Owner
  | .tells owner other _ => if other = thread then some owner else none
  | _ => none

/-- A thread with this number has begun. -/
def Started (thread : ThreadId) (log : List News) : Prop :=
  ∃ child, .starts (.int thread) child ∈ log

/-- The thread has been asked for since it began. -/
def Asked (thread : ThreadId) (log : List News) : Prop :=
  ∃ past owner refusal later, log = past ++ .asks owner thread refusal :: later ∧
    Started thread past

/-- The news follow from those before. -/
def Follows (before : List News) : News → Prop
  | .starts number child =>
    number = .int (threadId (before.countP isStart)) ∧
      child = some (threadId (before.countP isStart))
  | .asks _ thread refusal =>
    (¬ Started thread before ∧ refusal = some (.unknownThread thread)) ∨
      (Started thread before ∧ ¬ Asked thread before ∧ refusal = none) ∨
      Started thread before ∧ Asked thread before ∧ refusal = some (.alreadyJoined thread)
  | .ends thread _ => Started thread before ∧ ∀ outcome, .ends thread outcome ∉ before
  | .tells owner thread result =>
    .asks owner thread none ∈ before ∧ (∀ other earlier, .tells other thread earlier ∉ before) ∧
      ∃ outcome, .ends thread outcome ∈ before ∧ outcome.Tells owner thread result

variable {log : List News} {news : Option News} {thread : ThreadId} {owner : Owner}

theorem split_concat {before after : List News} {first last : News}
    (h : log ++ [last] = before ++ first :: after) :
    (∃ later, log = before ++ first :: later) ∨ log = before ∧ last = first := by
  rcases List.eq_nil_or_concat after with rfl | ⟨later, other, rfl⟩
  · obtain ⟨rfl, hlast⟩ := List.append_inj' h rfl
    exact .inr ⟨rfl, List.head_eq_of_cons_eq hlast⟩
  · rw [List.concat_eq_append, ← List.cons_append, ← List.append_assoc] at h
    exact .inl ⟨later, (List.append_inj' h rfl).1⟩

/-- What holds of all news and of one more. -/
theorem forall_concat {P : List News → News → Prop}
    (h : ∀ before first after, log = before ++ first :: after → P before first)
    (hnews : ∀ last, news = some last → P log last) (before : List News) (first : News)
    (after : List News) (heq : log ++ news.toList = before ++ first :: after) : P before first := by
  cases news with
  | none =>
    rw [Option.toList_none, List.append_nil] at heq
    exact h before first after heq
  | some last =>
    rcases split_concat heq with ⟨later, hlater⟩ | ⟨rfl, rfl⟩
    · exact h before first later hlater
    · exact hnews _ rfl

theorem started_concat : Started thread (log ++ news.toList) ↔
    Started thread log ∨ ∃ child, news = some (.starts (.int thread) child) := by
  simp only [Started, List.mem_append, Option.mem_toList, exists_or]

theorem asked_concat : Asked thread (log ++ news.toList) ↔
    Asked thread log ∨
      Started thread log ∧ ∃ owner refusal, news = some (.asks owner thread refusal) := by
  constructor
  · rintro ⟨past, owner, refusal, later, heq, hstarted⟩
    cases news with
    | none =>
      rw [Option.toList_none, List.append_nil] at heq
      exact .inl ⟨past, owner, refusal, later, heq, hstarted⟩
    | some last =>
      rcases split_concat heq with ⟨later, hlater⟩ | ⟨rfl, rfl⟩
      · exact .inl ⟨past, owner, refusal, later, hlater, hstarted⟩
      · exact .inr ⟨hstarted, owner, refusal, rfl⟩
  · rintro (⟨past, owner, refusal, later, rfl, hstarted⟩ | ⟨hstarted, owner, refusal, rfl⟩)
    · exact ⟨past, owner, refusal, later ++ news.toList, by simp, hstarted⟩
    · exact ⟨log, owner, refusal, [], rfl, hstarted⟩

theorem filterMap_concat (f : News → Option Owner) :
    (log ++ news.toList).filterMap f = log.filterMap f ++ (news.bind f).toList := by
  cases news with
  | none => rw [Option.toList_none, List.append_nil, Option.bind_none, Option.toList_none,
      List.append_nil]
  | some last =>
    rw [List.filterMap_append, Option.toList_some, Option.bind_some]
    cases h : f last with
    | none => rw [List.filterMap_cons_none h, List.filterMap_nil, Option.toList_none]
    | some owner => rw [List.filterMap_cons_some h, List.filterMap_nil, Option.toList_some]

theorem mem_of_asker? (h : owner ∈ log.filterMap (asker? thread)) :
    .asks owner thread none ∈ log := by
  obtain ⟨news, hmem, hnews⟩ := List.mem_filterMap.mp h
  match news with
  | .asks owner' other none =>
    rw [asker?] at hnews
    split at hnews
    · rename_i hother
      cases hnews
      exact hother ▸ hmem
    · cases hnews
  | .asks _ _ (some _) | .starts _ _ | .ends _ _ | .tells _ _ _ => cases hnews

theorem exists_of_listener? (h : owner ∈ log.filterMap (listener? thread)) :
    ∃ result, .tells owner thread result ∈ log := by
  obtain ⟨news, hmem, hnews⟩ := List.mem_filterMap.mp h
  match news with
  | .tells owner' other result =>
    rw [listener?] at hnews
    split at hnews
    · rename_i hother
      cases hnews
      exact ⟨result, hother ▸ hmem⟩
    · cases hnews
  | .asks _ _ _ | .starts _ _ | .ends _ _ => cases hnews

end News

theorem Task.exists_of_waiters {owner : Owner} {thread : ThreadId} {tasks : List Task}
    (h : owner ∈ waiters thread tasks) :
    ∃ x site, .waiting x thread site ∈ tasks ∧ x.owner = owner := by
  obtain ⟨t, hmem, ht⟩ := List.mem_filterMap.mp h
  match t with
  | .waiting x other site =>
    rw [waiter?] at ht
    split at ht
    · rename_i hother
      cases ht
      exact ⟨x, site, hother ▸ hmem, rfl⟩
    · cases ht
  | .running _ | .failing _ _ _ | .joining _ _ | .closing _ _ | .answered _ _ => cases ht

/-! ## What the table of threads says -/

namespace Shared

variable {s s' : Shared} {thread other : ThreadId} {f : Thread → Thread} {call : Nat}

/-- The thread has been asked for. -/
def isClaimed (s : Shared) (thread : ThreadId) : Bool := (s.thread? thread).any Thread.isClaimed

theorem isClaimed_eq {r : Thread} (hr : s.thread? thread = some r) :
    s.isClaimed thread = r.isClaimed := by
  rw [isClaimed, hr]
  rfl

theorem isClaimed_congr (h : s'.threads = s.threads) :
    s'.isClaimed thread = s.isClaimed thread := by
  rw [isClaimed, isClaimed, thread?_congr h]

theorem outcomeOf_congr (h : s'.threads = s.threads) :
    s'.outcomeOf thread = s.outcomeOf thread := by
  rw [outcomeOf, outcomeOf, thread?_congr h]

theorem isSome_thread?_modifyThread :
    ((s.modifyThread other f).thread? thread).isSome = (s.thread? thread).isSome := by
  rw [thread?_modifyThread]
  split
  · rename_i h
    rw [h, Option.isSome_map]
  · rfl

theorem isClaimed_deliver (outcome : Outcome) :
    (s.deliver other outcome).isClaimed thread = s.isClaimed thread := by
  rw [isClaimed, isClaimed, thread?_deliver]
  split
  · rename_i h
    rw [h]
    cases s.thread? other <;> rfl
  · rfl

/-- Who asks for a thread leaves the others as they are. -/
theorem isClaimed_withClaim {r : Thread} (hr : s.thread? other = some r) :
    (s.withClaim other).isClaimed thread = (s.isClaimed thread || thread == other) := by
  rw [isClaimed, isClaimed, withClaim, thread?_modifyThread]
  by_cases h : thread = other
  · rw [if_pos h, hr, beq_iff_eq.mpr h, Bool.or_true]
    rfl
  · rw [if_neg h, beq_eq_false_iff_ne.mpr h, Bool.or_false]

theorem outcomeOf_withClaim : (s.withClaim other).outcomeOf thread = s.outcomeOf thread := by
  rw [outcomeOf, outcomeOf, withClaim, thread?_modifyThread]
  by_cases h : thread = other
  · rw [if_pos h, h]
    cases s.thread? other <;> rfl
  · rw [if_neg h]

theorem outcomeOf_deliver {outcome : Outcome} (h : s.isLive other = true) :
    (s.deliver other outcome).outcomeOf thread =
      if thread = other then outcome else s.outcomeOf thread := by
  obtain ⟨r, hr, -⟩ := isLive_eq_true.mp h
  rw [outcomeOf, outcomeOf, thread?_deliver, hr]
  by_cases hthread : thread = other
  · rw [if_pos hthread, if_pos hthread]
    rfl
  · rw [if_neg hthread, if_neg hthread]

/-- A new thread has not ended, and has not been asked for. -/
theorem thread?_withThread (hroom : firstThread + s.threads.size < Nat.pow 2 63) :
    (s.withThread call).thread? thread =
      if thread = threadId s.threads.size then some { call } else s.thread? thread :=
  thread?_push hroom rfl thread

theorem isClaimed_withThread (hroom : firstThread + s.threads.size < Nat.pow 2 63) :
    (s.withThread call).isClaimed thread = s.isClaimed thread := by
  rw [isClaimed, isClaimed, thread?_withThread hroom]
  split
  · rename_i h
    rw [h, thread?_next hroom]
    rfl
  · rfl

theorem outcomeOf_withThread (hroom : firstThread + s.threads.size < Nat.pow 2 63) :
    (s.withThread call).outcomeOf thread = s.outcomeOf thread := by
  rw [outcomeOf, outcomeOf, thread?_withThread hroom]
  by_cases h : thread = threadId s.threads.size
  · rw [if_pos h, h, thread?_next hroom]
  · rw [if_neg h]

end Shared

/-! ## The table and the tasks are what the news say -/

open Opstack.Task (waiters)
open Opstack.News (Started Asked Follows asker? listener?)

/-- The table of threads and the tasks are what the news say. -/
structure Chronicles (s : Shared) (tasks : List Task) (log : List News) : Prop where
  /-- The table has an entry for each thread that has begun. -/
  count : log.countP News.isStart = s.threads.size
  /-- The threads in the table are those that have begun. -/
  started : ∀ thread, Started thread log ↔ (s.thread? thread).isSome = true
  /-- The threads that have been asked for are marked. -/
  asked : ∀ thread, Asked thread log ↔ s.isClaimed thread = true
  /-- The table has what the threads have ended with. -/
  ended : ∀ thread outcome, .ends thread outcome ∈ log ↔
    outcome.hasEnded = true ∧ s.outcomeOf thread = outcome
  /-- Who has asked for a thread has been told its result, or waits for it. -/
  owed : ∀ thread, log.filterMap (asker? thread) =
    log.filterMap (listener? thread) ++ waiters thread tasks
  /-- One execution has asked for a thread that is marked. -/
  single : ∀ thread, (log.filterMap (asker? thread)).length = (s.isClaimed thread).toNat
  /-- All news follow from those before. -/
  follows : ∀ before news after, log = before ++ news :: after → news.Follows before

namespace Chronicles

variable {s s' : Shared} {before after tasks : List Task} {t : Task} {log : List News}
  {news : Option News}

theorem waiters_append (thread : ThreadId) (before tasks after : List Task) :
    waiters thread (before ++ tasks ++ after) =
      waiters thread before ++ waiters thread tasks ++ waiters thread after := by
  rw [waiters, List.filterMap_append, List.filterMap_append]
  rfl

/-- Nobody has been told the result of a thread that somebody waits for, and nobody else waits. -/
theorem eq_nil_of_waiter (h : Chronicles s (before ++ t :: after) log) {thread : ThreadId}
    {owner : Owner} (ht : waiters thread [t] = [owner]) :
    log.filterMap (listener? thread) = [] ∧ waiters thread before = [] ∧
      waiters thread after = [] := by
  have howed := h.owed thread
  have hsingle := h.single thread
  have hle := Bool.toNat_le (s.isClaimed thread)
  rw [List.append_cons, waiters_append, ht] at howed
  rw [howed] at hsingle
  simp only [List.length_append, List.length_singleton] at hsingle
  refine ⟨?_, ?_, ?_⟩ <;> refine List.eq_nil_of_length_eq_zero ?_ <;> omega

/-- A thread that goes on has not ended before. -/
theorem not_ended_of_isLive (h : Chronicles s tasks log) {thread : ThreadId}
    (hlive : s.isLive thread = true) (outcome : Outcome) : .ends thread outcome ∉ log := by
  intro hmem
  obtain ⟨r, hr, hrunning⟩ := Shared.isLive_eq_true.mp hlive
  obtain ⟨hended, houtcome⟩ := (h.ended thread outcome).mp hmem
  rw [← houtcome, Shared.outcomeOf_eq hr, hrunning] at hended
  cases hended

theorem count_turn (h : Chronicles s (before ++ t :: after) log)
    (hreports : t.Reports s s' tasks news) :
    (log ++ news.toList).countP News.isStart = s'.threads.size := by
  rw [List.countP_append, h.count]
  cases hreports with
  | silent hthreads _ | unknown hthreads _ | joined hthreads _ _ =>
    exact congrArg Array.size hthreads.symm
  | starts _ =>
    rw [Shared.withThread, Array.size_push]
    rfl
  | accepted _ _ _ => exact (s.size_threads_modifyThread _ _).symm
  | ends _ _ hthreads _ =>
    rw [← hthreads]
    exact (Shared.size_threads_modifyThread _ _ _).symm
  | tells _ _ _ => rfl

theorem started_turn (h : Chronicles s (before ++ t :: after) log)
    (hreports : t.Reports s s' tasks news) (thread : ThreadId) :
    Started thread (log ++ news.toList) ↔ (s'.thread? thread).isSome = true := by
  rw [News.started_concat, h.started thread]
  have hsame : (∀ number child, news ≠ some (.starts number child)) →
      (s'.thread? thread).isSome = (s.thread? thread).isSome →
      ((s.thread? thread).isSome = true ∨ (∃ child, news = some (.starts (.int thread) child)) ↔
        (s'.thread? thread).isSome = true) := fun hnews hthreads => by
    rw [hthreads]
    exact or_iff_left fun ⟨child, hchild⟩ => hnews _ child hchild
  cases hreports with
  | silent hthreads _ | unknown hthreads _ | joined hthreads _ _ =>
    exact hsame (fun _ _ h => by cases h) (by rw [Shared.thread?_congr hthreads])
  | starts hroom =>
    rw [Shared.thread?_withThread hroom]
    by_cases hthread : thread = threadId s.threads.size
    · rw [if_pos hthread, hthread]
      exact iff_of_true (.inr ⟨_, rfl⟩) rfl
    · rw [if_neg hthread]
      refine or_iff_left fun ⟨child, hchild⟩ => ?_
      cases hchild
      exact hthread rfl
  | accepted _ _ _ => exact hsame (fun _ _ h => by cases h) Shared.isSome_thread?_modifyThread
  | ends _ _ hthreads _ =>
    refine hsame (fun _ _ h => by cases h) ?_
    rw [Shared.deliver, Shared.isSome_thread?_modifyThread, Shared.thread?_congr hthreads]
  | tells _ _ _ => exact hsame (fun _ _ h => by cases h) rfl

theorem asked_turn (h : Chronicles s (before ++ t :: after) log)
    (hreports : t.Reports s s' tasks news) (thread : ThreadId) :
    Asked thread (log ++ news.toList) ↔ s'.isClaimed thread = true := by
  rw [News.asked_concat, h.asked thread, h.started thread]
  have hsame : ((s.thread? thread).isSome = true →
        (∃ owner refusal, news = some (.asks owner thread refusal)) →
        s.isClaimed thread = true) →
      s'.isClaimed thread = s.isClaimed thread →
      (s.isClaimed thread = true ∨ (s.thread? thread).isSome = true ∧
        (∃ owner refusal, news = some (.asks owner thread refusal)) ↔
        s'.isClaimed thread = true) := fun hnews hclaimed => by
    rw [hclaimed]
    exact or_iff_left_of_imp fun hasked => hnews hasked.1 hasked.2
  cases hreports with
  | silent hthreads _ =>
    exact hsame (fun _ ⟨_, _, h⟩ => by cases h) (Shared.isClaimed_congr hthreads)
  | starts hroom =>
    exact hsame (fun _ ⟨_, _, h⟩ => by cases h) (Shared.isClaimed_withThread hroom)
  | unknown hthreads hnone =>
    refine hsame (fun hstarted ⟨_, _, h⟩ => ?_) (Shared.isClaimed_congr hthreads)
    cases h
    rw [hnone] at hstarted
    cases hstarted
  | joined hthreads hr hclaimed =>
    refine hsame (fun _ ⟨_, _, h⟩ => ?_) (Shared.isClaimed_congr hthreads)
    cases h
    exact (Shared.isClaimed_eq hr).trans hclaimed
  | @accepted x y other site r hr _ _ =>
    rw [Shared.isClaimed_withClaim hr, Bool.or_eq_true, beq_iff_eq]
    refine or_congr_right ⟨fun ⟨_, _, _, h⟩ => ?_, fun heq => ?_⟩
    · cases h
      rfl
    · subst heq
      exact ⟨Option.isSome_of_eq_some hr, _, _, rfl⟩
  | ends _ _ hthreads _ =>
    refine hsame (fun _ ⟨_, _, h⟩ => by cases h) ?_
    rw [Shared.isClaimed_deliver, Shared.isClaimed_congr hthreads]
  | tells _ _ _ => exact hsame (fun _ ⟨_, _, h⟩ => by cases h) rfl

theorem ended_turn (h : Chronicles s (before ++ t :: after) log)
    (hstaffed : Task.Staffed s (before ++ t :: after))
    (hreports : t.Reports s s' tasks news) (thread : ThreadId) (outcome : Outcome) :
    .ends thread outcome ∈ log ++ news.toList ↔
      outcome.hasEnded = true ∧ s'.outcomeOf thread = outcome := by
  rw [List.mem_append, Option.mem_toList, h.ended thread outcome]
  have hsame : news ≠ some (.ends thread outcome) →
      s'.outcomeOf thread = s.outcomeOf thread →
      ((outcome.hasEnded = true ∧ s.outcomeOf thread = outcome) ∨
        news = some (.ends thread outcome) ↔
        outcome.hasEnded = true ∧ s'.outcomeOf thread = outcome) := fun hnews houtcome => by
    rw [houtcome]
    exact or_iff_left hnews
  cases hreports with
  | silent hthreads _ | unknown hthreads _ | joined hthreads _ _ =>
    exact hsame (fun h => by cases h) (Shared.outcomeOf_congr hthreads)
  | starts hroom => exact hsame (fun h => by cases h) (Shared.outcomeOf_withThread hroom)
  | accepted _ _ _ =>
    exact hsame (fun h => by cases h) Shared.outcomeOf_withClaim
  | @ends t s₀ other result hthread hended hthreads _ =>
    have hlive := hstaffed.isLive (List.mem_append_right _ List.mem_cons_self) hthread
    have hlive' := (Shared.isLive_congr hthreads other).trans hlive
    rw [Shared.outcomeOf_deliver hlive', Shared.outcomeOf_congr hthreads]
    by_cases heq : thread = other
    · subst heq
      rw [if_pos rfl]
      constructor
      · rintro (hends | hnews)
        · exact absurd ((h.ended thread outcome).mpr hends) (h.not_ended_of_isLive hlive outcome)
        · cases hnews
          exact ⟨hended, rfl⟩
      · rintro ⟨-, rfl⟩
        exact .inr rfl
    · rw [if_neg heq]
      refine or_iff_left fun h => ?_
      cases h
      exact heq rfl
  | tells _ _ _ => exact hsame (fun h => by cases h) rfl

theorem owed_turn (h : Chronicles s (before ++ t :: after) log)
    (hreports : t.Reports s s' tasks news) (thread : ThreadId) :
    (log ++ news.toList).filterMap (asker? thread) =
      (log ++ news.toList).filterMap (listener? thread) ++
        waiters thread (before ++ tasks ++ after) := by
  have howed := h.owed thread
  rw [List.append_cons, waiters_append] at howed
  rw [News.filterMap_concat, News.filterMap_concat, waiters_append]
  have hsame : news.bind (asker? thread) = none → news.bind (listener? thread) = none →
      waiters thread tasks = waiters thread [t] →
      log.filterMap (asker? thread) ++ (news.bind (asker? thread)).toList =
        log.filterMap (listener? thread) ++ (news.bind (listener? thread)).toList ++
          (waiters thread before ++ waiters thread tasks ++ waiters thread after) :=
    fun hasker hlistener hwaiters => by
      rw [hasker, hlistener, hwaiters, Option.toList_none, List.append_nil, List.append_nil]
      exact howed
  cases hreports with
  | silent _ hwaiters => exact hsame rfl rfl (hwaiters thread)
  | starts _ | unknown _ _ | joined _ _ _ => exact hsame rfl rfl rfl
  | ends _ _ _ hwaiters => exact hsame rfl rfl (hwaiters thread).symm
  | @accepted x y other site r hr hclaimed howner =>
    by_cases heq : other = thread
    · -- Nobody has asked for the thread before.
      subst heq
      have hsingle := h.single other
      rw [Shared.isClaimed_eq hr, hclaimed] at hsingle
      have hnone := List.eq_nil_of_length_eq_zero hsingle
      rw [hnone] at howed
      obtain ⟨hlisteners, hwaiters⟩ := List.append_eq_nil_iff.mp howed.symm
      obtain ⟨hbefore, hafter⟩ := List.append_eq_nil_iff.mp hwaiters
      rw [hnone, hlisteners, (List.append_eq_nil_iff.mp hbefore).1, hafter]
      simp [asker?, listener?, waiters, Task.waiter?, howner]
    · have hwaiter : waiters thread [.waiting y other site] = [] := by
        simp [waiters, Task.waiter?, heq]
      exact hsame (if_neg heq) rfl hwaiter
  | @tells x other site r u result hr htells hwaiters =>
    by_cases heq : other = thread
    · subst heq
      have hwaiter : waiters other [.waiting x other site] = [x.owner] := by
        simp [waiters, Task.waiter?]
      obtain ⟨hlisteners, hbefore, hafter⟩ := h.eq_nil_of_waiter hwaiter
      rw [howed, hlisteners, hbefore, hafter, hwaiter, hwaiters other]
      simp [asker?, listener?]
    · have hwaiter : waiters thread [.waiting x other site] = [] := by
        simp [waiters, Task.waiter?, heq]
      exact hsame rfl (if_neg heq) ((hwaiters thread).trans hwaiter.symm)

theorem single_turn (h : Chronicles s (before ++ t :: after) log)
    (hreports : t.Reports s s' tasks news) (thread : ThreadId) :
    ((log ++ news.toList).filterMap (asker? thread)).length = (s'.isClaimed thread).toNat := by
  rw [News.filterMap_concat, List.length_append, h.single thread]
  have hsame : news.bind (asker? thread) = none → s'.isClaimed thread = s.isClaimed thread →
      (s.isClaimed thread).toNat + (news.bind (asker? thread)).toList.length =
        (s'.isClaimed thread).toNat := fun hasker hclaimed => by
    rw [hasker, hclaimed]
    rfl
  cases hreports with
  | silent hthreads _ | unknown hthreads _ | joined hthreads _ _ =>
    exact hsame rfl (Shared.isClaimed_congr hthreads)
  | starts hroom => exact hsame rfl (Shared.isClaimed_withThread hroom)
  | @accepted x y other site r hr hclaimed _ =>
    have hclaim : (s.withClaim other).isClaimed thread = (s.isClaimed thread || thread == other) :=
      Shared.isClaimed_withClaim hr
    by_cases heq : other = thread
    · subst heq
      rw [hclaim, Shared.isClaimed_eq hr, hclaimed, beq_self_eq_true]
      simp [asker?]
    · rw [beq_eq_false_iff_ne.mpr (Ne.symm heq), Bool.or_false] at hclaim
      exact hsame (if_neg heq) hclaim
  | ends _ _ hthreads _ =>
    exact hsame rfl (by rw [Shared.isClaimed_deliver, Shared.isClaimed_congr hthreads])
  | tells _ _ _ => exact hsame rfl rfl

theorem follows_turn (h : Chronicles s (before ++ t :: after) log)
    (hstaffed : Task.Staffed s (before ++ t :: after))
    (hreports : t.Reports s s' tasks news) (last : News) (hlast : news = some last) :
    last.Follows log := by
  cases hreports with
  | silent _ _ => cases hlast
  | starts _ =>
    cases hlast
    rw [Follows, h.count]
    exact ⟨rfl, rfl⟩
  | unknown _ hnone =>
    cases hlast
    refine .inl ⟨fun hstarted => ?_, rfl⟩
    rw [h.started, hnone] at hstarted
    cases hstarted
  | joined _ hr hclaimed =>
    cases hlast
    refine .inr (.inr ⟨?_, ?_, rfl⟩)
    · rw [h.started]
      exact Option.isSome_of_eq_some hr
    · rw [h.asked, Shared.isClaimed_eq hr]
      exact hclaimed
  | accepted hr hclaimed _ =>
    cases hlast
    refine .inr (.inl ⟨?_, fun hasked => ?_, rfl⟩)
    · rw [h.started]
      exact Option.isSome_of_eq_some hr
    · rw [h.asked, Shared.isClaimed_eq hr, hclaimed] at hasked
      cases hasked
  | ends hthread _ _ _ =>
    cases hlast
    have hlive := hstaffed.isLive (List.mem_append_right _ List.mem_cons_self) hthread
    obtain ⟨r, hr, -⟩ := Shared.isLive_eq_true.mp hlive
    refine ⟨?_, h.not_ended_of_isLive hlive⟩
    rw [h.started]
    exact Option.isSome_of_eq_some hr
  | @tells x thread site r u result hr htells _ =>
    cases hlast
    have hwaiter : waiters thread [.waiting x thread site] = [x.owner] := by
      simp [waiters, Task.waiter?]
    obtain ⟨hlisteners, -, -⟩ := h.eq_nil_of_waiter hwaiter
    refine ⟨News.mem_of_asker? ?_, fun other earlier htold => ?_, r.outcome, ?_, htells⟩
    · rw [h.owed, List.append_cons, waiters_append, hwaiter]
      simp
    · have hmem : other ∈ log.filterMap (listener? thread) :=
        List.mem_filterMap.mpr ⟨_, htold, if_pos rfl⟩
      rw [hlisteners] at hmem
      cases hmem
    · rw [h.ended, Shared.outcomeOf_eq hr]
      exact ⟨htells.hasEnded, rfl⟩

/-- **One turn**: the news that it brings follow from those before, and the table of threads and
the tasks are what the news say. -/
theorem turn (h : Chronicles s (before ++ t :: after) log)
    (hstaffed : Task.Staffed s (before ++ t :: after)) (hreports : t.Reports s s' tasks news) :
    Chronicles s' (before ++ tasks ++ after) (log ++ news.toList) where
  count := h.count_turn hreports
  started := h.started_turn hreports
  asked := h.asked_turn hreports
  ended := h.ended_turn hstaffed hreports
  owed := h.owed_turn hreports
  single := h.single_turn hreports
  follows := News.forall_concat h.follows (h.follows_turn hstaffed hreports)

/-- What happens besides leaves the table of threads as it is, and those who wait. -/
theorem congr (h : Chronicles s tasks log) {rest : List Task} (hthreads : s'.threads = s.threads)
    (hwaiters : ∀ thread, waiters thread rest = waiters thread tasks) :
    Chronicles s' rest log where
  count := by rw [h.count, hthreads]
  started thread := by rw [h.started, Shared.thread?_congr hthreads]
  asked thread := by rw [h.asked, Shared.isClaimed_congr hthreads]
  ended thread outcome := by rw [h.ended, Shared.outcomeOf_congr hthreads]
  owed thread := by rw [h.owed, hwaiters]
  single thread := by rw [h.single, Shared.isClaimed_congr hthreads]
  follows := h.follows

end Chronicles

/-! ## Failures of threads have their place -/

/-- If the task is to record the failure of a thread, then the failure has its place. -/
def Task.FailsLocated (t : Task) : Prop :=
  ∀ thread call e, t = .failing (some thread) call e → e.Located

theorem Task.Turns.failsLocated {s s' : Shared} {t u : Task} {tasks : List Task}
    {incident : Option Incident} (hturn : t.Turns s s' tasks incident) (hs : s.Placed)
    (hu : u ∈ tasks) : u.FailsLocated := by
  intro thread call e heq
  subst heq
  cases hturn with
  | stops _ _ | raises _ _ _ _ | misses _ _ =>
    have hfailing := List.mem_singleton.mp hu
    simp only [Task.failing.injEq] at hfailing
    obtain ⟨hthread, -, rfl⟩ := hfailing
    exact Failure.located_raised _ _ (Option.isSome_of_eq_some hthread.symm)
  | passes hr he =>
    have hlocated := hs _ _ _ hr he
    have hfailing := List.mem_singleton.mp hu
    simp only [Task.failing.injEq] at hfailing
    obtain ⟨-, -, rfl⟩ := hfailing
    rwa [hlocated.inThread_atSite]
  | spawns _ _ _ _ _ => simp at hu
  | delivers _ | breaks _ _ | vanishes _ _ | records => cases hu
  | _ => cases List.mem_singleton.mp hu

/-! ## Sessions -/

namespace Machine

/-- The news that an event brings. -/
def newsOf? (m : Machine) : Event → Option News
  | .move (.advance position) => m.tasks[position]?.bind fun t => t.news? m.shared
  | _ => none

/-- The news of a session. -/
def log (m : Machine) : List Event → List News
  | [] => []
  | event :: rest => (m.newsOf? event).toList ++ (m.react event).log rest

/-- The machine is what the news of its session say. -/
structure Recorded (m : Machine) (log : List News) : Prop where
  /-- Every execution has its own task. -/
  accounted : Accounted m.calls m.shared m.tasks
  /-- What the threads have failed with has its place. -/
  placed : m.shared.Placed
  /-- What threads are about to fail with has its place. -/
  located : ∀ t ∈ m.tasks, t.FailsLocated
  /-- The table of threads and the tasks are what the news say. -/
  chronicles : Chronicles m.shared m.tasks log

variable {m : Machine} {log : List News}

theorem Recorded.advance (h : m.Recorded log) (position : Nat) :
    (m.advance position).Recorded
      (log ++ (m.newsOf? (.move (.advance position))).toList) := by
  rw [newsOf?]
  cases ht : m.tasks[position]? with
  | none =>
    rw [advance_eq_self ht, Option.bind_none, Option.toList_none, List.append_nil]
    exact h
  | some t =>
    obtain ⟨before, after, htasks, hadvance⟩ := advance_eq ht
    obtain ⟨haccounted, hplaced, hlocated, hchronicles⟩ := h
    have hturn := t.turns_turn m.shared
    rw [hadvance, Option.bind_some]
    rw [htasks] at haccounted hlocated hchronicles
    refine ⟨haccounted.turn hturn, hturn.placed_of_located hplaced ?_, fun u hu => ?_,
      hchronicles.turn haccounted.staffed (Task.reports_turn hplaced t)⟩
    · exact hlocated t (List.mem_append_right _ List.mem_cons_self)
    · rcases Task.mem_cases hu with hu | hu
      · exact hlocated u (Task.mem_of_mem hu)
      · exact hturn.failsLocated hplaced hu

theorem waiters_dropAnswer (call : Nat) (tasks : List Task) (thread : ThreadId) :
    waiters thread (dropAnswer call tasks) = waiters thread tasks := by
  rw [waiters, waiters, dropAnswer, List.filterMap_filter]
  refine List.filterMap_congr fun t _ => ?_
  cases t with
  | answered call' result =>
    -- The answer is not a task that waits, whether it is taken or not.
    by_cases hc : call' = call <;> simp [Task.waiter?, hc]
  | _ => rfl

/-- The task that a call begins with waits for no thread. -/
theorem waiters_entry (s : Shared) (call : Nat) (name : String) (args : List Value)
    (tasks : List Task) (thread : ThreadId) :
    waiters thread (entry s call name args ++ tasks) = waiters thread tasks := by
  rcases entry_cases s call name args with ⟨routine, -, -, hentry⟩ | ⟨-, -, hentry⟩ |
    ⟨-, hentry⟩ <;> rw [hentry] <;> rfl

theorem failsLocated_entry (s : Shared) (call : Nat) (name : String) (args : List Value) :
    ∀ t ∈ entry s call name args, t.FailsLocated :=
  forall_mem_entry (fun _ _ _ _ _ heq => (by cases heq)) fun _ _ _ heq => by cases heq

/-- What is registered or done to the heap from outside concerns no execution. -/
theorem Recorded.of_threads (h : m.Recorded log) {s : Shared}
    (hthreads : s.threads = m.shared.threads) : Recorded { m with shared := s } log where
  accounted :=
    have hfind := fun thread => Shared.thread?_congr hthreads thread
    { room := by rw [Shared.HasRoom, hthreads]; exact h.accounted.room
      staffed := fun thread => by
        rw [Shared.isLive_congr hthreads]
        exact h.accounted.staffed thread
      owned := fun t ht thread hthread => by
        rw [hfind]
        exact h.accounted.owned t ht thread hthread
      single := h.accounted.single
      begun := h.accounted.begun
      joined := fun t ht hover thread r hr => by
        rw [hfind] at hr
        exact h.accounted.joined t ht hover thread r hr }
  placed := h.placed.congr hthreads
  located := h.located
  chronicles := h.chronicles.congr hthreads fun _ => rfl

/-- **One event**: the machine is what the news say that have come so far. -/
theorem Recorded.react (h : m.Recorded log) (event : Event) :
    (m.react event).Recorded (log ++ (m.newsOf? event).toList) := by
  have hsilent : ∀ {m' : Machine}, m'.Recorded log → m.newsOf? event = none →
      m'.Recorded (log ++ (m.newsOf? event).toList) := fun hm' hnone => by
    rwa [hnone, Option.toList_none, List.append_nil]
  cases event with
  | add routine => exact hsilent (h.of_threads rfl) rfl
  | ask request => exact hsilent (h.of_threads rfl) rfl
  | move move =>
    cases move with
    | begin name args =>
      refine hsilent ⟨accounted_move h.accounted (.begin name args), h.placed, ?_,
        h.chronicles.congr rfl fun thread => waiters_entry _ _ _ _ _ _⟩ rfl
      exact List.forall_mem_append.mpr ⟨failsLocated_entry _ _ _ _, h.located⟩
    | advance position => exact h.advance position
    | forget call =>
      exact hsilent ⟨accounted_move h.accounted (.forget call), h.placed,
        fun t ht => h.located t (List.mem_filter.mp ht).1,
        h.chronicles.congr rfl fun thread => waiters_dropAnswer call _ thread⟩ rfl

/-- The numbers of the threads do not wrap around. -/
theorem Recorded.toInt_threadId (h : m.Recorded log) {place : Nat}
    (hplace : place < log.countP News.isStart) : (threadId place).toInt = 2025 + (place : Int) := by
  have hroom := h.accounted.room
  rw [h.chronicles.count] at hplace
  exact Int64.toInt_ofNat_of_lt (Nat.lt_of_lt_of_le (Nat.add_lt_add_left hplace _) hroom)

/-- Who has asked for a thread and has not been refused has been told its result, or waits. -/
theorem Recorded.told_or_waiting (h : m.Recorded log) {owner : Owner} {thread : ThreadId}
    (hasked : .asks owner thread none ∈ log) :
    (∃ result, .tells owner thread result ∈ log) ∨
      ∃ x site, .waiting x thread site ∈ m.tasks ∧ x.owner = owner := by
  have hmem : owner ∈ log.filterMap (asker? thread) :=
    List.mem_filterMap.mpr ⟨_, hasked, if_pos rfl⟩
  rw [h.chronicles.owed, List.mem_append] at hmem
  rcases hmem with hmem | hmem
  · exact .inl (News.exists_of_listener? hmem)
  · exact .inr (Task.exists_of_waiters hmem)

/-- The threads in the table have an outcome if the news say that they have ended. -/
theorem Recorded.exists_of_ends (h : m.Recorded log) {thread : ThreadId} {outcome : Outcome}
    (hends : .ends thread outcome ∈ log) :
    ∃ r, m.shared.thread? thread = some r ∧ r.outcome = outcome ∧ outcome.hasEnded = true := by
  obtain ⟨hended, houtcome⟩ := (h.chronicles.ended thread outcome).mp hends
  cases hr : m.shared.thread? thread with
  | none =>
    rw [Shared.outcomeOf, hr] at houtcome
    rw [← houtcome] at hended
    cases hended
  | some r => exact ⟨r, rfl, (Shared.outcomeOf_eq hr).symm.trans houtcome, hended⟩

/-- The news of the next turn follow from those so far. -/
theorem Recorded.follows_next (h : m.Recorded log) {position : Nat} {news : News}
    (hnews : m.newsOf? (.move (.advance position)) = some news) : news.Follows log :=
  (h.advance position).chronicles.follows log news [] (by rw [hnews]; rfl)

theorem newsOf?_append {before after : List Task} {t : Task} (h : m.tasks = before ++ t :: after) :
    m.newsOf? (.move (.advance before.length)) = t.news? m.shared := by
  rw [newsOf?, h, List.getElem?_append_right (Nat.le_refl _), Nat.sub_self]
  rfl

/-- The results of threads are delivered: what the news of a session so far say about each other,
and what the next turn of an execution does about threads. -/
structure Delivers (m : Machine) (log : List News) : Prop where
  /-- All news follow from those before them. -/
  follows : ∀ before news after, log = before ++ news :: after → news.Follows before
  /-- The numbers of the threads are 2025 and those that follow, and do not wrap around. -/
  numbers : ∀ place < log.countP News.isStart, (threadId place).toInt = 2025 + (place : Int)
  /-- Who has asked for a thread and has not been refused has been told its result or waits. -/
  owed : ∀ owner thread, .asks owner thread none ∈ log →
    (∃ result, .tells owner thread result ∈ log) ∨
      ∃ x site, .waiting x thread site ∈ m.tasks ∧ x.owner = owner
  /-- An execution at `THREAD` starts an execution of the routine with the argument, under the next
  number, and goes on with the number. -/
  starts : ∀ (before : List Task) (x : Execution) (i : Instr) v name routine after,
    m.tasks = before ++ .running ((x.push v).push (.str name)) :: after → x.instr? = some i →
    i.op = .thread → m.shared.isHalted = false → m.shared.find? name = some routine →
    firstThread + log.countP News.isStart < Nat.pow 2 63 →
    ∃ thread, thread = threadId (log.countP News.isStart) ∧
      m.newsOf? (.move (.advance before.length)) = some (.starts (.int thread) (some thread)) ∧
      (m.advance before.length).tasks = before ++
        [.running ⟨some thread, x.call, [v], [{ routine }]⟩,
          .running (x.passed.push (.int thread))] ++ after
  /-- An execution at `WAIT` asks for the thread whose number is on top.  It waits for it, or it
  fails with the refusal that follows from the news. -/
  asks : ∀ (before : List Task) (x : Execution) (i : Instr) thread after,
    m.tasks = before ++ .running (x.push (.int thread)) :: after → x.instr? = some i →
    i.op = .wait → m.shared.isHalted = false →
    ∃ refusal, News.Follows log (.asks x.owner thread refusal) ∧
      m.newsOf? (.move (.advance before.length)) = some (.asks x.owner thread refusal) ∧
      (m.advance before.length).tasks =
        before ++ [x.passed.afterAsking thread (x.siteOf i) refusal] ++ after
  /-- The execution of a thread that has come to its end ends the thread with the topmost
  operand. -/
  returns : ∀ (before : List Task) (x : Execution) thread after,
    m.tasks = before ++ .running x :: after → x.thread = some thread → x.instr? = none →
    m.newsOf? (.move (.advance before.length)) =
        some (.ends thread (.finished (.ok (x.operands.headD .null)))) ∧
      (m.advance before.length).tasks = before ++ after
  /-- The execution of a thread that has failed ends the thread with its failure. -/
  fails : ∀ before thread call e after,
    m.tasks = before ++ .failing (some thread) call e :: after →
    m.newsOf? (.move (.advance before.length)) = some (.ends thread (.finished (.error e))) ∧
      (m.advance before.length).tasks = before ++ after
  /-- An execution that waits for a thread has asked for it.  Once the thread has ended, it hears
  with its next turn what the thread has ended with, and goes on with the value or fails. -/
  tells : ∀ before x thread site after, m.tasks = before ++ .waiting x thread site :: after →
    .asks x.owner thread none ∈ log ∧ ∀ outcome, .ends thread outcome ∈ log →
      ∃ result, outcome.Tells x.owner thread result ∧
        m.newsOf? (.move (.advance before.length)) = some (.tells x.owner thread result) ∧
        (m.advance before.length).tasks = before ++ [x.afterHearing result] ++ after

theorem Recorded.delivers (h : m.Recorded log) : m.Delivers log where
  follows := h.chronicles.follows
  numbers _ := h.toInt_threadId
  owed _ _ := h.told_or_waiting
  starts before x i v name routine after htasks hi hop hrun hfind hroom := by
    rw [h.chronicles.count] at hroom ⊢
    obtain ⟨hnews, hturn⟩ := Task.turn_of_thread (v := v) hi hop hrun hfind hroom
    rw [newsOf?_append htasks, advance_append htasks]
    exact ⟨_, rfl, hnews, by rw [hturn]⟩
  asks before x i thread after htasks hi hop hrun := by
    obtain ⟨hasks, hturn⟩ := Task.turn_of_wait hi hop hrun thread
    have hnews := (newsOf?_append htasks).trans hasks
    exact ⟨_, h.follows_next hnews, hnews, by rw [advance_append htasks, hturn]⟩
  returns before x thread after htasks hthread hi := by
    obtain ⟨hnews, hturn⟩ := Task.turn_of_end (s := m.shared) hi hthread
    rw [newsOf?_append htasks, advance_append htasks]
    exact ⟨hnews, by rw [hturn, List.append_nil]⟩
  fails before thread call e after htasks := by
    rw [newsOf?_append htasks, advance_append htasks]
    exact ⟨rfl, by rw [Task.turn, Task.record, List.append_nil]⟩
  tells before x thread site after htasks := by
    constructor
    · refine News.mem_of_asker? ?_
      rw [h.chronicles.owed, htasks]
      have hwaiting : .waiting x thread site ∈ before ++ .waiting x thread site :: after :=
        List.mem_append_right _ List.mem_cons_self
      exact List.mem_append_right _ (List.mem_filterMap.mpr ⟨_, hwaiting, if_pos rfl⟩)
    · intro outcome hends
      obtain ⟨r, hr, rfl, hended⟩ := h.exists_of_ends hends
      obtain ⟨result, htells, hnews, hresume⟩ := Task.tells_of_hasEnded h.placed hr hended x site
      refine ⟨result, htells, (newsOf?_append htasks).trans hnews, ?_⟩
      rw [advance_append htasks, Task.turn_of_outcome (Shared.outcomeOf_eq hr), hresume]

end Machine
end Opstack
