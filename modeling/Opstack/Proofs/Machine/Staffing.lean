import Opstack.Proofs.Machine.Turns

/-!
# Who has which task

An execution has one task as long as it is under way: a thread until it has ended, and a call until
it has been answered.  `Staffed` says so of threads, and a turn keeps it (`Staffed.turn`).  Whose
the tasks are that come out of a turn is `Turns.owners`, and what becomes of the threads in the
table is `Turns.persists`.
-/

set_option autoImplicit false

namespace Opstack

namespace Task

/-! ## The end of a call leaves the threads as they are -/

theorem threads_join (s : Shared) (call : Nat) : (join s call).threads = s.threads := by
  obtain ⟨console, failure, isHalted, hjoin⟩ := exists_join s call
  rw [hjoin]

/-! ## One task for each thread -/

/-- Every thread that has not ended has one task. -/
def Staffed (s : Shared) (tasks : List Task) : Prop :=
  ∀ thread, (tasks.map Task.thread).count (some thread) = (s.isLive thread).toNat

section

variable {s s' : Shared} {t : Task} {before after tasks : List Task} {incident : Option Incident}
  {thread : ThreadId}

/-- A task that is not the one of the turn was there before it. -/
theorem mem_of_mem {u : Task} (hu : u ∈ before ++ after) : u ∈ before ++ t :: after :=
  ((List.sublist_cons_self t after).append_left before).mem hu

/-- The tasks after a turn were there before, or come out of it. -/
theorem mem_cases {u : Task} (hu : u ∈ before ++ tasks ++ after) :
    u ∈ before ++ after ∨ u ∈ tasks := by
  rcases List.mem_append.mp hu with hu | hu
  · exact (List.mem_append.mp hu).imp_left (List.mem_append_left _)
  · exact .inl (List.mem_append_right _ hu)

/-- A task and another one make two. -/
theorem two_le_count {β : Type} [BEq β] [LawfulBEq β] {f : Task → β} {k : β} {u : Task}
    (ht : f t = k) (hu : u ∈ before ++ after) (hk : f u = k) :
    2 ≤ ((before ++ t :: after).map f).count k := by
  have hpos : 0 < ((before ++ after).map f).count k :=
    List.count_pos_iff.mpr (hk ▸ List.mem_map_of_mem hu)
  rw [List.map_append, List.count_append] at hpos
  rw [List.map_append, List.map_cons, List.count_append, ht, List.count_cons_self]
  omega

namespace Staffed

/-- A thread that has a task has not ended. -/
theorem isLive (h : Staffed s tasks) (ht : t ∈ tasks) (hthread : t.thread = some thread) :
    s.isLive thread = true := by
  have hcount := h thread
  have hpos : 0 < (tasks.map Task.thread).count (some thread) :=
    List.count_pos_iff.mpr (hthread ▸ List.mem_map_of_mem ht)
  cases hlive : s.isLive thread with
  | true => rfl
  | false =>
    rw [hcount, hlive] at hpos
    cases hpos

/-- What is to be shown of a turn. -/
theorem of_count (h : Staffed s (before ++ t :: after))
    (hcount : ∀ thread, (tasks.map Task.thread).count (some thread) + (s.isLive thread).toNat =
      [t.thread].count (some thread) + (s'.isLive thread).toNat) :
    Staffed s' (before ++ tasks ++ after) := by
  intro thread
  have hold := h thread
  have hnew := hcount thread
  simp only [List.map_append, List.map_cons, List.count_append, List.count_cons,
    List.count_nil] at hold hnew ⊢
  omega

/-- A turn with which an execution goes on. -/
theorem of_same (h : Staffed s (before ++ t :: after)) {u : Task}
    (hlive : ∀ thread, s'.isLive thread = s.isLive thread) (hthread : u.thread = t.thread) :
    Staffed s' (before ++ [u] ++ after) :=
  h.of_count fun thread => by rw [List.map_singleton, hthread, hlive]

/-- A turn with which a thread ends. -/
theorem of_ended (h : Staffed s (before ++ t :: after)) {outcome : Outcome}
    (hthread : t.thread = some thread) (hended : outcome.hasEnded = true)
    (hthreads : s'.threads = s.threads) :
    Staffed (s'.deliver thread outcome) (before ++ [] ++ after) :=
  h.of_count fun other => by
    rw [Shared.isLive_deliver hended, Shared.isLive_congr hthreads, hthread]
    by_cases heq : other = thread
    · subst heq
      rw [h.isLive (List.mem_append_right _ List.mem_cons_self) hthread, bne_self_eq_false]
      simp
    · rw [bne_iff_ne.mpr heq, Bool.and_true]
      simp [Ne.symm heq]

/-- A turn with which the execution of a call ends without a result. -/
theorem of_none (h : Staffed s (before ++ t :: after)) (hthread : t.thread = none) :
    Staffed s (before ++ [] ++ after) :=
  h.of_count fun other => by
    rw [hthread]
    rfl

/-- A turn with which a thread is started. -/
theorem of_spawn {x y child : Execution} {call : Nat}
    (h : Staffed s (before ++ .running x :: after))
    (hroom : firstThread + s.threads.size < Nat.pow 2 63) (howner : x.SameOwner y)
    (hthread : child.thread = some (threadId s.threads.size)) :
    Staffed (s.withThread call) (before ++ [.running child, .running y] ++ after) :=
  h.of_count fun other => by
    -- The new thread was not live before, since its number is new.
    have hnew : s.isLive (threadId s.threads.size) = false := by
      rw [Shared.isLive, Shared.thread?_next hroom]
      rfl
    have hpush : (s.withThread call).threads = s.threads.push { call } := rfl
    rw [Shared.isLive_push hroom hpush rfl, List.map_cons, List.map_singleton, Task.thread,
      Task.thread, Task.thread, hthread, howner.1, List.count_cons]
    by_cases heq : other = threadId s.threads.size
    · subst heq
      rw [hnew, beq_self_eq_true, beq_self_eq_true]
      simp
    · rw [beq_eq_false_iff_ne.mpr heq, Bool.or_false]
      simp [Ne.symm heq]

/-- **A turn keeps one task for each thread.** -/
theorem turn (h : Staffed s (before ++ t :: after)) (hturn : t.Turns s s' tasks incident) :
    Staffed s' (before ++ tasks ++ after) := by
  cases hturn with
  | runs _ hbooks howner => exact h.of_same (Shared.isLive_congr hbooks.threads) howner.1
  | raises _ hbooks _ _ => exact h.of_same (Shared.isLive_congr hbooks.threads) rfl
  | spawns _ hroom howner hthread _ => exact h.of_spawn hroom howner hthread
  | asks _ _ howner _ => exact h.of_same (s.isLive_modifyThread _ _ fun _ => rfl) howner.1
  | delivers hthread => exact h.of_ended hthread rfl rfl
  | breaks _ hthread => exact h.of_ended hthread rfl rfl
  | records => exact h.of_ended rfl rfl rfl
  | vanishes _ hthread => exact h.of_none hthread
  | returns hthread => exact h.of_same (fun _ => rfl) hthread.symm
  | joins _ => exact h.of_same (Shared.isLive_congr (threads_join s _)) rfl
  | _ => exact h.of_same (fun _ => rfl) rfl

end Staffed

/-! ## What becomes of the tasks -/

/-- The call that the task belongs to. -/
def call : Task → Nat
  | .running x => x.call
  | .waiting x _ _ => x.call
  | .failing _ call _ => call
  | .joining call _ => call
  | .closing call _ => call
  | .answered call _ => call

/-- The thread and the call that the task belongs to. -/
def owner (t : Task) : Option ThreadId × Nat := (t.thread, t.call)

theorem owner_eq {x y : Execution} (h : x.SameOwner y) : (y.thread, y.call) = (x.thread, x.call) :=
  Prod.ext h.1 h.2

/-- With a turn an execution goes on or ends, or goes on beside a thread that it has started. -/
theorem Turns.owners (h : t.Turns s s' tasks incident) :
    tasks.map owner = [] ∨ tasks.map owner = [t.owner] ∨
      tasks.map owner = [(some (threadId s.threads.size), t.call), t.owner] ∧
        s'.thread? (threadId s.threads.size) = some { call := t.call } := by
  cases h with
  | delivers _ | breaks _ _ | vanishes _ _ | records => exact .inl rfl
  | runs _ _ howner | asks _ _ howner _ => exact .inr (.inl (congrArg ([·]) (owner_eq howner)))
  | @spawns x y child _ hroom howner hthread hcall =>
    have hpush : (s.withThread x.call).threads = s.threads.push { call := x.call } := rfl
    have hnew := Shared.thread?_push hroom hpush (threadId s.threads.size)
    rw [if_pos rfl] at hnew
    refine .inr (.inr ⟨?_, hnew⟩)
    rw [List.map_cons, List.map_singleton, owner, owner, call, call, thread, thread, hthread,
      hcall, owner_eq howner]
    rfl
  | returns hthread => exact .inr (.inl (congrArg (fun a => [(a, _)]) hthread.symm))
  | _ => exact .inr (.inl rfl)

/-- A task of a turn belongs to the same execution, or to a thread that this has started. -/
theorem Turns.owner_of_mem (h : t.Turns s s' tasks incident) {u : Task} (hu : u ∈ tasks) :
    u.owner = t.owner ∨
      u.owner = (some (threadId s.threads.size), t.call) ∧
        s'.thread? (threadId s.threads.size) = some { call := t.call } := by
  have hmem : u.owner ∈ tasks.map owner := List.mem_map_of_mem hu
  rcases h.owners with heq | heq | ⟨heq, hs⟩
  all_goals
    rw [heq] at hmem
    simp only [List.mem_cons, List.not_mem_nil, or_false] at hmem
  · exact .inl hmem
  · exact hmem.symm.imp_right fun hnew => ⟨hnew, hs⟩

/-- No call gets a second task of its own with a turn. -/
theorem Turns.count_owner_le (h : t.Turns s s' tasks incident) (c : Nat) :
    (tasks.map owner).count (none, c) ≤ [t.owner].count (none, c) := by
  rcases h.owners with heq | heq | ⟨heq, -⟩
  · rw [heq]
    exact Nat.zero_le _
  · exact Nat.le_of_eq (by rw [heq])
  · exact Nat.le_of_eq (by rw [heq, List.count_cons_of_ne (by simp)])

/-- The call has been joined, so that only its answer is still to come. -/
def isOver : Task → Bool
  | .closing _ _ | .answered _ _ => true
  | _ => false

/-- What is left of a call that has been joined. -/
theorem Turns.of_isOver (h : t.Turns s s' tasks incident) {u : Task} (hu : u ∈ tasks)
    (hover : u.isOver = true) :
    (∃ c result, t = .joining c result ∧ s.hasJoined c = true ∧ s' = join s c ∧
        u = .closing c result) ∨
      (∃ c result, t = .closing c result ∧ u = .answered c (answer s.failure result) ∧
        s' = s.takeFailure.2) ∨
      u = t ∧ s' = s := by
  cases h with
  | joins hjoined => exact .inl ⟨_, _, rfl, hjoined, rfl, List.mem_singleton.mp hu⟩
  | closes => exact .inr (.inl ⟨_, _, rfl, List.mem_singleton.mp hu, rfl⟩)
  | rests => exact .inr (.inr ⟨List.mem_singleton.mp hu, rfl⟩)
  | delivers _ | breaks _ _ | vanishes _ _ | records => cases hu
  | spawns _ _ _ _ _ =>
    rcases List.mem_cons.mp hu with rfl | hu
    · cases hover
    · cases List.mem_singleton.mp hu
      cases hover
  | _ =>
    cases List.mem_singleton.mp hu
    cases hover

/-! ## What becomes of the table of threads -/

theorem Turns.hasRoom (h : t.Turns s s' tasks incident) (hroom : s.HasRoom) : s'.HasRoom := by
  cases h with
  | runs _ hbooks _ | raises _ hbooks _ _ =>
    rw [Shared.HasRoom, hbooks.threads]
    exact hroom
  | spawns _ hroom _ _ _ =>
    rw [Shared.HasRoom, Shared.withThread, Array.size_push]
    exact hroom
  | asks _ _ _ _ | delivers _ | breaks _ _ | records =>
    rw [Shared.HasRoom]
    exact (Shared.size_threads_modifyThread _ _ _).symm ▸ hroom
  | joins _ =>
    rw [Shared.HasRoom, threads_join]
    exact hroom
  | _ => exact hroom

/-- What becomes of a thread with a turn, if it was in the table before: it stays in its call, and
does not begin anew once it has ended. -/
def Persists (s s' : Shared) (thread : ThreadId) : Prop :=
  ∃ f : Thread → Thread, s'.thread? thread = (s.thread? thread).map f ∧
    ∀ r, (f r).call = r.call ∧ (r.outcome.hasEnded = true → (f r).outcome.hasEnded = true)

theorem persists_of_eq (h : s'.thread? thread = s.thread? thread) : Persists s s' thread :=
  ⟨id, by rw [Option.map_id, h]; rfl, fun _ => ⟨rfl, id⟩⟩

theorem persists_modifyThread {s₀ : Shared} {other : ThreadId} {f : Thread → Thread}
    (h : s₀.threads = s.threads)
    (hf : ∀ r, (f r).call = r.call ∧
      (r.outcome.hasEnded = true → (f r).outcome.hasEnded = true)) :
    Persists s (s₀.modifyThread other f) thread := by
  by_cases heq : thread = other
  · refine ⟨f, ?_, hf⟩
    rw [Shared.thread?_modifyThread, if_pos heq, heq, Shared.thread?_congr h]
  · refine persists_of_eq ?_
    rw [Shared.thread?_modifyThread, if_neg heq, Shared.thread?_congr h]

/-- **What a turn makes of the table of threads**: those that are in it go on, and an execution can
add one to its call. -/
theorem Turns.persists (h : t.Turns s s' tasks incident) (thread : ThreadId) :
    Persists s s' thread ∨
      s.thread? thread = none ∧ s'.thread? thread = some { call := t.call } := by
  cases h with
  | runs _ hbooks _ | raises _ hbooks _ _ =>
    exact .inl (persists_of_eq (Shared.thread?_congr hbooks.threads thread))
  | joins _ => exact .inl (persists_of_eq (Shared.thread?_congr (threads_join s _) thread))
  | asks _ _ _ _ => exact .inl (persists_modifyThread rfl fun _ => ⟨rfl, id⟩)
  | delivers _ | breaks _ _ => exact .inl (persists_modifyThread rfl fun _ => ⟨rfl, fun _ => rfl⟩)
  | @records _ _ e =>
    have hthreads : (s.fail e).threads = s.threads := rfl
    exact .inl (persists_modifyThread hthreads fun _ => ⟨rfl, fun _ => rfl⟩)
  | @spawns x y child _ hroom _ _ _ =>
    have hpush : (s.withThread x.call).threads = s.threads.push { call := x.call } := rfl
    have hfind := Shared.thread?_push hroom hpush thread
    by_cases heq : thread = threadId s.threads.size
    · rw [if_pos heq] at hfind
      exact .inr ⟨heq ▸ Shared.thread?_next hroom, hfind⟩
    · rw [if_neg heq] at hfind
      exact .inl (persists_of_eq hfind)
  | _ => exact .inl (persists_of_eq rfl)

/-- A turn leaves every thread in its call. -/
theorem Turns.kept (h : t.Turns s s' tasks incident) {r : Thread}
    (hr : s.thread? thread = some r) : ∃ r', s'.thread? thread = some r' ∧ r'.call = r.call := by
  rcases h.persists thread with ⟨f, hf, hkeeps⟩ | ⟨hnone, -⟩
  · exact ⟨f r, by rw [hf, hr]; rfl, (hkeeps r).1⟩
  · rw [hr] at hnone
    cases hnone

end

end Task
end Opstack
