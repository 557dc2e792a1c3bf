import Opstack.Machine.Schedule

/-!
# The table of threads

A thread is known by its number, and its record stands at a place of the table that the number
determines (`threadPlace?_eq_some`).  As long as there are numbers left (`Shared.HasRoom`) every
record has a number, so what holds of all threads can be said in terms of `Shared.thread?` alone.
This module says what each operation on the table does to `thread?`.
-/

set_option autoImplicit false

namespace Opstack

/-! ## Numbers and places -/

theorem threadPlace?_eq_some {thread : ThreadId} {place : Nat} :
    threadPlace? thread = some place ↔
      thread = threadId place ∧ firstThread + place < Nat.pow 2 63 := by
  have hlt := thread.toInt_lt
  rw [threadPlace?, threadId]
  constructor
  · intro h
    split at h
    · rename_i hle
      cases h
      have hplace : ((firstThread + (thread.toInt - firstThread).toNat : Nat) : Int) =
          thread.toInt := by omega
      refine ⟨?_, by simp only [Nat.pow_eq]; omega⟩
      rw [← Int64.ofInt_eq_ofNat, hplace, Int64.ofInt_toInt]
    · cases h
  · rintro ⟨rfl, h⟩
    have hplace : (Int64.ofNat (firstThread + place)).toInt = ((firstThread + place : Nat) : Int) :=
      Int64.toInt_ofNat_of_lt h
    rw [hplace, if_pos (by omega)]
    congr
    omega

namespace Shared

variable {s s' : Shared} {thread other : ThreadId} {call place : Nat} {r : Thread}

/-- There is a number for every thread of the table. -/
def HasRoom (s : Shared) : Prop := firstThread + s.threads.size ≤ Nat.pow 2 63

theorem thread?_congr (h : s'.threads = s.threads) (thread : ThreadId) :
    s'.thread? thread = s.thread? thread := by
  rw [thread?, thread?, h]

theorem thread?_eq_some :
    s.thread? thread = some r ↔
      ∃ place, threadPlace? thread = some place ∧ s.threads[place]? = some r :=
  Option.bind_eq_some_iff

theorem mem_of_thread? (h : s.thread? thread = some r) : r ∈ s.threads.toList := by
  obtain ⟨place, -, hr⟩ := thread?_eq_some.mp h
  exact Array.mem_toList_iff.mpr (Array.mem_of_getElem? hr)

/-- Every record has a number. -/
theorem HasRoom.exists_thread? (hroom : s.HasRoom) (h : r ∈ s.threads.toList) :
    ∃ thread, s.thread? thread = some r := by
  obtain ⟨place, hlt, rfl⟩ := Array.mem_iff_getElem.mp (Array.mem_toList_iff.mp h)
  have hplace : firstThread + place < Nat.pow 2 63 :=
    Nat.lt_of_lt_of_le (Nat.add_lt_add_left hlt _) hroom
  exact ⟨threadId place, thread?_eq_some.mpr
    ⟨place, threadPlace?_eq_some.mpr ⟨rfl, hplace⟩, Array.getElem?_eq_getElem hlt⟩⟩

/-- What holds of all threads holds of all records. -/
theorem HasRoom.forall_mem (hroom : s.HasRoom) {P : Thread → Prop}
    (h : ∀ thread r, s.thread? thread = some r → P r) : ∀ r ∈ s.threads.toList, P r := by
  intro r hr
  obtain ⟨thread, hthread⟩ := hroom.exists_thread? hr
  exact h thread r hthread

/-! ## Changing a record -/

@[simp] theorem failure_modifyThread (s : Shared) (thread : ThreadId) (f : Thread → Thread) :
    (s.modifyThread thread f).failure = s.failure := by
  rw [modifyThread]
  split <;> rfl

@[simp] theorem isHalted_modifyThread (s : Shared) (thread : ThreadId) (f : Thread → Thread) :
    (s.modifyThread thread f).isHalted = s.isHalted := by
  rw [modifyThread]
  split <;> rfl

@[simp] theorem size_threads_modifyThread (s : Shared) (thread : ThreadId)
    (f : Thread → Thread) : (s.modifyThread thread f).threads.size = s.threads.size := by
  rw [modifyThread]
  split
  · exact Array.size_modify
  · rfl

/-- Changing the record of a thread changes that record and no other. -/
theorem thread?_modifyThread (s : Shared) (thread : ThreadId) (f : Thread → Thread)
    (other : ThreadId) :
    (s.modifyThread thread f).thread? other =
      if other = thread then (s.thread? thread).map f else s.thread? other := by
  rw [modifyThread]
  split
  · rename_i place hplace
    by_cases h : other = thread
    · subst h
      rw [if_pos rfl, thread?, thread?, hplace, Option.bind_some, Option.bind_some,
        Array.getElem?_modify, if_pos rfl]
    · rw [if_neg h, thread?, thread?]
      cases hother : threadPlace? other with
      | none => rfl
      | some q =>
        -- Different numbers have different places.
        have hne : place ≠ q := by
          rintro rfl
          exact h ((threadPlace?_eq_some.mp hother).1.trans
            (threadPlace?_eq_some.mp hplace).1.symm)
        rw [Option.bind_some, Option.bind_some, Array.getElem?_modify, if_neg hne]
  · rename_i hplace
    split
    · rename_i h
      rw [h, thread?, hplace]
      rfl
    · rfl

theorem thread?_deliver (s : Shared) (thread : ThreadId) (outcome : Outcome)
    (other : ThreadId) :
    (s.deliver thread outcome).thread? other =
      if other = thread then (s.thread? thread).map fun t => { t with outcome }
      else s.thread? other :=
  thread?_modifyThread ..

/-! ## A new thread -/

/-- The number of the next thread is new. -/
theorem thread?_next (hroom : firstThread + s.threads.size < Nat.pow 2 63) :
    s.thread? (threadId s.threads.size) = none := by
  rw [thread?, threadPlace?_eq_some.mpr ⟨rfl, hroom⟩]
  exact Array.getElem?_eq_none (Nat.le_refl _)

/-- A new thread leaves the others as they are. -/
theorem thread?_push (hroom : firstThread + s.threads.size < Nat.pow 2 63)
    (h : s'.threads = s.threads.push r) (other : ThreadId) :
    s'.thread? other =
      if other = threadId s.threads.size then some r else s.thread? other := by
  have hnext := threadPlace?_eq_some.mpr ⟨rfl, hroom⟩
  rw [thread?, thread?, h]
  by_cases hother : other = threadId s.threads.size
  · rw [if_pos hother, hother, hnext, Option.bind_some, Array.getElem?_push, if_pos rfl]
  · rw [if_neg hother]
    cases hplace : threadPlace? other with
    | none => rfl
    | some place =>
      have hne : place ≠ s.threads.size := by
        rintro rfl
        exact hother (threadPlace?_eq_some.mp hplace).1
      rw [Option.bind_some, Option.bind_some, Array.getElem?_push, if_neg hne]

/-! ## Threads that have not ended -/

/-- There is such a thread and it has not ended. -/
def isLive (s : Shared) (thread : ThreadId) : Bool :=
  (s.thread? thread).any fun t => !t.outcome.hasEnded

theorem isLive_eq_true :
    s.isLive thread = true ↔ ∃ t, s.thread? thread = some t ∧ t.outcome.hasEnded = false := by
  rw [isLive, Option.any_eq_true]
  simp only [Bool.not_eq_true']

theorem isLive_congr (h : s'.threads = s.threads) (thread : ThreadId) :
    s'.isLive thread = s.isLive thread := by
  rw [isLive, isLive, thread?_congr h]

theorem isLive_modifyThread (s : Shared) (thread : ThreadId) (f : Thread → Thread)
    (hf : ∀ t, (f t).outcome = t.outcome) (other : ThreadId) :
    (s.modifyThread thread f).isLive other = s.isLive other := by
  rw [isLive, isLive, thread?_modifyThread]
  split
  · rename_i h
    rw [h]
    cases s.thread? thread <;> simp [hf]
  · rfl

/-- A thread that has been ended is not live any more. -/
theorem isLive_deliver {outcome : Outcome} (h : outcome.hasEnded = true) (s : Shared)
    (thread other : ThreadId) :
    (s.deliver thread outcome).isLive other = (s.isLive other && other != thread) := by
  rw [isLive, isLive, thread?_deliver]
  by_cases hother : other = thread
  · rw [if_pos hother, bne_eq_false_iff_eq.mpr hother, Bool.and_false]
    cases s.thread? thread <;> simp [h]
  · rw [if_neg hother, bne_iff_ne.mpr hother, Bool.and_true]

theorem isLive_push (hroom : firstThread + s.threads.size < Nat.pow 2 63)
    (h : s'.threads = s.threads.push r) (hr : r.outcome.hasEnded = false) (other : ThreadId) :
    s'.isLive other = (s.isLive other || other == threadId s.threads.size) := by
  rw [isLive, isLive, thread?_push hroom h]
  by_cases hother : other = threadId s.threads.size
  · rw [if_pos hother, beq_iff_eq.mpr hother, Bool.or_true]
    simp [hr]
  · rw [if_neg hother, beq_eq_false_iff_ne.mpr hother, Bool.or_false]

theorem outcomeOf_eq (h : s.thread? thread = some r) : s.outcomeOf thread = r.outcome := by
  rw [outcomeOf, h]

/-! ## All threads of a call -/

/-- A call has been joined if none of its threads is live. -/
theorem hasJoined_iff (hroom : s.HasRoom) :
    s.hasJoined call = true ↔
      ∀ thread t, s.thread? thread = some t → t.call = call → t.outcome.hasEnded = true := by
  have hmem : s.hasJoined call = true ↔
      ∀ t ∈ s.threads.toList, t.call = call → t.outcome.hasEnded = true := by
    simp only [hasJoined, List.all_eq_true, Bool.or_eq_true, bne_iff_ne, ne_eq,
      ← Decidable.imp_iff_not_or]
  rw [hmem]
  exact ⟨fun h thread t ht => h t (mem_of_thread? ht), hroom.forall_mem⟩

theorem crashed_eq_nil (h : ∀ t ∈ s.threads.toList, t.call = call → t.outcome ≠ .crashed) :
    s.crashed call = [] := by
  rw [crashed]
  generalize s.threads.toList = threads at h
  generalize 0 = place
  induction threads generalizing place with
  | nil => rfl
  | cons t rest ih =>
    rw [List.forall_mem_cons] at h
    rw [crashedFrom]
    split
    · rename_i hcrashed
      rw [if_neg fun hcall => h.1 hcall hcrashed]
      exact ih h.2 _
    · exact ih h.2 _

end Shared
end Opstack
