import Opstack.Proofs.Machine.Renaming
import Opstack.Proofs.Machine.Sole

/-!
# The numbers of objects do not matter

What a call does must not depend on how many objects earlier calls have left on the heap.  Two
machines that differ in nothing but that (`Machine.Counterparts`) are taken through the same call.
Turn by turn they are at the same places with the same values, only that the new objects of one have
numbers which are those of the other moved by a fixed distance (`Machine.counterpart`), and neither
touches an object that was there before.

The exceptions are the ones where a number can be seen: a reference in the code, an argument that is
a reference, and a reference that is written to the output.

`Machine.Counterparts.call_renumbered` is the whole statement.
-/

set_option autoImplicit false

namespace Opstack

/-! ## Tasks that look alike -/

section

variable (r : ObjectId → ObjectId → Prop)

/-- Both results are values or failures that look alike. -/
def ResultAlike : Except Failure Value → Except Failure Value → Prop
  | .ok v, .ok v' => v.Alike r v'
  | .error e, .error e' => e.Alike r e'
  | _, _ => False

/-- Both tasks are at the same point of a call, with values that look alike. -/
inductive Task.Alike : Task → Task → Prop
  | running {x x' : Execution} (h : x.Alike r x') : Alike (.running x) (.running x')
  | failing {thread : Option ThreadId} {call call' : Nat} {e e' : Failure} (h : e.Alike r e') :
    Alike (.failing thread call e) (.failing thread call' e')
  | joining {call call' : Nat} {result result' : Except Failure Value}
    (h : ResultAlike r result result') : Alike (.joining call result) (.joining call' result')
  | closing {call call' : Nat} {result result' : Except Failure Value}
    (h : ResultAlike r result result') : Alike (.closing call result) (.closing call' result')
  | answered {call call' : Nat} {result result' : Except Failure Value}
    (h : ResultAlike r result result') : Alike (.answered call result) (.answered call' result')

/-- The shared states look alike, and so do the recorded failures. -/
structure Shared.AlikeBooked (shown shown' : String) (s s' : Shared) : Prop
    extends s.Alike r shown shown' s' where
  /-- The recorded failures look alike. -/
  failure : Option.Rel (Failure.Alike r) s.failure s'.failure

end

section

variable {r r' : ObjectId → ObjectId → Prop} {shown shown' : String} {s s' : Shared}
  {t t' : Task} {number number' : Nat}

/-- A failure that is recorded on both sides. -/
theorem Shared.AlikeBooked.fail (hs : s.AlikeBooked r shown shown' s') {e e' : Failure}
    (he : e.Alike r e') : (s.fail e).AlikeBooked r shown shown' (s'.fail e') := by
  refine ⟨⟨hs.routines, hs.refFree, hs.config, rfl, hs.heap, hs.console⟩, ?_⟩
  have hfailure := hs.failure
  rw [Shared.fail, Shared.fail]
  generalize s.failure = a, s'.failure = b at hfailure
  cases hfailure with
  | none => exact .some he
  | some he => exact .some he

/-- The end of a call without threads. -/
theorem Shared.AlikeBooked.join (hs : s.AlikeBooked r shown shown' s')
    (hcrashed : s.crashed number = []) (hcrashed' : s'.crashed number' = []) :
    (Task.join s number).AlikeBooked r shown shown' (Task.join s' number') := by
  obtain ⟨hanswer, hconsole⟩ := hs.console.flush
  simp only [Task.join, hcrashed, hcrashed', List.foldl_nil]
  generalize s.console.flush = a, s'.console.flush = b at hanswer hconsole
  obtain ⟨answer, c⟩ := a
  obtain ⟨answer', c'⟩ := b
  obtain rfl : answer' = answer := hanswer
  have hflushed : ({ s with console := c } : Shared).AlikeBooked r shown shown'
      { s' with console := c' } :=
    ⟨⟨hs.routines, hs.refFree, hs.config, hs.isHalted, hs.heap, hconsole⟩, hs.failure⟩
  cases answer' with
  | ok _ => exact hflushed
  | error reason => exact hflushed.fail ⟨.same fun _ h => (by cases h), rfl, rfl⟩

theorem Task.answer_alike {failure failure' : Option Failure}
    {result result' : Except Failure Value}
    (hfailure : Option.Rel (Failure.Alike r) failure failure')
    (hresult : ResultAlike r result result') :
    ResultAlike r (answer failure result) (answer failure' result') := by
  cases hfailure with
  | none => exact hresult
  | some he => exact he

/-- What a turn makes of tasks that look alike. -/
def TurnAlike (r : ObjectId → ObjectId → Prop) (shown shown' : String) (s s' : Shared)
    (p p' : Shared × List Task) : Prop :=
  ∃ r', Grown r s.heap s'.heap p.1.heap p'.1.heap r' ∧ p.1.AlikeBooked r' shown shown' p'.1 ∧
    List.Forall₂ (Task.Alike r') p.2 p'.2

/-- **A turn makes the same of the only tasks of calls that look alike.** -/
theorem Task.Alike.turn (ht : t.Alike r t') (hs : s.AlikeBooked r shown shown' s')
    (hsole : t.Sole number s) (hsole' : t'.Sole number' s')
    (hthreads : ∀ r ∈ s.threads.toList, r.call ≠ number)
    (hthreads' : ∀ r ∈ s'.threads.toList, r.call ≠ number')
    (hunseen : ∀ x, t = .running x → x.Opaque) :
    TurnAlike r shown shown' s s' (t.turn s) (t'.turn s') := by
  have hnone : ∀ {s : Shared} {number : Nat}, (∀ r ∈ s.threads.toList, r.call ≠ number) →
      s.crashed number = [] := fun h =>
    Shared.crashed_eq_nil fun r hr hcall => absurd hcall (h r hr)
  cases ht with
  | @running x x' hx =>
    obtain ⟨hthread, -, hfailure, hrun⟩ := hsole
    obtain ⟨hthread', -, hfailure', -⟩ := hsole'
    obtain ⟨r', hgrown, hs', hturn⟩ := step_alike hs.toAlike hx (hunseen x rfl)
    have hkept : ∀ s x, (step s x).1.failure = s.failure := fun s x => by
      obtain ⟨heap, console, threads, hstep⟩ := exists_step s x
      rw [hstep]
    have hbooked : (step s x).1.AlikeBooked r' shown shown' (step s' x').1 :=
      ⟨hs', by rw [hkept, hkept, hfailure, hfailure']; exact .none⟩
    rw [turn, turn, hthread, hthread']
    generalize step s x = p, step s' x' = p' at hgrown hturn hbooked
    obtain ⟨s₁, turn⟩ := p
    obtain ⟨s₁', turn'⟩ := p'
    cases hturn with
    | continues hy => exact ⟨r', hgrown, hbooked, .cons (.running hy) .nil⟩
    | returns hv => exact ⟨r', hgrown, hbooked, .cons (.joining hv) .nil⟩
    | fails he => exact ⟨r', hgrown, hbooked, .cons (.failing he) .nil⟩
    | crashes => exact ⟨r', hgrown, hbooked, .nil⟩
  | @failing thread call call' e e' he =>
    obtain ⟨rfl, -, -⟩ := hsole
    exact ⟨r, .same rfl rfl, hs.fail he, .cons (.joining he) .nil⟩
  | @joining call call' result result' hresult =>
    obtain ⟨rfl, -⟩ := hsole
    obtain ⟨rfl, -⟩ := hsole'
    rw [turn_joining hthreads, turn_joining hthreads']
    refine ⟨r, .same ?_ ?_, hs.join (hnone hthreads) (hnone hthreads'),
      .cons (.closing hresult) .nil⟩
    · rw [heap_join]
    · rw [heap_join]
  | closing hresult =>
    exact ⟨r, .same rfl rfl,
      ⟨⟨hs.routines, hs.refFree, hs.config, rfl, hs.heap, hs.console⟩, .none⟩,
      .cons (.answered (answer_alike hs.failure hresult)) .nil⟩
  | answered h => exact ⟨r, .same rfl rfl, hs, .cons (.answered h) .nil⟩

theorem Task.Alike.canMove_eq (ht : t.Alike r t') (hsole : t.Sole number s)
    (hsole' : t'.Sole number' s') (hthreads : ∀ r ∈ s.threads.toList, r.call ≠ number)
    (hthreads' : ∀ r ∈ s'.threads.toList, r.call ≠ number') :
    t'.canMove s' = t.canMove s := by
  cases ht with
  | running | failing | closing | answered => rfl
  | joining =>
    obtain ⟨rfl, -⟩ := hsole
    obtain ⟨rfl, -⟩ := hsole'
    exact (Machine.hasJoined_of_ne hthreads').trans (Machine.hasJoined_of_ne hthreads).symm

end

/-! ## Two machines -/

/-- The first so many objects from one number on correspond to those from another one on. -/
def Shifted (n n' k : Nat) (o o' : ObjectId) : Prop := ∃ j, j < k ∧ o = n + j ∧ o' = n' + j

theorem along_shifted (n n' k : Nat) :
    Along (Shifted n n' k) (n + k) (n' + k) = Shifted n n' (k + 1) := by
  funext o o'
  refine propext ⟨?_, ?_⟩
  · rintro (⟨j, hj, rfl, rfl⟩ | ⟨rfl, rfl⟩)
    · exact ⟨j, Nat.lt_succ_of_lt hj, rfl, rfl⟩
    · exact ⟨k, Nat.lt_succ_self k, rfl, rfl⟩
  · rintro ⟨j, hj, rfl, rfl⟩
    rcases Nat.lt_succ_iff_lt_or_eq.mp hj with hj | rfl
    · exact .inl ⟨j, hj, rfl, rfl⟩
    · exact .inr ⟨rfl, rfl⟩

namespace Machine

/-- The number that an object of one machine has in the other one: it is moved by the distance
between the next objects of both. -/
def counterpart (m m' : Machine) (o : ObjectId) : ObjectId :=
  o + m'.shared.heap.nextObject - m.shared.heap.nextObject

theorem eq_counterpart {m m' : Machine} {k : Nat} {o o' : ObjectId}
    (h : Shifted m.shared.heap.nextObject m'.shared.heap.nextObject k o o') :
    o' = m.counterpart m' o := by
  obtain ⟨j, -, rfl, rfl⟩ := h
  rw [counterpart, Nat.add_assoc, Nat.add_sub_cancel_left, Nat.add_comm]

/-- Two machines between calls that have the same routines and settings and the same input, but
may have different objects. -/
structure Counterparts (m m' : Machine) : Prop where
  /-- Nothing is under way in one machine. -/
  idle : m.Idle
  /-- Nothing is under way in the other one. -/
  idle' : m'.Idle
  /-- Both have the same routines. -/
  routines : ∀ name, m'.shared.find? name = m.shared.find? name
  /-- No routine carries a reference. -/
  refFree : ∀ routine ∈ m.shared.routines, routine.RefFree
  /-- Both have the same settings. -/
  config : m'.shared.config = m.shared.config
  /-- Arrays may be equally long in both. -/
  limits : m'.shared.heap.limits = m.shared.heap.limits
  /-- Both have the same input and may write and flush as much. -/
  console : m.shared.console.Alike m.shared.console.output m'.shared.console.output
    m'.shared.console

/-- The machines are in a call: they look alike, with so many new objects, and the
objects from before are as they were. -/
structure Parallel (m m' : Machine) (k : Nat) (a b : Machine) : Prop where
  /-- One machine is in a call without threads. -/
  sole : a.Sole m.calls
  /-- The other one is, too. -/
  sole' : b.Sole m'.calls
  /-- So many objects are new. -/
  next : a.shared.heap.nextObject = m.shared.heap.nextObject + k
  /-- As many are in the other machine. -/
  next' : b.shared.heap.nextObject = m'.shared.heap.nextObject + k
  /-- What the executions share looks alike. -/
  shared : a.shared.AlikeBooked
    (Shifted m.shared.heap.nextObject m'.shared.heap.nextObject k) m.shared.console.output
    m'.shared.console.output b.shared
  /-- The tasks look alike. -/
  tasks : List.Forall₂
    (Task.Alike (Shifted m.shared.heap.nextObject m'.shared.heap.nextObject k)) a.tasks b.tasks
  /-- The other objects are as they were. -/
  old : ∀ o, o < m.shared.heap.nextObject → a.shared.heap.find? o = m.shared.heap.find? o
  /-- So are those of the other machine. -/
  old' : ∀ o, o < m'.shared.heap.nextObject → b.shared.heap.find? o = m'.shared.heap.find? o

variable {m m' a b : Machine} {k : Nat} {name : String} {args : List Value}

/-- Plain values look alike whatever corresponds. -/
theorem forall₂_alike_self {r : ObjectId → ObjectId → Prop} {values : List Value}
    (h : ∀ v ∈ values, v.asRef? = none) : List.Forall₂ (Value.Alike r) values values :=
  List.forall₂_same.mpr fun v hv => .same (h v hv)

theorem Counterparts.parallel_begin (h : m.Counterparts m')
    (hargs : ∀ v ∈ args, v.asRef? = none) :
    Parallel m m' 0 (m.begin name args) (m'.begin name args) := by
  have hnothing : ∀ {n n' o o' : Nat}, ¬ Shifted n n' 0 o o' := fun ⟨j, hj, _⟩ =>
    Nat.not_lt_zero j hj
  have hrefFree : ∀ name routine, m.shared.find? name = some routine → routine.RefFree :=
    fun name routine hfind => h.refFree routine (Shared.mem_of_find? hfind)
  refine ⟨h.idle.sole_begin name args, h.idle'.sole_begin name args, rfl, rfl,
    ⟨⟨h.routines, hrefFree, h.config, ?_, ?_, h.console⟩, ?_⟩, ?_, fun _ _ => rfl, fun _ _ => rfl⟩
  · exact h.idle'.running.trans h.idle.running.symm
  · exact ⟨⟨fun _ _ _ ho => (hnothing ho).elim, fun _ _ _ ho => (hnothing ho).elim⟩, h.limits,
      fun _ _ ho => (hnothing ho).elim⟩
  · change Option.Rel _ m.shared.failure m'.shared.failure
    rw [h.idle.failure, h.idle'.failure]
    exact .none
  · change List.Forall₂ _ (entry m.shared m.calls name args ++ m.tasks)
      (entry m'.shared m'.calls name args ++ m'.tasks)
    rw [h.idle.tasks, h.idle'.tasks, List.append_nil, List.append_nil, entry, entry, h.routines,
      h.config]
    cases hfind : m.shared.find? name with
    | none => exact .cons (.failing ⟨.same fun _ h => (by cases h), rfl, rfl⟩) .nil
    | some routine =>
      dsimp only
      split
      · exact .cons (.running ⟨rfl, forall₂_alike_self hargs,
          .cons (Frame.alike_begin (hrefFree name routine hfind)) .nil⟩) .nil
      · exact .nil

/-- **One turn** of both machines. -/
theorem Parallel.turned (h : Parallel m m' k a b) {t t' : Task} (htasks : a.tasks = [t])
    (htasks' : b.tasks = [t']) (hunseen : ∀ x, t = .running x → x.Opaque) :
    ∃ k', Parallel m m' k' (a.turned t) (b.turned t') := by
  have hsole := h.sole.of_tasks htasks
  have hsole' := h.sole'.of_tasks htasks'
  have ht : t.Alike (Shifted m.shared.heap.nextObject m'.shared.heap.nextObject k) t' := by
    have halike := h.tasks
    rw [htasks, htasks'] at halike
    cases halike with
    | cons ht _ => exact ht
  obtain ⟨r', hgrown, hshared, hnext⟩ := ht.turn h.shared hsole hsole' h.sole.threads
    h.sole'.threads hunseen
  have hop : ∀ x i, t = .running x → x.instr? = some i → i.op ≠ .thread ∧ i.op ≠ .wait :=
    fun x i hx hi => (hunseen x hx i hi).1
  have hop' : ∀ x i, t' = .running x → x.instr? = some i → i.op ≠ .thread ∧ i.op ≠ .wait := by
    rintro x' i rfl hi
    cases ht with
    | running hx => exact hop _ i rfl (hx.instr?_eq ▸ hi)
  have hlt : ∀ {n o : Nat}, o < n → ∀ c, o ≠ n + c := fun ho c =>
    Nat.ne_of_lt (Nat.lt_of_lt_of_le ho (Nat.le_add_right _ c))
  -- Whatever an instruction changes is at hand, and so it is new.
  have hold : ∀ o, o < m.shared.heap.nextObject →
      (t.turn a.shared).1.heap.find? o = m.shared.heap.find? o := fun o ho => by
    rw [← h.old o ho]
    refine t.find?_turn a.shared (h.next ▸ hlt ho k) ?_
    rintro x i rfl - htarget
    cases ht with
    | running hx =>
      obtain ⟨-, -, j, -, hj, -⟩ := (hx.exists_target i).1 o htarget
      exact hlt ho j hj
  have hold' : ∀ o, o < m'.shared.heap.nextObject →
      (t'.turn b.shared).1.heap.find? o = m'.shared.heap.find? o := fun o ho => by
    rw [← h.old' o ho]
    refine t'.find?_turn b.shared (h.next' ▸ hlt ho k) ?_
    rintro x' i rfl - htarget
    cases ht with
    | running hx =>
      obtain ⟨-, -, j, -, -, hj⟩ := (hx.exists_target i).2 o htarget
      exact hlt ho j hj
  have hturned := h.sole.turned htasks hop
  have hturned' := h.sole'.turned htasks' hop'
  cases hgrown with
  | same hsize hsize' =>
    exact ⟨k, hturned, hturned', hsize.trans h.next, hsize'.trans h.next', hshared, hnext, hold,
      hold'⟩
  | along hsize hsize' =>
    rw [h.next, h.next', along_shifted] at hshared hnext
    rw [h.next] at hsize
    rw [h.next'] at hsize'
    exact ⟨k + 1, hturned, hturned', hsize, hsize', hshared, hnext, hold, hold'⟩

/-- **A whole run** of both machines. -/
theorem Parallel.run (h : Parallel m m' k a b) (hunseen : ∀ x, a.Visits x → x.Opaque) (n : Nat) :
    ∃ k', Parallel m m' k' (run n a) (run n b) := by
  induction n generalizing k a b with
  | zero => exact ⟨k, h⟩
  | succ n ih =>
    have htasks₂ := h.tasks
    rcases h.sole.tasks with hnil | ⟨t, htasks, ht⟩
    · rw [hnil, List.forall₂_nil_left_iff] at htasks₂
      rw [run_of_ready?_eq_none (ready?_of_nil hnil), run_of_ready?_eq_none (ready?_of_nil htasks₂)]
      exact ⟨k, h⟩
    · rw [htasks, List.forall₂_cons_left_iff] at htasks₂
      obtain ⟨t', _, halike, hrest, htasks'⟩ := htasks₂
      obtain rfl := List.forall₂_nil_left_iff.mp hrest
      have hmove := halike.canMove_eq ht (h.sole'.of_tasks htasks') h.sole.threads h.sole'.threads
      cases hcan : t.canMove a.shared with
      | true =>
        rw [run_succ_of_tasks htasks hcan, run_succ_of_tasks htasks' (hmove.trans hcan)]
        obtain ⟨k', hnext⟩ := h.turned htasks htasks' fun x hx =>
          hunseen x (visits_of_tasks (hx ▸ htasks))
        exact ih hnext fun x hx => hunseen x (hx.of_turned htasks hcan)
      | false =>
        rw [run_of_ready?_eq_none (ready?_of_stuck htasks hcan),
          run_of_ready?_eq_none (ready?_of_stuck htasks' (hmove.trans hcan))]
        exact ⟨k, h⟩

end Machine

/-! ## Calls -/

namespace Heap

theorem find?_firstObject_add (h : Heap) (place : Nat) :
    h.find? (firstObject + place) = h.objects[place]? := by
  rw [find?, if_neg (Nat.not_lt_of_le (Nat.le_add_right _ _)), Nat.add_sub_cancel_left]

theorem size_eq_add {h h' : Heap} {k : Nat} (hnext : h'.nextObject = h.nextObject + k) :
    h'.objects.size = h.objects.size + k :=
  Nat.add_left_cancel (hnext.trans (Nat.add_assoc _ _ _))

/-- When the objects of a heap are as before, the new ones stand behind them. -/
theorem objects_eq_append {h h' : Heap}
    (hold : ∀ o, o < h.nextObject → h'.find? o = h.find? o) :
    h'.objects = h.objects ++ h'.objects.extract h.objects.size := by
  refine Array.ext_getElem? fun place => ?_
  rw [Array.getElem?_append]
  split
  · rename_i hlt
    rw [← find?_firstObject_add, ← find?_firstObject_add,
      hold _ (Nat.add_lt_add_left hlt firstObject)]
  · rename_i hge
    rw [Array.getElem?_extract]
    split
    · rw [Nat.add_sub_cancel' (Nat.le_of_not_lt hge)]
    · exact Array.getElem?_eq_none (by omega)

/-- The objects that are new in two heaps are the same up to a renaming if those of the same place
are. -/
theorem extract_eq_map {h₀ h₀' h h' : Heap} {k : Nat} {ρ : ObjectId → ObjectId}
    (hnext : h.nextObject = h₀.nextObject + k) (hnext' : h'.nextObject = h₀'.nextObject + k)
    (hobjects : ∀ j, j < k → ∃ object, h.find? (h₀.nextObject + j) = some object ∧
      h'.find? (h₀'.nextObject + j) = some (object.rename ρ)) :
    h'.objects.extract h₀'.objects.size =
      (h.objects.extract h₀.objects.size).map (Obj.rename ρ) := by
  have hsize := size_eq_add hnext
  have hsize' := size_eq_add hnext'
  refine Array.ext_getElem? fun j => ?_
  rw [Array.getElem?_map, Array.getElem?_extract, Array.getElem?_extract]
  by_cases hj : j < k
  · obtain ⟨object, hfind, hfind'⟩ := hobjects j hj
    rw [nextObject, Nat.add_assoc, find?_firstObject_add] at hfind hfind'
    rw [if_pos (by omega), if_pos (by omega), hfind, hfind']
    rfl
  · rw [if_neg (by omega), if_neg (by omega)]
    rfl

end Heap

/-- The task with other references, as one of another call. -/
def Task.renumber (ρ : ObjectId → ObjectId) (call : Nat) : Task → Task
  | .running x => .running { x.rename ρ with call }
  | .waiting x thread site => .waiting { x.rename ρ with call } thread site
  | .failing thread _ e => .failing thread call (e.rename ρ)
  | .joining _ result => .joining call (renameResult ρ result)
  | .closing _ result => .closing call (renameResult ρ result)
  | .answered _ result => .answered call (renameResult ρ result)

section

variable {r : ObjectId → ObjectId → Prop} {ρ : ObjectId → ObjectId}
  (hρ : ∀ o o', r o o' → o' = ρ o)
include hρ

theorem ResultAlike.eq_rename {result result' : Except Failure Value}
    (h : ResultAlike r result result') : result' = renameResult ρ result := by
  cases result with
  | ok v =>
    cases result' with
    | ok v' => exact congrArg Except.ok (Value.Alike.eq_rename hρ h)
    | error e' => exact h.elim
  | error e =>
    cases result' with
    | ok v' => exact h.elim
    | error e' => exact congrArg Except.error (Failure.Alike.eq_rename hρ h)

theorem Task.Alike.eq_renumber {t t' : Task} {number : Nat} {s : Shared} (h : t.Alike r t')
    (hsole : t'.Sole number s) : t' = t.renumber ρ number := by
  cases h with
  | running hx =>
    obtain ⟨-, hcall, -⟩ := hsole
    rw [renumber, ← hcall, ← hx.eq_rename hρ]
  | failing he =>
    obtain ⟨-, rfl, -⟩ := hsole
    rw [renumber, he.eq_rename hρ]
  | joining h | closing h =>
    obtain ⟨rfl, -⟩ := hsole
    rw [renumber, h.eq_rename hρ]
  | answered h =>
    obtain rfl := hsole
    rw [renumber, h.eq_rename hρ]

end

namespace Machine

/-- What has become of two machines in a call is the same but for the numbers of new objects. -/
structure Renumbered (m m' a b : Machine) : Prop where
  /-- The executions are at the same place with the same values. -/
  tasks : b.tasks = a.tasks.map (Task.renumber (m.counterpart m') m'.calls)
  /-- The same input is left. -/
  input : b.shared.console.input = a.shared.console.input
  /-- The same text has been written. -/
  output : ∃ text, a.shared.console.output = m.shared.console.output ++ text ∧
    b.shared.console.output = m'.shared.console.output ++ text
  /-- The objects from before are as they were, and the same ones are new. -/
  objects : ∃ new, a.shared.heap.objects = m.shared.heap.objects ++ new ∧
    b.shared.heap.objects = m'.shared.heap.objects ++ new.map (Obj.rename (m.counterpart m'))

variable {m m' a b : Machine} {k : Nat} {name : String} {args : List Value}

theorem Parallel.renumbered (h : Parallel m m' k a b) : Renumbered m m' a b := by
  have hρ : ∀ o o', Shifted m.shared.heap.nextObject m'.shared.heap.nextObject k o o' →
      o' = m.counterpart m' o := fun _ _ => eq_counterpart
  refine ⟨?_, h.shared.console.input, h.shared.console.output, ?_⟩
  · have halike := h.tasks
    rcases h.sole'.tasks with hnil | ⟨t', htasks', ht'⟩
    · rw [hnil] at halike ⊢
      rw [List.forall₂_nil_right_iff.mp halike]
      rfl
    · rw [htasks'] at halike ⊢
      obtain ⟨t, _, ht, hrest, htasks⟩ := List.forall₂_cons_right_iff.mp halike
      rw [htasks, List.forall₂_nil_right_iff.mp hrest, ht.eq_renumber hρ ht']
      rfl
  · refine ⟨_, Heap.objects_eq_append h.old, ?_⟩
    rw [← Heap.extract_eq_map h.next h.next' fun j hj => ?_]
    · exact Heap.objects_eq_append h.old'
    · obtain ⟨object, object', hfind, hfind', hobject⟩ :=
        h.shared.heap.objects _ _ ⟨j, hj, rfl, rfl⟩
      exact ⟨object, hfind, hobject.eq_rename hρ ▸ hfind'⟩

/-- A renumbered answer is the answer with its number. -/
theorem Sole.answerOf?_renumber {number : Nat} (h : a.Sole number) (ρ : ObjectId → ObjectId)
    (number' : Nat) : answerOf? number' (a.tasks.map (Task.renumber ρ number')) =
      (answerOf? number a.tasks).map (renameResult ρ) := by
  rcases h.tasks with hnil | ⟨t, htasks, ht⟩
  · rw [hnil]
    rfl
  · rw [htasks]
    cases t with
    | answered call result =>
      obtain rfl : call = number := ht
      rw [answerOf?, if_pos rfl]
      exact if_pos rfl
    | _ => rfl

/-- **Programs cannot tell how many objects there were before.**  Two machines that differ in
nothing but their objects take the same turns in a call without threads that writes no reference.
After any number of turns the executions are at the same places with the same values, the same
input is left, the same text has been written, and the objects from before are as they were; only
the new objects have other numbers, moved by the distance between the first of them.  So the answers
are the same but for these numbers. -/
theorem Counterparts.call_renumbered (h : m.Counterparts m')
    (hargs : ∀ v ∈ args, v.asRef? = none)
    (hunseen : ∀ x, (m.begin name args).Visits x → x.Opaque) (turns : Nat) :
    Renumbered m m' (run turns (m.begin name args)) (run turns (m'.begin name args)) ∧
      (m'.call turns name args).1 =
        (m.call turns name args).1.map (renameResult (m.counterpart m')) := by
  obtain ⟨k, hparallel⟩ := (h.parallel_begin hargs).run hunseen turns
  have hrenumbered := hparallel.renumbered
  refine ⟨hrenumbered, ?_⟩
  rw [call, call, hrenumbered.tasks]
  exact hparallel.sole.answerOf?_renumber _ _

/-- A routine that makes a record and gives it a field. -/
def makeRecord : Routine :=
  ⟨"make", #[.plain .allocs, .plain .dup, .push (.int 7), .setf "f", .plain .ret]⟩

/-- A machine with that routine. -/
def maker : Machine := (create {} {}).add makeRecord

/-- The machine with one more object, from before. -/
def laterMaker : Machine := maker.react (.ask .allocRecord)

theorem counterparts_maker : maker.Counterparts laterMaker where
  idle := (Used.create {} {} |>.add makeRecord).idle
  idle' := ⟨rfl, rfl, rfl, List.forall_mem_nil _⟩
  routines _ := rfl
  refFree routine hmem := by
    obtain rfl := List.mem_singleton.mp hmem
    have hcode : ∀ i ∈ makeRecord.code.toList, i.isRefFree = true := by decide
    exact Routine.refFree_of_code hcode
  config := rfl
  limits := rfl
  console := .refl _

theorem call_renumbered_maker : (maker.call 20 "make" []).1 = some (.ok (.ref 2025)) ∧
    (laterMaker.call 20 "make" []).1 = some (.ok (.ref 2026)) := by
  have hunseen : ∀ x, (maker.begin "make" []).Visits x → x.Opaque := by
    intro x hx i hi
    obtain ⟨r, hr, hmem⟩ := hx.mem_routines rfl hi
    obtain rfl := List.mem_singleton.mp hr
    have hcode : ∀ i ∈ makeRecord.code.toList,
        (i.op ≠ .thread ∧ i.op ≠ .wait) ∧ i.op ≠ .write := by decide
    exact ⟨(hcode i hmem).1, fun hwrite => absurd hwrite (hcode i hmem).2⟩
  have hanswer : (maker.call 20 "make" []).1 = some (.ok (.ref 2025)) := rfl
  refine ⟨hanswer, ?_⟩
  rw [(counterparts_maker.call_renumbered (List.forall_mem_nil _) hunseen 20).2, hanswer]
  rfl

end Machine
end Opstack
