import Mathlib.Data.List.Induction
import Mathlib.Tactic.IntervalCases
import Opstack.Proofs.Machine.Renaming

/-!
# Executions that leave one another alone

Several executions share a state and proceed in any order, one instruction of one of them at a time
(`Crew.follow`).  If each of them, alone, would come to its end with a value, would leave input,
output and threads alone, and would set fields and cells of its own objects only, then in every
order each of them goes through the same states as alone (`solo`), up to the numbers of the objects
that it allocates.

What an execution can get at must not depend on what others allocate, so whatever the executions can
reach on the shared heap (`Heap.Reaches`) must be there from the beginning.

* `Crew.drives_follow`: as long as no execution ends, a crew is a machine whose tasks are the
  executions.
* `Mirrors` says how far an execution in a crew looks like itself alone; `Mirrors.step` is a step
  of the execution, and `Mirrors.frame` a step of another one.
* `Crew.Apart` says so of all executions at once, and `Crew.exists_apart` of every order of steps.
* `Independent.exists_renaming` says what follows for states, results and objects, and
  `not_exists_renaming_seekers` that it fails with a reference to an object that is not there.
-/

set_option autoImplicit false

namespace Opstack

/-! ## Crews -/

/-- The state after so many steps of an execution that is alone, and what the latest one has made
of it. -/
def solo (s : Shared) (x : Execution) : Nat → Shared × Turn
  | 0 => (s, .continues x)
  | n + 1 =>
    match solo s x n with
    | (s, .continues x) => step s x
    | (s, turn) => (s, turn)

theorem solo_succ_of_continues {s s₁ : Shared} {x y : Execution} {n : Nat}
    (h : solo s x n = (s₁, .continues y)) : solo s x (n + 1) = step s₁ y := by
  rw [solo, h]

/-- An execution that has ended takes no more steps. -/
theorem solo_succ_of_ended {s : Shared} {x : Execution} {n : Nat}
    (h : ∀ y, (solo s x n).2 ≠ .continues y) : solo s x (n + 1) = solo s x n := by
  rw [solo]
  generalize solo s x n = p at h
  obtain ⟨s₁, turn⟩ := p
  cases turn with
  | continues y => exact absurd rfl (h y)
  | _ => rfl

theorem solo_of_le {s : Shared} {x : Execution} {m n : Nat} (hle : n ≤ m)
    (h : ∀ y, (solo s x n).2 ≠ .continues y) : solo s x m = solo s x n := by
  induction hle with
  | refl => rfl
  | step _ ih => rw [solo_succ_of_ended (ih ▸ h), ih]

/-- Executions that share a state, each with what its latest step has made of it. -/
structure Crew where
  /-- What the executions share. -/
  shared : Shared
  /-- What has become of the executions. -/
  members : List Turn

namespace Crew

/-- Executions that have not taken a step yet. -/
def start (s : Shared) (xs : List Execution) : Crew := ⟨s, xs.map .continues⟩

/-- Lets the execution at a position take one step, if it has not ended. -/
def advance (c : Crew) (position : Nat) : Crew :=
  match c.members[position]? with
  | some (.continues x) =>
    let (s, turn) := step c.shared x
    ⟨s, c.members.set position turn⟩
  | _ => c

/-- Lets executions take steps in a given order. -/
def follow (c : Crew) (order : List Nat) : Crew := order.foldl advance c

variable {c : Crew} {k : Nat}

theorem advance_of_continues {x : Execution} (h : c.members[k]? = some (.continues x)) :
    c.advance k = ⟨(step c.shared x).1, c.members.set k (step c.shared x).2⟩ := by
  rw [advance, h]

/-- Nothing happens at a position without an execution that has not ended. -/
theorem advance_of_ended (h : ∀ x, c.members[k]? ≠ some (.continues x)) : c.advance k = c := by
  rw [advance]
  split
  · exact absurd ‹_› (h _)
  · rfl

end Crew

/-- A turn after which a task goes on. -/
theorem Task.turnAt_of_single {s : Shared} {tasks : List Task} {position : Nat} {t u : Task}
    (ht : tasks[position]? = some t) (hturn : (t.turn s).2 = [u]) :
    turnAt s position tasks = ((t.turn s).1, tasks.set position u) := by
  induction tasks generalizing position with
  | nil => cases ht
  | cons first rest ih =>
    cases position with
    | zero =>
      cases ht
      exact congrArg (fun tasks => ((t.turn s).1, tasks ++ rest)) hturn
    | succ position =>
      rw [turnAt, ih ht]
      rfl

namespace Crew

variable {c : Crew} {k : Nat}

/-- A machine in whose tasks the executions of a crew are under way. -/
structure Drives (m : Machine) (c : Crew) : Prop where
  /-- The shared state is the same. -/
  shared : m.shared = c.shared
  /-- The tasks are the executions. -/
  tasks : ∃ xs : List Execution, m.tasks = xs.map .running ∧ c.members = xs.map .continues

/-- A step after which no execution has ended is a turn of the machine. -/
theorem Drives.advance {m : Machine} (h : Drives m c)
    (hgoes : ∀ t ∈ (c.advance k).members, ∃ x, t = .continues x) :
    Drives (m.advance k) (c.advance k) := by
  obtain ⟨s, tasks, calls⟩ := m
  obtain ⟨s', members⟩ := c
  obtain ⟨rfl, xs, rfl, rfl⟩ := h
  cases hx : xs[k]? with
  | none =>
    rw [Machine.advance_eq_self (by rw [List.getElem?_map, hx]; rfl),
      advance_of_ended fun x hx' => by rw [List.getElem?_map, hx] at hx'; cases hx']
    exact ⟨rfl, xs, rfl, rfl⟩
  | some x =>
    have hmember : (xs.map Turn.continues)[k]? = some (.continues x) := by
      rw [List.getElem?_map, hx]
      rfl
    have htask : (xs.map Task.running)[k]? = some (.running x) := by
      rw [List.getElem?_map, hx]
      rfl
    obtain ⟨hk, -⟩ := List.getElem?_eq_some_iff.mp hmember
    rw [advance_of_continues hmember] at hgoes ⊢
    obtain ⟨y, hy⟩ := hgoes _ (List.mem_set hk _)
    have hturn : (Task.running x).turn s = ((step s x).1, [.running y]) := by
      dsimp only at hy
      rw [Task.turn]
      generalize step s x = p at hy
      obtain ⟨s', turn⟩ := p
      obtain rfl : turn = .continues y := hy
      rfl
    rw [Machine.advance, Task.turnAt_of_single htask (by rw [hturn]), hturn]
    exact ⟨rfl, xs.set k y, List.map_set.symm, by rw [List.map_set, ← hy]⟩

/-- An execution that has ended stays so. -/
theorem continues_of_advance (hgoes : ∀ t ∈ (c.advance k).members, ∃ x, t = .continues x) :
    ∀ t ∈ c.members, ∃ x, t = .continues x := by
  intro t ht
  obtain ⟨j, hj⟩ := List.mem_iff_getElem?.mp ht
  by_cases hended : ∀ x, c.members[k]? ≠ some (.continues x)
  · rw [advance_of_ended hended] at hgoes
    exact hgoes t ht
  · obtain ⟨x, hx⟩ := not_forall.mp hended
    rw [not_not] at hx
    rw [advance_of_continues hx] at hgoes
    rcases eq_or_ne j k with rfl | hne
    · exact ⟨x, Option.some.inj (hj.symm.trans hx)⟩
    · exact hgoes t (List.mem_of_getElem? ((List.getElem?_set_ne hne.symm).trans hj))

/-- **A crew is a machine** whose tasks are the executions, as long as all of them go on. -/
theorem drives_follow (s : Shared) (xs : List Execution) (calls : Nat) (order : List Nat)
    (hgoes : ∀ t ∈ ((start s xs).follow order).members, ∃ x, t = .continues x) :
    Drives (Machine.follow ⟨s, xs.map .running, calls⟩ order) ((start s xs).follow order) := by
  induction order using List.reverseRecOn with
  | nil => exact ⟨rfl, xs, rfl, rfl⟩
  | append_singleton order k ih =>
    rw [follow, List.foldl_append] at hgoes ⊢
    rw [Machine.follow, List.foldl_append]
    exact (ih (continues_of_advance hgoes)).advance hgoes

end Crew

/-- The next instruction neither reads nor writes nor is about threads, and sets no field or cell
of an object from before a given one. -/
def Execution.keepsApart (first : ObjectId) (x : Execution) : Bool :=
  match x.instr? with
  | none => true
  | some i =>
    i.op != .read && i.op != .write && i.op != .thread && i.op != .wait &&
      (x.target? i).all fun o => decide (first ≤ o)

/-- Each of the executions, alone, comes to its end with a value and keeps apart from the others.
All their references are to objects that are there from the beginning, and no routine carries a
reference. -/
structure Independent (s : Shared) (xs : List Execution) : Prop where
  /-- No routine carries a reference. -/
  refFree : ∀ routine ∈ s.routines, routine.RefFree
  /-- The executions hold known values. -/
  known : ∀ x ∈ xs, x.HasOnly s.heap.Knows
  /-- Alone, each comes to its end with a value. -/
  ends : ∀ x ∈ xs, ∃ n v, (solo s x n).2 = .returns v
  /-- Alone, each keeps apart from what it has not allocated. -/
  apart : ∀ x ∈ xs, ∀ n y, (solo s x n).2 = .continues y →
    y.keepsApart s.heap.nextObject = true

/-- The values that an object holds. -/
def Obj.values : Obj → List Value
  | .record fields => fields.map Prod.snd
  | .array cells => cells.toList

/-- The values that an execution holds. -/
def Execution.values (x : Execution) : List Value :=
  x.operands ++ x.frames.flatMap fun f => f.slots.toList

/-- The executions can get at an object of this number, as long as none of them allocates any. -/
inductive Heap.Reaches (h : Heap) (xs : List Execution) : ObjectId → Prop
  | held {x : Execution} {o : ObjectId} (hx : x ∈ xs) (ho : .ref o ∈ x.values) : Reaches h xs o
  | stored {o p : ObjectId} {object : Obj} (ho : Reaches h xs o) (hfind : h.find? o = some object)
    (hp : .ref p ∈ object.values) : Reaches h xs p

/-! ## Everything looks like itself -/

/-- Each of some objects corresponds to itself. -/
def Itself (reach : ObjectId → Prop) (o o' : ObjectId) : Prop := o' = o ∧ reach o

section

variable {reach : ObjectId → Prop}

theorem Value.alike_self {v : Value} (hv : ∀ o, v = .ref o → reach o) :
    v.Alike (Itself reach) v := by
  cases v with
  | ref o => exact .ref ⟨rfl, hv o rfl⟩
  | _ => exact .same rfl

theorem cellsAlike_self {cells : Array Value} (hcells : ∀ o, .ref o ∈ cells.toList → reach o) :
    CellsAlike (Itself reach) cells cells := fun i => by
  cases hv : cells[i]? with
  | none => exact .none
  | some v =>
    refine .some (Value.alike_self fun o ho => hcells o ?_)
    exact ho ▸ Array.mem_toList_iff.mpr (Array.mem_of_getElem? hv)

theorem Obj.alike_self {object : Obj} (hobject : ∀ o, .ref o ∈ object.values → reach o) :
    object.Alike (Itself reach) object := by
  cases object with
  | record fields =>
    refine .record (List.forall₂_same.mpr fun field hfield =>
      ⟨rfl, Value.alike_self fun o ho => hobject o ?_⟩)
    exact ho ▸ List.mem_map_of_mem hfield
  | array cells => exact .array (cellsAlike_self hobject)

theorem Execution.alike_self {P : Value → Prop} {x : Execution} (hx : x.HasOnly P)
    (hreach : ∀ o, .ref o ∈ x.values → reach o) : x.Alike (Itself reach) x := by
  refine ⟨rfl, List.forall₂_same.mpr fun v hv => Value.alike_self fun o ho => ?_,
    List.forall₂_same.mpr fun f hf => ⟨rfl, rfl, cellsAlike_self fun o ho => ?_,
      (hx.frames f hf).routine⟩⟩
  · exact hreach o (List.mem_append_left _ (ho ▸ hv))
  · exact hreach o (List.mem_append_right _ (List.mem_flatMap.mpr ⟨f, hf, ho⟩))

/-- A heap looks like itself as far as the executions can get, if they only get at what is there. -/
theorem Heap.alike_self {h : Heap} {xs : List Execution}
    (hpresent : ∀ o, h.Reaches xs o → (h.find? o).isSome = true) :
    h.Alike (Itself (h.Reaches xs)) h := by
  refine ⟨⟨?_, ?_⟩, rfl, ?_⟩
  · rintro a b c ⟨rfl, -⟩ ⟨hc, -⟩
    exact hc
  · rintro a b c ⟨rfl, -⟩ ⟨rfl, -⟩
    rfl
  · rintro _ o ⟨rfl, ho⟩
    obtain ⟨object, hfind⟩ := Option.isSome_iff_exists.mp (hpresent o ho)
    exact ⟨object, object, hfind, hfind, Obj.alike_self fun p hp => .stored ho hfind hp⟩

end

/-! ## One execution and the others -/

theorem Execution.keepsApart_of_instr? {first : ObjectId} {x : Execution} {i : Instr}
    (h : x.keepsApart first = true) (hi : x.instr? = some i) :
    (i.op ≠ .read ∧ i.op ≠ .write) ∧ (i.op ≠ .thread ∧ i.op ≠ .wait) ∧
      ∀ o, x.target? i = some o → first ≤ o := by
  rw [keepsApart, hi] at h
  simp only [Bool.and_eq_true, bne_iff_ne, ne_eq, Option.all_eq_true, decide_eq_true_eq] at h
  obtain ⟨⟨⟨⟨hread, hwrite⟩, hthread⟩, hwait⟩, htarget⟩ := h
  exact ⟨⟨hread, hwrite⟩, ⟨hthread, hwait⟩, htarget⟩

/-- An execution in a crew looks like itself alone: the objects of the one heap correspond to some
of the other, those from before to themselves and new ones to new ones. -/
structure Mirrors (first : ObjectId) (shown : String) (r : ObjectId → ObjectId → Prop)
    (alone : Shared) (t : Turn) (s : Shared) (t' : Turn) : Prop where
  /-- What the execution shares looks alike. -/
  shared : alone.Alike r shown shown s
  /-- The execution looks alike. -/
  turn : t.Alike r t'
  /-- The execution belongs to the same call. -/
  call : ∀ x x', t = .continues x → t' = .continues x' → x'.call = x.call
  /-- The objects from before are still there. -/
  next : first ≤ alone.heap.nextObject
  /-- Every new object corresponds to one. -/
  total : ∀ o, first ≤ o → o < alone.heap.nextObject → ∃ o', r o o'
  /-- Objects from before correspond to themselves, and new ones to new ones. -/
  bound : ∀ o o', r o o' → o < first ∧ o' = o ∨ first ≤ o ∧ first ≤ o'

section

variable {first : ObjectId} {shown : String} {r : ObjectId → ObjectId → Prop}
  {alone s s₁ : Shared} {x x' : Execution} {t t' : Turn}

theorem call_of_continues (h : (step s x).2 = .continues x') : x'.call = x.call := by
  have hsteps := steps_step s x
  generalize step s x = p at h hsteps
  obtain ⟨s', turn⟩ := p
  obtain rfl : turn = .continues x' := h
  cases hsteps with
  | continues _ _ howner => exact howner.2

theorem Mirrors.alike (h : Mirrors first shown r alone (.continues x) s (.continues x')) :
    x.Alike r x' := by
  cases h.turn with
  | continues halike => exact halike

/-- **A step of the execution** makes the same of it as alone.  Of the objects that come to
correspond to one, only the next one is new. -/
theorem Mirrors.step (h : Mirrors first shown r alone (.continues x) s (.continues x'))
    (hx : x.keepsApart first = true) (hnext : first ≤ s.heap.nextObject) : ∃ r',
    Mirrors first shown r' (step alone x).1 (step alone x).2 (step s x').1 (step s x').2 ∧
      (∀ o o', r' o o' → r o o' ∨ o' = s.heap.nextObject) ∧
      s.heap.nextObject ≤ (step s x').1.heap.nextObject := by
  have hunseen : x.Opaque := fun i hi => by
    obtain ⟨⟨-, hwrite⟩, hthreads, -⟩ := Execution.keepsApart_of_instr? hx hi
    exact ⟨hthreads, fun hop => absurd hop hwrite⟩
  obtain ⟨r', hgrown, hshared, hturn⟩ := step_alike h.shared h.alike hunseen
  have hcall : ∀ y y', (Opstack.step alone x).2 = .continues y →
      (Opstack.step s x').2 = .continues y' → y'.call = y.call := fun y y' hy hy' => by
    rw [call_of_continues hy, call_of_continues hy', h.call x x' rfl rfl]
  cases hgrown with
  | same hsize hsize' =>
    exact ⟨r, ⟨hshared, hturn, hcall, hsize ▸ h.next, hsize ▸ h.total, h.bound⟩,
      fun _ _ ho => .inl ho, Nat.le_of_eq hsize'.symm⟩
  | along hsize hsize' =>
    refine ⟨_, ⟨hshared, hturn, hcall, hsize ▸ Nat.le_succ_of_le h.next, fun o ho hlt => ?_, ?_⟩,
      ?_, hsize' ▸ Nat.le_succ _⟩
    · rw [hsize] at hlt
      rcases Nat.lt_succ_iff_lt_or_eq.mp hlt with hlt | rfl
      · obtain ⟨o', ho'⟩ := h.total o ho hlt
        exact ⟨o', .inl ho'⟩
      · exact ⟨_, .inr ⟨rfl, rfl⟩⟩
    · rintro o o' (ho | ⟨rfl, rfl⟩)
      · exact h.bound o o' ho
      · exact .inr ⟨h.next, hnext⟩
    · rintro o o' (ho | ⟨-, rfl⟩)
      · exact .inl ho
      · exact .inr rfl

/-- What a step changes is new, and corresponds to an object of the execution. -/
theorem Mirrors.find?_step (h : Mirrors first shown r alone (.continues x) s (.continues x'))
    (hx : x.keepsApart first = true) {o : ObjectId} (hnext : o ≠ s.heap.nextObject)
    (hold : ∀ p, r p o → o < first) :
    (Opstack.step s x').1.heap.find? o = s.heap.find? o := by
  refine Opstack.find?_step s x' hnext fun i hi htarget => ?_
  obtain ⟨p, hp, hrel⟩ := (h.alike.exists_target i).2 o htarget
  have hfirst := (Execution.keepsApart_of_instr? hx (h.alike.instr?_eq ▸ hi)).2.2 p hp
  rcases h.bound p o hrel with ⟨hlt, -⟩ | ⟨-, hle⟩
  · exact absurd hfirst (Nat.not_le_of_lt hlt)
  · exact absurd hle (Nat.not_le_of_lt (hold p hrel))

/-- **A step of another execution** leaves an execution as it is, as long as it leaves the objects
as they are that correspond to one of its own. -/
theorem Mirrors.frame (h : Mirrors first shown r alone t s t')
    (hroutines : s₁.routines = s.routines) (hconfig : s₁.config = s.config)
    (hhalted : s₁.isHalted = s.isHalted) (hconsole : s₁.console = s.console)
    (hlimits : s₁.heap.limits = s.heap.limits)
    (hobjects : ∀ o o', r o o' → s₁.heap.find? o' = s.heap.find? o') :
    Mirrors first shown r alone t s₁ t' := by
  refine ⟨⟨fun name => ?_, h.shared.refFree, hconfig.trans h.shared.config,
    hhalted.trans h.shared.isHalted, ⟨h.shared.heap.unique, hlimits.trans h.shared.heap.limits, ?_⟩,
    hconsole ▸ h.shared.console⟩, h.turn, h.call, h.next, h.total, h.bound⟩
  · rw [Shared.find?, hroutines]
    exact h.shared.routines name
  · intro o o' ho
    rw [hobjects o o' ho]
    exact h.shared.heap.objects o o' ho

end

/-! ## All executions of a crew -/

namespace Crew

/-- After some steps in a given order each execution of a crew looks like itself alone, and no two
executions have got at the same new object. -/
structure Apart (s : Shared) (xs : List Execution) (order : List Nat)
    (r : Nat → ObjectId → ObjectId → Prop) (c : Crew) : Prop where
  /-- There is a member for each execution. -/
  length : c.members.length = xs.length
  /-- The objects from before are still there. -/
  next : s.heap.nextObject ≤ c.shared.heap.nextObject
  /-- They are as before. -/
  kept : ∀ o < s.heap.nextObject, c.shared.heap.find? o = s.heap.find? o
  /-- Each execution looks like itself alone. -/
  mirrors : ∀ k x t, xs[k]? = some x → c.members[k]? = some t →
    Mirrors s.heap.nextObject s.console.output (r k) (solo s x (order.count k)).1
      (solo s x (order.count k)).2 c.shared t
  /-- New objects of different executions are different. -/
  disjoint : ∀ j k o p q, j ≠ k → j < xs.length → k < xs.length → r j o q → r k p q →
    q < s.heap.nextObject

variable {s : Shared} {xs : List Execution} {order : List Nat}
  {r : Nat → ObjectId → ObjectId → Prop} {c : Crew}

theorem apart_start (h : Independent s xs)
    (hpresent : ∀ o, s.heap.Reaches xs o → (s.heap.find? o).isSome = true) :
    Apart s xs [] (fun _ => Itself (s.heap.Reaches xs)) (start s xs) := by
  refine ⟨List.length_map _, Nat.le_refl _, fun _ _ => rfl, fun k x t hx ht => ?_,
    fun j k o p q _ _ _ ho _ => ?_⟩
  · rw [start, List.getElem?_map, hx] at ht
    cases ht
    have hmem := List.mem_of_getElem? hx
    have hreach : ∀ o, .ref o ∈ x.values → s.heap.Reaches xs o := fun o ho => .held hmem ho
    refine ⟨⟨fun _ => rfl, fun name routine hfind => h.refFree routine (Shared.mem_of_find? hfind),
      rfl, rfl, Heap.alike_self hpresent, .refl _⟩,
      .continues (Execution.alike_self (h.known x hmem) hreach), ?_, Nat.le_refl _, ?_, ?_⟩
    · rintro y y' hy hy'
      cases hy
      cases hy'
      rfl
    · exact fun o hle hlt => absurd hle (Nat.not_le_of_lt hlt)
    · rintro _ o ⟨rfl, ho⟩
      exact .inl ⟨(Heap.isSome_find?.mp (hpresent o ho)).2, rfl⟩
  · obtain ⟨rfl, ho⟩ := ho
    exact (Heap.isSome_find?.mp (hpresent _ ho)).2

/-- What corresponds to an object of an execution is there. -/
theorem Apart.ne_nextObject (h : Apart s xs order r c) {j : Nat} {o o' : ObjectId}
    (hj : j < xs.length) (ho : r j o o') : o' ≠ c.shared.heap.nextObject := by
  have ht := List.getElem?_eq_getElem (h.length.symm ▸ hj)
  obtain ⟨-, object, -, hfind, -⟩ :=
    (h.mirrors j _ _ (List.getElem?_eq_getElem hj) ht).shared.heap.objects o o' ho
  rintro rfl
  rw [Heap.find?_nextObject] at hfind
  cases hfind

/-- **Nothing happens** when an execution is to take a step that has ended. -/
theorem Apart.of_ended (h : Apart s xs order r c) {k : Nat}
    (hended : ∀ x, c.members[k]? ≠ some (.continues x)) : Apart s xs (order ++ [k]) r c := by
  refine ⟨h.length, h.next, h.kept, fun j x t hx ht => ?_, h.disjoint⟩
  have hmirrors := h.mirrors j x t hx ht
  rcases eq_or_ne j k with rfl | hne
  · -- Alone it has ended as well.
    have halone : ∀ y, (solo s x (order.count j)).2 ≠ .continues y := fun y hy => by
      have hturn := hmirrors.turn
      rw [hy] at hturn
      cases hturn
      exact hended _ ht
    rwa [List.count_append, List.count_singleton_self, solo_succ_of_ended halone]
  · rwa [List.count_append, List.count_singleton, if_neg (by simpa using hne.symm)]

/-- The next object is new to every execution but the one that allocates it. -/
theorem Apart.disjoint_update (h : Apart s xs order r c) {k : Nat} (hk : k < xs.length)
    {r' : ObjectId → ObjectId → Prop}
    (hnew : ∀ o o', r' o o' → r k o o' ∨ o' = c.shared.heap.nextObject) {i j : Nat}
    {o p q : ObjectId} (hij : i ≠ j) (hi : i < xs.length) (hj : j < xs.length)
    (ho : Function.update r k r' i o q) (hp : Function.update r k r' j p q) :
    q < s.heap.nextObject := by
  have hold : ∀ j o p, j ≠ k → j < xs.length → r j o q → r' p q → q < s.heap.nextObject := by
    intro j o p hne hj ho hp
    rcases hnew p q hp with hp | rfl
    · exact h.disjoint j k o p q hne hj hk ho hp
    · exact absurd rfl (h.ne_nextObject hj ho)
  rcases eq_or_ne i k with rfl | hik
  · rw [Function.update_self] at ho
    rw [Function.update_of_ne hij.symm] at hp
    exact hold j p o hij.symm hj hp ho
  · rw [Function.update_of_ne hik] at ho
    rcases eq_or_ne j k with rfl | hjk
    · rw [Function.update_self] at hp
      exact hold i o p hik hi ho hp
    · rw [Function.update_of_ne hjk] at hp
      exact h.disjoint i j o p q hij hi hj ho hp

/-- **One step** of an execution that has not ended. -/
theorem Apart.of_continues (h : Apart s xs order r c) (hind : Independent s xs) {k : Nat}
    {x' : Execution} (hturn : c.members[k]? = some (.continues x')) : ∃ r',
    Apart s xs (order ++ [k]) r'
      ⟨(step c.shared x').1, c.members.set k (step c.shared x').2⟩ := by
  obtain ⟨hk, -⟩ := List.getElem?_eq_some_iff.mp hturn
  rw [h.length] at hk
  have hx := List.getElem?_eq_getElem hk
  generalize xs[k] = x at hx
  have hmirrors := h.mirrors k x _ hx hturn
  -- Alone the execution goes on as well.
  obtain ⟨alone, y, hsolo⟩ : ∃ alone y, solo s x (order.count k) = (alone, .continues y) := by
    have halike := hmirrors.turn
    generalize solo s x (order.count k) = p at halike
    obtain ⟨alone, t⟩ := p
    cases halike
    exact ⟨_, _, rfl⟩
  rw [hsolo] at hmirrors
  have hkeeps := hind.apart x (List.mem_of_getElem? hx) _ y (by rw [hsolo])
  obtain ⟨r', hstep, hnew, hnext⟩ := hmirrors.step hkeeps h.next
  refine ⟨Function.update r k r', by rw [List.length_set]; exact h.length,
    Nat.le_trans h.next hnext, fun o ho => ?_, fun j z t hz ht => ?_,
    fun i j o p q => h.disjoint_update hk hnew⟩
  · have hne : o ≠ c.shared.heap.nextObject := Nat.ne_of_lt (Nat.lt_of_lt_of_le ho h.next)
    exact (hmirrors.find?_step hkeeps hne fun _ _ => ho).trans (h.kept o ho)
  rcases eq_or_ne j k with rfl | hne
  · obtain rfl : x = z := Option.some.inj (hx.symm.trans hz)
    rw [List.getElem?_set_self (h.length.symm ▸ hk)] at ht
    obtain rfl := Option.some.inj ht
    rwa [Function.update_self, List.count_append, List.count_singleton_self,
      solo_succ_of_continues hsolo]
  · rw [List.getElem?_set_ne hne.symm] at ht
    rw [Function.update_of_ne hne, List.count_append, List.count_singleton,
      if_neg (by simpa using hne.symm)]
    obtain ⟨heap, console, threads, hshared⟩ := exists_step c.shared x'
    obtain ⟨hj, -⟩ := List.getElem?_eq_some_iff.mp hz
    refine (h.mirrors j z t hz ht).frame (by rw [hshared]) (by rw [hshared]) (by rw [hshared])
      (console_step fun i hi => ?_) (limits_step c.shared x') fun o o' ho => ?_
    · exact (Execution.keepsApart_of_instr? hkeeps (hmirrors.alike.instr?_eq ▸ hi)).1
    · exact hmirrors.find?_step hkeeps (h.ne_nextObject hj ho) fun p hp =>
        h.disjoint j k o p o' hne hj hk ho hp

theorem Apart.advance (h : Apart s xs order r c) (hind : Independent s xs) (k : Nat) :
    ∃ r', Apart s xs (order ++ [k]) r' (c.advance k) := by
  by_cases hended : ∀ x, c.members[k]? ≠ some (.continues x)
  · rw [advance_of_ended hended]
    exact ⟨r, h.of_ended hended⟩
  · obtain ⟨x', hx'⟩ := not_forall.mp hended
    rw [not_not] at hx'
    rw [advance_of_continues hx']
    exact h.of_continues hind hx'

/-- **Any order of steps.** -/
theorem exists_apart (h : Independent s xs)
    (hpresent : ∀ o, s.heap.Reaches xs o → (s.heap.find? o).isSome = true) (order : List Nat) :
    ∃ r, Apart s xs order r ((start s xs).follow order) := by
  induction order using List.reverseRecOn with
  | nil => exact ⟨_, apart_start h hpresent⟩
  | append_singleton order k ih =>
    obtain ⟨r, hr⟩ := ih
    rw [follow, List.foldl_append]
    exact hr.advance h k

end Crew

/-! ## New numbers for new objects -/

/-- What a step has made of an execution, with other references. -/
def Turn.rename (ρ : ObjectId → ObjectId) : Turn → Turn
  | .continues x => .continues (x.rename ρ)
  | .spawns x child => .spawns (x.rename ρ) (child.rename ρ)
  | .waits x thread site => .waits (x.rename ρ) thread site
  | .returns v => .returns (v.rename ρ)
  | .fails e => .fails (e.rename ρ)
  | .crashes => .crashes

/-- What corresponds to at most one object has another name. -/
theorem exists_renaming_of {r : ObjectId → ObjectId → Prop} (hr : Relator.RightUnique r) :
    ∃ ρ : ObjectId → ObjectId, (∀ o o', r o o' → o' = ρ o) ∧ ∀ o, (∀ o', ¬ r o o') → ρ o = o := by
  classical
  refine ⟨fun o => if ho : ∃ o', r o o' then ho.choose else o, fun o o' ho => ?_, fun o ho => ?_⟩
  · have hex : ∃ o', r o o' := ⟨o', ho⟩
    dsimp only
    rw [dif_pos hex]
    exact hr ho hex.choose_spec
  · exact dif_neg fun ⟨o', ho'⟩ => ho o' ho'

theorem Mirrors.eq_rename {first : ObjectId} {shown : String} {r : ObjectId → ObjectId → Prop}
    {alone s : Shared} {t t' : Turn} {ρ : ObjectId → ObjectId}
    (h : Mirrors first shown r alone t s t') (hρ : ∀ o o', r o o' → o' = ρ o) :
    t' = t.rename ρ := by
  have hcall := h.call
  cases h.turn with
  | @continues x x' hx =>
    have heq := hx.eq_rename hρ
    rw [hcall x x' rfl rfl] at heq
    rw [heq]
    rfl
  | returns hv => rw [hv.eq_rename hρ, Turn.rename]
  | fails he => rw [he.eq_rename hρ, Turn.rename]
  | crashes => rfl

/-- An execution in a crew is as it would be alone, but for the numbers of the objects that it has
allocated. -/
structure Crew.Shows (c : Crew) (k : Nat) (first : ObjectId) (ρ : ObjectId → ObjectId)
    (alone : Shared × Turn) : Prop where
  /-- Its operands, slots and result are the same. -/
  turn : c.members[k]? = some (alone.2.rename ρ)
  /-- The objects that it has allocated are the same. -/
  objects : ∀ o, first ≤ o → o < alone.1.heap.nextObject →
    c.shared.heap.find? (ρ o) = (alone.1.heap.find? o).map (Obj.rename ρ)
  /-- The objects from before keep their numbers. -/
  kept : ∀ o < first, ρ o = o
  /-- New objects are new. -/
  fresh : ∀ o, first ≤ o → o < alone.1.heap.nextObject → first ≤ ρ o
  /-- Different objects have different numbers. -/
  injective : ∀ o < alone.1.heap.nextObject, ∀ p < alone.1.heap.nextObject, ρ o = ρ p → o = p

section

variable {first : ObjectId} {shown : String} {r : ObjectId → ObjectId → Prop}
  {alone : Shared × Turn} {c : Crew} {k : Nat} {t : Turn} {ρ : ObjectId → ObjectId}

/-- Every new object corresponds to the one that it is renamed to. -/
theorem Mirrors.related (h : Mirrors first shown r alone.1 alone.2 c.shared t)
    (hρ : ∀ o o', r o o' → o' = ρ o) {o : ObjectId} (hle : first ≤ o)
    (hlt : o < alone.1.heap.nextObject) : r o (ρ o) := by
  obtain ⟨o', ho'⟩ := h.total o hle hlt
  rwa [← hρ o o' ho']

/-- A renaming that belongs to a correspondence. -/
theorem Mirrors.shows (h : Mirrors first shown r alone.1 alone.2 c.shared t)
    (ht : c.members[k]? = some t) (hρ : ∀ o o', r o o' → o' = ρ o)
    (hrest : ∀ o, (∀ o', ¬ r o o') → ρ o = o) : c.Shows k first ρ alone := by
  have hkept : ∀ o < first, ρ o = o := fun o ho => by
    by_cases hex : ∃ o', r o o'
    · obtain ⟨o', ho'⟩ := hex
      rw [← hρ o o' ho']
      rcases h.bound o o' ho' with ⟨-, heq⟩ | ⟨hle, -⟩
      · exact heq
      · exact absurd ho (Nat.not_lt_of_le hle)
    · exact hrest o fun o' ho' => hex ⟨o', ho'⟩
  have hfresh : ∀ o, first ≤ o → o < alone.1.heap.nextObject → first ≤ ρ o := fun o hle hlt => by
    rcases h.bound o _ (h.related hρ hle hlt) with ⟨ho, -⟩ | ⟨-, ho⟩
    · exact absurd hle (Nat.not_le_of_lt ho)
    · exact ho
  refine ⟨by rw [ht, h.eq_rename hρ], fun o hle hlt => ?_, hkept, hfresh, fun o ho p hp heq => ?_⟩
  · obtain ⟨object, object', hfind, hfind', halike⟩ :=
      h.shared.heap.objects o _ (h.related hρ hle hlt)
    rw [hfind, hfind', halike.eq_rename hρ, Option.map_some]
  · rcases Nat.lt_or_ge o first with holdo | hnewo <;>
      rcases Nat.lt_or_ge p first with holdp | hnewp
    · rwa [hkept o holdo, hkept p holdp] at heq
    · rw [hkept o holdo] at heq
      exact absurd (heq ▸ hfresh p hnewp hp) (Nat.not_le_of_lt holdo)
    · rw [hkept p holdp] at heq
      exact absurd (heq ▸ hfresh o hnewo ho) (Nat.not_le_of_lt holdp)
    · have ho' := h.related hρ hnewo ho
      rw [heq] at ho'
      exact h.shared.heap.unique.1 ho' (h.related hρ hnewp hp)

end

/-- The correspondences of a crew are renamings. -/
theorem Crew.Apart.exists_renamings {s : Shared} {xs : List Execution} {order : List Nat}
    {r : Nat → ObjectId → ObjectId → Prop} {c : Crew} (h : Apart s xs order r c) :
    ∃ ρ : Nat → ObjectId → ObjectId, ∀ k x, xs[k]? = some x →
      c.Shows k s.heap.nextObject (ρ k) (solo s x (order.count k)) ∧
      ∀ o, s.heap.nextObject ≤ o → o < (solo s x (order.count k)).1.heap.nextObject →
        r k o (ρ k o) := by
  have heach : ∀ k, ∃ ρ : ObjectId → ObjectId, ∀ x, xs[k]? = some x →
      c.Shows k s.heap.nextObject ρ (solo s x (order.count k)) ∧
      ∀ o, s.heap.nextObject ≤ o → o < (solo s x (order.count k)).1.heap.nextObject →
        r k o (ρ o) := by
    intro k
    cases hx : xs[k]? with
    | none => exact ⟨id, fun x h => by cases h⟩
    | some x =>
      obtain ⟨hk, -⟩ := List.getElem?_eq_some_iff.mp hx
      have ht := List.getElem?_eq_getElem (h.length.symm ▸ hk)
      have hmirrors := h.mirrors k x _ hx ht
      obtain ⟨ρ, hρ, hrest⟩ := exists_renaming_of hmirrors.shared.heap.unique.2
      refine ⟨ρ, fun y hy => ?_⟩
      obtain rfl := Option.some.inj hy
      exact ⟨hmirrors.shows ht hρ hrest, fun o => hmirrors.related hρ⟩
  choose ρ hρ using heach
  exact ⟨ρ, hρ⟩

/-- **Executions that keep apart do not notice one another.**  Let the executions get only at
objects that are there from the beginning.  Then in every order of their steps each of them goes
through the same states as alone, so it ends with the same result; only the objects that it
allocates have other numbers, and different executions allocate different objects.  The objects from
before stay as they are. -/
theorem Independent.exists_renaming {s : Shared} {xs : List Execution} (h : Independent s xs)
    (hpresent : ∀ o, s.heap.Reaches xs o → (s.heap.find? o).isSome = true) (order : List Nat) :
    ∃ ρ : Nat → ObjectId → ObjectId,
    (∀ k x, xs[k]? = some x →
      ((Crew.start s xs).follow order).Shows k s.heap.nextObject (ρ k) (solo s x (order.count k))) ∧
    (∀ k x n v, xs[k]? = some x → (solo s x n).2 = .returns v → n ≤ order.count k →
      ((Crew.start s xs).follow order).members[k]? = some (.returns (v.rename (ρ k)))) ∧
    (∀ j k x y o p, j ≠ k → xs[j]? = some x → xs[k]? = some y →
      s.heap.nextObject ≤ o → o < (solo s x (order.count j)).1.heap.nextObject →
      s.heap.nextObject ≤ p → p < (solo s y (order.count k)).1.heap.nextObject →
      ρ j o ≠ ρ k p) ∧
    ∀ o < s.heap.nextObject,
      ((Crew.start s xs).follow order).shared.heap.find? o = s.heap.find? o := by
  obtain ⟨r, hr⟩ := Crew.exists_apart h hpresent order
  obtain ⟨ρ, hρ⟩ := hr.exists_renamings
  refine ⟨ρ, fun k x hx => (hρ k x hx).1, fun k x n v hx hv hle => ?_,
    fun j k x y o p hne hx hy ho ho' hp hp' heq => ?_, hr.kept⟩
  · have hturn := (hρ k x hx).1.turn
    rwa [solo_of_le hle (fun z hz => by rw [hv] at hz; cases hz), hv] at hturn
  · obtain ⟨hj, -⟩ := List.getElem?_eq_some_iff.mp hx
    obtain ⟨hk, -⟩ := List.getElem?_eq_some_iff.mp hy
    have hrel := (hρ j x hx).2 o ho ho'
    have hrel' := (hρ k y hy).2 p hp hp'
    rw [heq] at hrel
    exact absurd ((hρ k y hy).1.fresh p hp hp')
      (Nat.not_le_of_lt (hr.disjoint j k o p _ hne hj hk hrel hrel'))

/-! ## Two executions and an object from before -/

section

variable {s : Shared} {x : Execution} {m : Nat} {v : Value}

/-- An execution keeps apart if it does until its end. -/
theorem keepsApart_of_returns (hend : (solo s x m).2 = .returns v)
    (h : ∀ n < m, ∀ y, (solo s x n).2 = .continues y → y.keepsApart s.heap.nextObject = true)
    (n : Nat) (y : Execution) (hy : (solo s x n).2 = .continues y) :
    y.keepsApart s.heap.nextObject = true := by
  rcases Nat.lt_or_ge n m with hlt | hle
  · exact h n hlt y hy
  · rw [solo_of_le hle (fun z hz => by rw [hend] at hz; cases hz), hend] at hy
    cases hy

end

/-- The execution of a routine in a call with one argument. -/
def Execution.ofCall (call : Nat) (routine : Routine) (arg : Value) : Execution :=
  ⟨none, call, [arg], [{ routine }]⟩

theorem Execution.hasOnly_ofCall {P : Value → Prop} {routine : Routine} {arg : Value}
    (hroutine : routine.RefFree) (harg : P arg) (call : Nat) :
    (ofCall call routine arg).HasOnly P :=
  ⟨List.forall_mem_singleton.mpr harg,
    List.forall_mem_singleton.mpr (Frame.hasOnly_begin hroutine)⟩

/-- A routine that makes a record with the field of its argument. -/
def copyRecord : Routine :=
  ⟨"copy", #[.store 0, .plain .allocs, .plain .dup, .load 0, .getf "f", .setf "f", .plain .ret]⟩

theorem refFree_copyRecord : copyRecord.RefFree := by
  have hcode : ∀ i ∈ copyRecord.code.toList, i.isRefFree = true := by decide
  exact Routine.refFree_of_code hcode

/-- A state with that routine and a record. -/
def oneRecord : Shared :=
  { routines := [copyRecord], heap := { objects := #[.record [("f", .int 7)]] } }

/-- Two calls of the routine with that record. -/
def copies : List Execution := [.ofCall 0 copyRecord (.ref 2025), .ofCall 1 copyRecord (.ref 2025)]

theorem independent_copies : Independent oneRecord copies where
  refFree := List.forall_mem_singleton.mpr refFree_copyRecord
  known x hx := by
    have hknows : oneRecord.heap.Knows (.ref 2025) := Heap.knows_ref rfl
    rcases List.mem_pair.mp hx with rfl | rfl <;>
      exact Execution.hasOnly_ofCall refFree_copyRecord hknows _
  ends x hx := by
    refine ⟨8, .ref 2026, ?_⟩
    rcases List.mem_pair.mp hx with rfl | rfl <;> rfl
  apart x hx := by
    rcases List.mem_pair.mp hx with rfl | rfl <;>
      refine keepsApart_of_returns (m := 8) (v := .ref 2026) rfl fun n hn y hy => ?_ <;>
      interval_cases n <;> cases hy <;> rfl

/-- The calls can get at the record and at nothing else. -/
theorem reaches_copies {o : ObjectId} (ho : oneRecord.heap.Reaches copies o) : o = 2025 := by
  induction ho with
  | held hx ho =>
    rcases List.mem_pair.mp hx with rfl | rfl <;> exact Value.ref.inj (List.mem_singleton.mp ho)
  | stored _ hfind hp ih =>
    subst ih
    cases hfind
    cases List.mem_singleton.mp hp

/-- The steps of two executions in turns, the second one first. -/
def turnAbout : List Nat := (List.replicate 8 [1, 0]).flatten

theorem exists_renaming_copies : Independent oneRecord copies ∧
    (∀ o, oneRecord.heap.Reaches copies o → (oneRecord.heap.find? o).isSome = true) ∧
    ∃ o p, o ≠ p ∧ ((Crew.start oneRecord copies).follow turnAbout).members =
      [.returns (.ref o), .returns (.ref p)] := by
  have hpresent : ∀ o, oneRecord.heap.Reaches copies o → (oneRecord.heap.find? o).isSome = true :=
    fun o ho => by
      rw [reaches_copies ho]
      rfl
  refine ⟨independent_copies, hpresent, ?_⟩
  obtain ⟨ρ, -, hreturns, hdisjoint, -⟩ := independent_copies.exists_renaming hpresent turnAbout
  have hne := hdisjoint 0 1 _ _ 2026 2026 Nat.zero_ne_one rfl rfl (by decide) (by decide)
    (by decide) (by decide)
  refine ⟨_, _, hne, List.ext_getElem? fun k => ?_⟩
  match k with
  | 0 => exact hreturns 0 _ 8 _ rfl rfl (by decide)
  | 1 => exact hreturns 1 _ 8 _ rfl rfl (by decide)
  | _ + 2 => rfl

/-! ## An object that is not there yet -/

/-- A routine that makes a record, gives it a field, and looks for that field in the record that its
argument refers to. -/
def seekRecord : Routine :=
  ⟨"seek", #[.plain .allocs, .push (.int 7), .setf "g", .getf "f", .getf "g", .plain .ret]⟩

/-- A routine that makes a record. -/
def newRecord : Routine := ⟨"new", #[.plain .allocs, .plain .ret]⟩

/-- A state with both routines and a record that refers to the next object. -/
def oneDangling : Shared :=
  { routines := [seekRecord, newRecord], heap := { objects := #[.record [("f", .ref 2026)]] } }

/-- A call of each routine. -/
def seekers : List Execution := [.ofCall 0 seekRecord (.ref 2025), .ofCall 1 newRecord .null]

theorem independent_seekers : Independent oneDangling seekers := by
  have hseek : seekRecord.RefFree := by
    have hcode : ∀ i ∈ seekRecord.code.toList, i.isRefFree = true := by decide
    exact Routine.refFree_of_code hcode
  have hnew : newRecord.RefFree := by
    have hcode : ∀ i ∈ newRecord.code.toList, i.isRefFree = true := by decide
    exact Routine.refFree_of_code hcode
  refine ⟨List.forall_mem_cons.mpr ⟨hseek, List.forall_mem_singleton.mpr hnew⟩, fun x hx => ?_,
    fun x hx => ?_, fun x hx => ?_⟩
  · rcases List.mem_pair.mp hx with rfl | rfl
    · exact Execution.hasOnly_ofCall hseek (Heap.knows_ref rfl) 0
    · exact Execution.hasOnly_ofCall hnew (Heap.knows_null _) 1
  · rcases List.mem_pair.mp hx with rfl | rfl
    · exact ⟨7, .int 7, rfl⟩
    · exact ⟨3, .ref 2026, rfl⟩
  · rcases List.mem_pair.mp hx with rfl | rfl
    · refine keepsApart_of_returns (m := 7) (v := .int 7) rfl fun n hn y hy => ?_
      interval_cases n <;> cases hy <;> rfl
    · refine keepsApart_of_returns (m := 3) (v := .ref 2026) rfl fun n hn y hy => ?_
      interval_cases n <;> cases hy <;> rfl

/-- **A reference to an object that is not there yet** gives executions away to one another: when
another one has allocated that object, the field is not found. -/
theorem not_exists_renaming_seekers : Independent oneDangling seekers ∧
    ¬ ∃ ρ : Nat → ObjectId → ObjectId, ∀ k x n v, seekers[k]? = some x →
      (solo oneDangling x n).2 = .returns v → n ≤ [1, 1, 1, 0, 0, 0, 0, 0, 0, 0].count k →
      ((Crew.start oneDangling seekers).follow [1, 1, 1, 0, 0, 0, 0, 0, 0, 0]).members[k]? =
        some (.returns (v.rename (ρ k))) := by
  refine ⟨independent_seekers, fun ⟨ρ, hρ⟩ => ?_⟩
  have hreturns := hρ 0 _ 7 (.int 7) rfl rfl (by decide)
  cases hreturns

end Opstack
