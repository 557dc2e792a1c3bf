import Opstack.Proofs.Lowering.Literals
import Opstack.Proofs.Machine.Sessions
import Opstack.Proofs.Machine.Staffing

/-!
# What values a machine has

A reference comes into being with its object, and everything else that an instruction does with
references is to hand them on: from operands to slots, fields and cells and back again, to a thread
that is started, and from a thread that has ended.  So if every reference that comes into a machine
from outside or with a new object has some property, then every reference in the machine has it.

* `AllButRefs P`: only a reference can lack the property `P`.
* `Execution.HasOnly P`, `Shared.HasOnly P`, `Task.HasOnly P` and `Machine.HasOnly P` say of
  everything that holds values that these have the property.
* `perform_hasOnly`, `Execution.step_hasOnly`, `Task.turn_hasOnly` and `Machine.react_hasOnly` say
  that an instruction, a step, a turn and an event keep it so.
-/

set_option autoImplicit false

namespace Opstack

/-! ## Executions -/

/-- Only a reference can lack the property. -/
def AllButRefs (P : Value → Prop) : Prop := ∀ v, v.asRef? = none → P v

/-- The slots of the activation have only values with a property, and its routine carries no
reference. -/
structure Frame.HasOnly (P : Value → Prop) (f : Frame) : Prop where
  /-- The slots have such values. -/
  slots : ∀ (slot : Nat) v, f.slots[slot]? = some v → P v
  /-- The routine carries no reference. -/
  routine : f.routine.RefFree

/-- The operands and the slots of the execution are values with a property, and its routines carry
no reference. -/
structure Execution.HasOnly (P : Value → Prop) (x : Execution) : Prop where
  /-- The operands are such values. -/
  operands : ∀ v ∈ x.operands, P v
  /-- The activations have such values. -/
  frames : ∀ f ∈ x.frames, f.HasOnly P

/-- If the operation succeeds, then its result has a property. -/
def GivesOnly {α : Type} (P : α → Prop) : Except Fault α → Prop
  | .ok a => P a
  | .error _ => True

theorem GivesOnly.bind {α β : Type} {P : α → Prop} {Q : β → Prop} {r : Except Fault α}
    {f : α → Except Fault β} (h : GivesOnly P r) (hf : ∀ a, P a → GivesOnly Q (f a)) :
    GivesOnly Q (r >>= f) := by
  cases r with
  | ok a => exact hf a h
  | error e => trivial

theorem GivesOnly.map {α β : Type} {P : α → Prop} {Q : β → Prop} {r : Except Fault α}
    {f : α → β} (h : GivesOnly P r) (hf : ∀ a, P a → Q (f a)) : GivesOnly Q (r.map f) := by
  cases r with
  | ok a => exact hf a h
  | error e => trivial

theorem givesOnly_of_ok {α : Type} {P : α → Prop} {r : Except Fault α}
    (h : ∀ a, r = .ok a → P a) : GivesOnly P r := by
  cases r with
  | ok a => exact h a rfl
  | error e => trivial

section

variable {P Q : Value → Prop}

theorem Frame.HasOnly.mono {f : Frame} (hf : f.HasOnly P) (hPQ : ∀ v, P v → Q v) :
    f.HasOnly Q :=
  ⟨fun slot v hv => hPQ v (hf.slots slot v hv), hf.routine⟩

/-- A new activation has no values yet. -/
theorem Frame.hasOnly_begin {routine : Routine} (hroutine : routine.RefFree) :
    Frame.HasOnly P { routine } :=
  ⟨fun slot v hv => by simp at hv, hroutine⟩

theorem Frame.HasOnly.at_pc {f : Frame} (hf : f.HasOnly P) (pc : Nat) :
    Frame.HasOnly P { f with pc } :=
  ⟨hf.slots, hf.routine⟩

/-- A slot holds what was stored to it, or what it held before, or `null`. -/
theorem eq_of_storeSlot {slots : Array Value} {s slot : Nat} {v w : Value}
    (hw : (storeSlot slots slot v)[s]? = some w) : w = v ∨ slots[s]? = some w ∨ w = .null := by
  rw [getElem?_storeSlot] at hw
  split at hw
  · exact .inl (Option.some.inj hw).symm
  · rcases Option.or_eq_some_iff.mp hw with hold | ⟨-, hnew⟩
    · exact .inr (.inl hold)
    · split at hnew
      · exact .inr (.inr (Option.some.inj hnew).symm)
      · cases hnew

theorem Frame.HasOnly.store {f : Frame} (hf : f.HasOnly P) (hnull : P .null) {v : Value}
    (hv : P v) (slot limit : Nat) : GivesOnly (Frame.HasOnly P) (f.store slot v limit) := by
  rw [Frame.store]
  split
  · refine ⟨fun s w hw => ?_, hf.routine⟩
    rcases eq_of_storeSlot hw with rfl | hw | rfl
    · exact hv
    · exact hf.slots s w hw
    · exact hnull
  · trivial

namespace Value

/-- The result of an operation on values is no reference. -/
theorem unary_asRef? (op : UnaryOp) (v : Value) :
    GivesOnly (fun w : Value => w.asRef? = none) (unary op v) := by
  cases op with
  | not => cases v <;> first | rfl | trivial
  | toint =>
    unfold unary toInt
    repeat' split
    all_goals first | rfl | trivial
  | todbl =>
    unfold unary toDouble
    repeat' split
    all_goals first | rfl | trivial
  | tostr => cases v <;> first | rfl | trivial

theorem givesOnly_bool (r : Except Fault Bool) :
    GivesOnly (fun w : Value => w.asRef? = none) (r.map .bool) := by
  cases r <;> first | rfl | trivial

theorem binary_asRef? (op : BinaryOp) (a b : Value) :
    GivesOnly (fun w : Value => w.asRef? = none) (binary op a b) := by
  cases op with
  | add =>
    rw [binary]
    unfold add
    split
    all_goals first | rfl | trivial
  | sub =>
    rw [binary]
    unfold sub
    split
    all_goals first | rfl | trivial
  | mul =>
    rw [binary]
    unfold mul
    split
    all_goals first | rfl | trivial
  | div =>
    rw [binary]
    unfold div
    repeat' split
    all_goals first | rfl | trivial
  | cmplt | cmple | and | or => exact givesOnly_bool _
  | cmpeq | cmpne => rfl
  | getc =>
    rw [binary]
    unfold charAt
    repeat' split
    all_goals first | rfl | trivial

end Value

/-- References to the objects that the other heap has more have a property. -/
def Heap.AddsOnly (P : Value → Prop) (h h' : Heap) : Prop :=
  ∀ o, h.find? o = none → (h'.find? o).isSome = true → P (.ref o)

theorem Heap.AddsOnly.of_push {h : Heap} {object : Obj} (hadds : h.AddsOnly P (h.push object)) :
    P (.ref h.nextObject) := by
  refine hadds _ h.find?_nextObject ?_
  rw [find?_push, if_pos rfl]
  rfl

namespace Execution

variable {x : Execution} {h : Heap}

theorem HasOnly.mono (hx : x.HasOnly P) (hPQ : ∀ v, P v → Q v) : x.HasOnly Q :=
  ⟨fun v hv => hPQ v (hx.operands v hv), fun f hf => (hx.frames f hf).mono hPQ⟩

theorem HasOnly.push (hx : x.HasOnly P) {v : Value} (hv : P v) : (x.push v).HasOnly P :=
  ⟨List.forall_mem_cons.mpr ⟨hv, hx.operands⟩, hx.frames⟩

theorem HasOnly.of_subset (hx : x.HasOnly P) {operands : List Value}
    (hsub : operands ⊆ x.operands) : HasOnly P { x with operands } :=
  ⟨fun v hv => hx.operands v (hsub hv), hx.frames⟩

theorem HasOnly.passed (hx : x.HasOnly P) : x.passed.HasOnly P := by
  obtain ⟨thread, call, operands, _ | ⟨f, fs⟩⟩ := x
  · exact hx
  · obtain ⟨hf, hfs⟩ := List.forall_mem_cons.mp hx.frames
    exact ⟨hx.operands, List.forall_mem_cons.mpr ⟨hf.at_pc _, hfs⟩⟩

theorem HasOnly.pop (hx : x.HasOnly P) :
    GivesOnly (fun p : Value × Execution => P p.1 ∧ p.2.HasOnly P) x.pop := by
  obtain ⟨thread, call, _ | ⟨v, rest⟩, frames⟩ := x
  · trivial
  · obtain ⟨hv, hrest⟩ := List.forall_mem_cons.mp hx.operands
    exact ⟨hv, hrest, hx.frames⟩

theorem HasOnly.dup (hx : x.HasOnly P) : GivesOnly (HasOnly P) x.dup := by
  obtain ⟨thread, call, _ | ⟨v, rest⟩, frames⟩ := x
  · trivial
  · exact hx.push (hx.operands v List.mem_cons_self)

theorem HasOnly.load (hx : x.HasOnly P) (slot : Nat) : GivesOnly (HasOnly P) (x.load slot) := by
  obtain ⟨thread, call, operands, _ | ⟨f, fs⟩⟩ := x
  · trivial
  · simp only [Execution.load, Frame.load]
    cases hv : f.slots[slot]? with
    | none => trivial
    | some v => exact hx.push ((hx.frames f List.mem_cons_self).slots slot v hv)

theorem HasOnly.store (hx : x.HasOnly P) (hnull : P .null) (slot limit : Nat) :
    GivesOnly (HasOnly P) (x.store slot limit) := by
  obtain ⟨thread, call, _ | ⟨v, rest⟩, _ | ⟨f, fs⟩⟩ := x
  · trivial
  · trivial
  · trivial
  · obtain ⟨hv, hrest⟩ := List.forall_mem_cons.mp hx.operands
    obtain ⟨hf, hfs⟩ := List.forall_mem_cons.mp hx.frames
    exact (hf.store hnull hv slot limit).bind fun g hg =>
      ⟨hrest, List.forall_mem_cons.mpr ⟨hg, hfs⟩⟩

theorem HasOnly.unary (hx : x.HasOnly P) (hP : AllButRefs P) (op : UnaryOp) :
    GivesOnly (HasOnly P) (x.unary op) :=
  hx.pop.bind fun ⟨v, _⟩ ⟨_, hy⟩ =>
    (Value.unary_asRef? op v).bind fun w hw => hy.push (hP w hw)

theorem HasOnly.binary (hx : x.HasOnly P) (hP : AllButRefs P) (op : BinaryOp) :
    GivesOnly (HasOnly P) (x.binary op) :=
  hx.pop.bind fun ⟨b, _⟩ ⟨_, hy⟩ => hy.pop.bind fun ⟨a, _⟩ ⟨_, hz⟩ =>
    (Value.binary_asRef? op a b).bind fun w hw => hz.push (hP w hw)

theorem HasOnly.jump (hx : x.HasOnly P) (target : Nat) :
    GivesOnly (HasOnly P) (x.jump target) := by
  obtain ⟨thread, call, operands, _ | ⟨f, fs⟩⟩ := x
  · trivial
  · obtain ⟨hf, hfs⟩ := List.forall_mem_cons.mp hx.frames
    exact ⟨hx.operands, List.forall_mem_cons.mpr ⟨hf.at_pc target, hfs⟩⟩

theorem HasOnly.jumpUnless (hx : x.HasOnly P) (target : Nat) :
    GivesOnly (HasOnly P) (x.jumpUnless target) := by
  refine hx.pop.bind fun ⟨condition, y⟩ ⟨_, hy⟩ => ?_
  dsimp only
  split
  · exact hy
  · exact hy.jump target
  · trivial

theorem HasOnly.enter (hx : x.HasOnly P) {routine : Routine} (hroutine : routine.RefFree)
    (limit : Nat) : GivesOnly (HasOnly P) (x.enter routine limit) := by
  rw [Execution.enter]
  split
  · trivial
  · exact ⟨hx.operands, List.forall_mem_cons.mpr ⟨Frame.hasOnly_begin hroutine, hx.frames⟩⟩

theorem HasOnly.leave (hx : x.HasOnly P) : x.leave.HasOnly P :=
  ⟨hx.operands, fun f hf => hx.frames f (List.mem_of_mem_tail hf)⟩

theorem HasOnly.pushLength (hx : x.HasOnly P) (hP : AllButRefs P) :
    GivesOnly (HasOnly P) (x.pushLength h) := by
  refine hx.pop.bind fun ⟨v, y⟩ ⟨_, hy⟩ => ?_
  cases v with
  | str => exact hy.push (hP _ rfl)
  | ref o => exact (givesOnly_of_ok fun _ _ => trivial).bind fun _ _ => hy.push (hP _ rfl)
  | _ => trivial

theorem HasOnly.getField (hx : x.HasOnly P) (hheap : h.HasOnly P) (i : Instr) :
    GivesOnly (HasOnly P) (x.getField h i) := by
  refine hx.pop.bind fun ⟨r, y⟩ ⟨_, hy⟩ => ?_
  refine (givesOnly_of_ok fun _ _ => trivial).bind fun o _ => ?_
  refine (givesOnly_of_ok fun _ _ => trivial).bind fun field _ => ?_
  exact (givesOnly_of_ok fun v hv => hheap.getField hv).bind fun v hv => hy.push hv

theorem HasOnly.getIndex (hx : x.HasOnly P) (hnull : P .null) (hheap : h.HasOnly P) :
    GivesOnly (HasOnly P) (x.getIndex h) := by
  refine hx.pop.bind fun ⟨n, y⟩ ⟨_, hy⟩ => hy.pop.bind fun ⟨r, z⟩ ⟨_, hz⟩ => ?_
  refine (givesOnly_of_ok fun _ _ => trivial).bind fun o _ => ?_
  refine (givesOnly_of_ok fun _ _ => trivial).bind fun index _ => ?_
  exact (givesOnly_of_ok fun v hv => hheap.getIndex hnull hv).bind fun v hv => hz.push hv

theorem HasOnly.newRecord (hx : x.HasOnly P) (hadds : h.AddsOnly P (x.newRecord h).2) :
    (x.newRecord h).1.HasOnly P :=
  hx.push hadds.of_push

theorem HasOnly.setField (hx : x.HasOnly P) (i : Instr) :
    GivesOnly (HasOnly P) (x.setField h i).1 := by
  rcases x.setField_cases h i with ⟨e, -, heq⟩ | ⟨v, o, field, rest, hoperands, heq⟩ <;> rw [heq]
  · trivial
  · have hsub : rest ⊆ x.operands := by
      rw [hoperands]
      exact List.subset_cons_of_subset _ (List.subset_cons_self _ _)
    exact (givesOnly_of_ok fun _ _ => trivial).map fun _ _ => hx.of_subset hsub

theorem HasOnly.newArray (hx : x.HasOnly P) (hadds : h.AddsOnly P (x.newArray h).2) :
    GivesOnly (HasOnly P) (x.newArray h).1 := by
  rcases x.newArray_cases h with ⟨e, -, heq⟩ | ⟨v, length, rest, hoperands, heq⟩ <;>
    rw [heq] at hadds ⊢
  · trivial
  · have hsub : rest ⊆ x.operands := by
      rw [hoperands]
      exact List.subset_cons_self _ _
    rw [Heap.allocArray] at hadds ⊢
    rcases h.allocArrayIf_cases length (h.hasRoom length) with ⟨-, halloc⟩ | ⟨e, -, halloc⟩ <;>
      rw [halloc] at hadds ⊢
    · exact (hx.of_subset hsub).push hadds.of_push
    · trivial

theorem HasOnly.setIndex (hx : x.HasOnly P) : GivesOnly (HasOnly P) (x.setIndex h).1 := by
  rcases x.setIndex_cases h with ⟨e, -, heq⟩ | ⟨v, n, o, index, rest, hoperands, heq⟩ <;> rw [heq]
  · trivial
  · have hsub : rest ⊆ x.operands := by
      rw [hoperands]
      exact List.subset_cons_of_subset _
        (List.subset_cons_of_subset _ (List.subset_cons_self _ _))
    exact (givesOnly_of_ok fun _ _ => trivial).map fun _ _ => hx.of_subset hsub

theorem HasOnly.write (hx : x.HasOnly P) (c : Console) :
    GivesOnly (HasOnly P) (x.write c).1 := by
  obtain ⟨thread, call, _ | ⟨v, rest⟩, frames⟩ := x
  · trivial
  · simp only [Execution.write, Execution.pop]
    split
    · trivial
    · exact hx.of_subset (List.subset_cons_self v rest)

theorem HasOnly.read (hx : x.HasOnly P) (hP : AllButRefs P) (c : Console) :
    GivesOnly (HasOnly P) (x.read c).1 := by
  rw [Execution.read]
  split
  · trivial
  · exact hx.push (hP _ rfl)
  · exact hx.push (hP _ rfl)

end Execution

/-! ## What executions share -/

/-- If the thread has ended with a value, then with one that has a property. -/
def Outcome.HasOnly (P : Value → Prop) : Outcome → Prop
  | .finished (.ok v) => P v
  | _ => True

theorem Outcome.HasOnly.mono {outcome : Outcome} (houtcome : outcome.HasOnly P)
    (hPQ : ∀ v, P v → Q v) : outcome.HasOnly Q := by
  match outcome with
  | .finished (.ok v) => exact hPQ v houtcome
  | .finished (.error _) | .running | .crashed => trivial

/-- The objects and the results of the threads have only values with a property, and no routine
carries a reference. -/
structure Shared.HasOnly (P : Value → Prop) (s : Shared) : Prop where
  /-- The objects have such values. -/
  heap : s.heap.HasOnly P
  /-- The routines carry no references. -/
  routines : ∀ r ∈ s.routines, r.RefFree
  /-- The threads have ended with such values. -/
  threads : ∀ thread r, s.thread? thread = some r → r.outcome.HasOnly P

namespace Shared.HasOnly

variable {s s' : Shared}

theorem mono (hs : s.HasOnly P) (hPQ : ∀ v, P v → Q v) : s.HasOnly Q :=
  ⟨hs.heap.mono hPQ, hs.routines, fun thread r hr => (hs.threads thread r hr).mono hPQ⟩

theorem congr (hs : s.HasOnly P) (hheap : s'.heap = s.heap) (hroutines : s'.routines = s.routines)
    (hthreads : s'.threads = s.threads) : s'.HasOnly P where
  heap := hheap ▸ hs.heap
  routines := hroutines ▸ hs.routines
  threads thread r hr := by
    rw [thread?_congr hthreads] at hr
    exact hs.threads thread r hr

theorem modifyThread (hs : s.HasOnly P) (thread : ThreadId) {f : Thread → Thread}
    (hf : ∀ r, r.outcome.HasOnly P → (f r).outcome.HasOnly P) :
    (s.modifyThread thread f).HasOnly P := by
  have hrecords : ∀ other r, (s.modifyThread thread f).thread? other = some r →
      r.outcome.HasOnly P := by
    intro other r hr
    rw [thread?_modifyThread] at hr
    split at hr
    · obtain ⟨r₀, hr₀, rfl⟩ := Option.map_eq_some_iff.mp hr
      exact hf r₀ (hs.threads thread r₀ hr₀)
    · exact hs.threads other r hr
  obtain ⟨threads, hthreads⟩ := s.exists_modifyThread thread f
  rw [hthreads] at hrecords ⊢
  exact ⟨hs.heap, hs.routines, hrecords⟩

theorem deliver (hs : s.HasOnly P) (thread : ThreadId) {outcome : Outcome}
    (houtcome : outcome.HasOnly P) : (s.deliver thread outcome).HasOnly P :=
  hs.modifyThread thread fun _ _ => houtcome

theorem withThread (hs : s.HasOnly P) (hroom : firstThread + s.threads.size < Nat.pow 2 63)
    (call : Nat) : (s.withThread call).HasOnly P where
  heap := hs.heap
  routines := hs.routines
  threads thread r hr := by
    have hpush : (s.withThread call).threads = s.threads.push { call } := rfl
    rw [thread?_push hroom hpush] at hr
    split at hr
    · cases hr
      trivial
    · exact hs.threads thread r hr

end Shared.HasOnly

/-! ## One instruction -/

/-- The executions that go on have only values with a property. -/
def Effect.HasOnly (P : Value → Prop) : Effect → Prop
  | .next x => x.HasOnly P
  | .spawn x child => x.HasOnly P ∧ child.HasOnly P
  | .wait x _ => x.HasOnly P
  | .fault _ | .crash => True

theorem Effect.hasOnly_ofExcept {r : Except Fault Execution}
    (hr : GivesOnly (Execution.HasOnly P) r) : (Effect.ofExcept r).HasOnly P := by
  cases r with
  | ok x => exact hr
  | error e => trivial

section

variable {s : Shared} {x : Execution} {i : Instr}

theorem spawnThread_hasOnly (hs : s.HasOnly P) (hP : AllButRefs P) (hx : x.HasOnly P) :
    (spawnThread s x).2.HasOnly P := by
  rw [spawnThread]
  dsimp only
  split
  · trivial
  · rename_i arg routine y hoperands
    have hgives : GivesOnly (fun p : Value × Routine × Execution =>
        P p.1 ∧ p.2.1.RefFree ∧ p.2.2.HasOnly P) (.ok (arg, routine, y)) := by
      rw [← hoperands]
      refine hx.pop.bind ?_
      rintro ⟨v, y⟩ ⟨-, hy⟩
      refine (givesOnly_of_ok fun _ _ => trivial).bind fun name _ => hy.pop.bind ?_
      rintro ⟨arg, z⟩ ⟨harg, hz⟩
      dsimp only
      split
      · rename_i routine hfind
        exact ⟨harg, hs.routines _ (Shared.mem_of_find? hfind), hz⟩
      · trivial
    obtain ⟨harg, hroutine, hy⟩ := hgives
    split
    · trivial
    · refine ⟨hy.push (hP _ rfl), List.forall_mem_singleton.mpr harg, ?_⟩
      exact List.forall_mem_singleton.mpr (Frame.hasOnly_begin hroutine)

theorem claimThread_hasOnly (hx : x.HasOnly P) : (claimThread s x).2.HasOnly P := by
  rw [claimThread]
  dsimp only
  split
  · trivial
  · rename_i thread y hoperands
    have hgives : GivesOnly (fun p : ThreadId × Execution => p.2.HasOnly P)
        (.ok (thread, y)) := by
      rw [← hoperands]
      refine hx.pop.bind ?_
      rintro ⟨v, y⟩ ⟨-, hy⟩
      exact (givesOnly_of_ok fun _ _ => trivial).bind fun _ _ => hy
    split
    · trivial
    · exact hgives

/-- **An instruction only hands values on**, but for references to a new object. -/
theorem perform_hasOnly (hs : s.HasOnly P) (hP : AllButRefs P) (hx : x.HasOnly P)
    (hi : i.isRefFree = true) (hadds : s.heap.AddsOnly P (perform s x i).1.heap) :
    (perform s x i).2.HasOnly P := by
  have hnull := hP .null rfl
  rw [perform] at hadds ⊢
  split at hadds
  case h_1 =>
    refine Effect.hasOnly_ofExcept (GivesOnly.map (P := P) ?_ fun v hv => hx.push hv)
    rw [Instr.isRefFree] at hi
    rw [Instr.literalArg]
    split
    · rename_i v harg
      rw [harg] at hi
      exact hP v (by cases v <;> first | rfl | cases hi)
    · trivial
  case h_2 => exact Effect.hasOnly_ofExcept (hx.pop.map fun _ hp => hp.2)
  case h_3 =>
    exact Effect.hasOnly_ofExcept ((givesOnly_of_ok fun _ _ => trivial).bind fun slot _ =>
      hx.load slot)
  case h_4 =>
    split
    · trivial
    · exact Effect.hasOnly_ofExcept ((givesOnly_of_ok fun _ _ => trivial).bind fun slot _ =>
        hx.store hnull slot _)
  case h_5 op _ => exact Effect.hasOnly_ofExcept (hx.binary hP op)
  case h_6 op _ => exact Effect.hasOnly_ofExcept (hx.unary hP op)
  case h_7 =>
    exact Effect.hasOnly_ofExcept ((givesOnly_of_ok fun _ _ => trivial).bind fun n _ => hx.jump n)
  case h_8 =>
    exact Effect.hasOnly_ofExcept ((givesOnly_of_ok fun _ _ => trivial).bind fun n _ =>
      hx.jumpUnless n)
  case h_9 =>
    refine Effect.hasOnly_ofExcept ((givesOnly_of_ok fun _ _ => trivial).bind fun name _ => ?_)
    split
    · rename_i routine hfind
      exact hx.enter (hs.routines _ (Shared.mem_of_find? hfind)) _
    · trivial
  case h_10 => exact hx.leave
  case h_11 => exact Effect.hasOnly_ofExcept (hx.write s.console)
  case h_12 => exact Effect.hasOnly_ofExcept (hx.read hP s.console)
  case h_13 => exact Effect.hasOnly_ofExcept (hx.pushLength hP)
  case h_14 => exact hx.newRecord hadds
  case h_15 => exact Effect.hasOnly_ofExcept (hx.setField i)
  case h_16 => exact Effect.hasOnly_ofExcept (hx.getField hs.heap i)
  case h_17 => exact Effect.hasOnly_ofExcept (hx.newArray hadds)
  case h_18 => exact Effect.hasOnly_ofExcept hx.setIndex
  case h_19 => exact Effect.hasOnly_ofExcept (hx.getIndex hnull hs.heap)
  case h_20 => exact spawnThread_hasOnly hs hP hx
  case h_21 => exact claimThread_hasOnly hx
  case h_22 => exact Effect.hasOnly_ofExcept hx.dup
  case h_23 => exact hx

end

/-! ## One step -/

/-- What a step makes of an execution has only values with a property. -/
def Turn.HasOnly (P : Value → Prop) : Turn → Prop
  | .continues x => x.HasOnly P
  | .spawns x child => x.HasOnly P ∧ child.HasOnly P
  | .waits x _ _ => x.HasOnly P
  | .returns v => P v
  | .fails _ | .crashes => True

section

variable {s : Shared} {x : Execution}

theorem hasOnly_headD (hnull : P .null) {operands : List Value} (h : ∀ v ∈ operands, P v) :
    P (operands.headD .null) := by
  cases operands with
  | nil => exact hnull
  | cons v rest => exact h v List.mem_cons_self

/-- A step only hands values on. -/
theorem Execution.step_hasOnly (hs : s.HasOnly P) (hP : AllButRefs P) (hx : x.HasOnly P)
    (hadds : s.heap.AddsOnly P (step s x).1.heap) : (step s x).2.HasOnly P := by
  rcases step_cases s x with ⟨-, hstep⟩ | ⟨i, -, -, hstep⟩ | ⟨i, hi, -, hstep⟩ <;>
    rw [hstep] at hadds ⊢
  · exact hasOnly_headD (hP _ rfl) hx.operands
  · trivial
  · obtain ⟨f, fs, hframes, hget⟩ := Execution.instr?_eq_some hi
    have hf := hx.frames f (hframes ▸ List.mem_cons_self)
    have hperform := perform_hasOnly hs hP hx.passed (hf.routine _ i hget) hadds
    generalize (perform s x.passed i).2 = effect at hperform ⊢
    cases effect <;> exact hperform

/-- A step brings no other values into what executions share. -/
theorem Shared.HasOnly.step (hs : s.HasOnly P) (hnull : P .null) (hx : x.HasOnly P) :
    (step s x).1.HasOnly P := by
  have hheap := (heap_step s x).hasOnly hs.heap hnull hx.operands
  have hsteps := steps_step s x
  have hroutines := routines_step s x
  generalize Opstack.step s x = r at hsteps hheap hroutines
  obtain ⟨s', turn⟩ := r
  dsimp only at hsteps hheap hroutines ⊢
  cases hsteps with
  | continues _ hbooks _ | raises _ hbooks _ _ =>
    refine ⟨hheap, hroutines ▸ hs.routines, fun thread r hr => ?_⟩
    rw [thread?_congr hbooks.threads] at hr
    exact hs.threads thread r hr
  | spawns _ hroom _ _ _ => exact hs.withThread hroom _
  | waits _ _ _ _ => exact hs.modifyThread _ fun _ hr => hr
  | returns | stops | crashes => exact hs

end

/-! ## One turn -/

namespace Task

/-- The task has only values with a property. -/
def HasOnly (P : Value → Prop) : Task → Prop
  | .running x => x.HasOnly P
  | .waiting x _ _ => x.HasOnly P
  | .joining _ (.ok v) | .closing _ (.ok v) | .answered _ (.ok v) => P v
  | _ => True

variable {s : Shared} {t : Task}

theorem HasOnly.mono (ht : t.HasOnly P) (hPQ : ∀ v, P v → Q v) : t.HasOnly Q := by
  match t with
  | .running x => exact Execution.HasOnly.mono ht hPQ
  | .waiting x _ _ => exact Execution.HasOnly.mono ht hPQ
  | .joining _ (.ok v) | .closing _ (.ok v) | .answered _ (.ok v) => exact hPQ v ht
  | .failing _ _ _ | .joining _ (.error _) | .closing _ (.error _) | .answered _ (.error _) =>
    trivial

/-- The shared state and the tasks that come out of a turn have only values with a property. -/
def LeavesOnly (P : Value → Prop) (r : Shared × List Task) : Prop :=
  r.1.HasOnly P ∧ ∀ t ∈ r.2, t.HasOnly P

theorem leavesOnly_finish (hs : s.HasOnly P) (thread : Option ThreadId) (call : Nat) {v : Value}
    (hv : P v) : LeavesOnly P (finish s thread call v) := by
  cases thread with
  | none => exact ⟨hs, List.forall_mem_singleton.mpr hv⟩
  | some t => exact ⟨hs.deliver t hv, List.forall_mem_nil _⟩

theorem leavesOnly_record (hs : s.HasOnly P) (thread : Option ThreadId) (call : Nat)
    (e : Failure) : LeavesOnly P (record s thread call e) := by
  have hfail : (s.fail e).HasOnly P := hs.congr rfl rfl rfl
  cases thread with
  | none => exact ⟨hfail, List.forall_mem_singleton.mpr trivial⟩
  | some t => exact ⟨hfail.deliver t trivial, List.forall_mem_nil _⟩

theorem leavesOnly_crash (hs : s.HasOnly P) (thread : Option ThreadId) :
    LeavesOnly P (crash s thread) := by
  cases thread with
  | none => exact ⟨hs, List.forall_mem_nil _⟩
  | some t => exact ⟨hs.deliver t trivial, List.forall_mem_nil _⟩

/-- What an execution gets from a thread has the property. -/
theorem hasOnly_resume {x : Execution} (hs : s.HasOnly P) (hx : x.HasOnly P) (thread : ThreadId)
    (site : Site) : (resume x thread site (s.outcomeOf thread)).HasOnly P := by
  rw [Shared.outcomeOf]
  split
  · rename_i r hr
    have houtcome := hs.threads thread r hr
    generalize r.outcome = outcome at houtcome
    cases outcome with
    | running => exact hx
    | finished result =>
      cases result with
      | ok v => exact hx.push houtcome
      | error e => trivial
    | crashed => trivial
  · exact hx

theorem hasOnly_join (hs : s.HasOnly P) (call : Nat) : (join s call).HasOnly P :=
  hs.congr (heap_join s call) (routines_join s call) (threads_join s call)

theorem hasOnly_answer {call : Nat} {result : Except Failure Value}
    (ht : Task.HasOnly P (.closing call result)) (failure : Option Failure) :
    Task.HasOnly P (.answered call (answer failure result)) := by
  cases failure with
  | some e => trivial
  | none =>
    cases result with
    | ok v => exact ht
    | error e => trivial

/-- **A turn only hands values on**, but for references to a new object. -/
theorem turn_hasOnly (hs : s.HasOnly P) (hP : AllButRefs P) (ht : t.HasOnly P)
    (hadds : s.heap.AddsOnly P (t.turn s).1.heap) : LeavesOnly P (t.turn s) := by
  cases t with
  | running x =>
    rw [heap_turn_running] at hadds
    have hshared := hs.step (hP _ rfl) ht
    have hturn := Execution.step_hasOnly hs hP ht hadds
    rw [turn]
    generalize step s x = r at hshared hturn
    obtain ⟨s', turn⟩ := r
    cases turn with
    | continues y => exact ⟨hshared, List.forall_mem_singleton.mpr hturn⟩
    | spawns y child =>
      exact ⟨hshared, List.forall_mem_cons.mpr ⟨hturn.2, List.forall_mem_singleton.mpr hturn.1⟩⟩
    | waits y thread site => exact ⟨hshared, List.forall_mem_singleton.mpr hturn⟩
    | returns v => exact leavesOnly_finish hshared x.thread x.call hturn
    | fails e => exact ⟨hshared, List.forall_mem_singleton.mpr trivial⟩
    | crashes => exact leavesOnly_crash hshared x.thread
  | waiting x thread site =>
    exact ⟨hs, List.forall_mem_singleton.mpr (hasOnly_resume hs ht thread site)⟩
  | failing thread call e => exact leavesOnly_record hs thread call e
  | joining call result =>
    rw [turn]
    split
    · refine ⟨hasOnly_join hs call, List.forall_mem_singleton.mpr ?_⟩
      cases result with
      | ok v => exact ht
      | error e => trivial
    · exact ⟨hs, List.forall_mem_singleton.mpr ht⟩
  | closing call result =>
    exact ⟨hs.congr rfl rfl rfl, List.forall_mem_singleton.mpr (hasOnly_answer ht s.failure)⟩
  | answered call result => exact ⟨hs, List.forall_mem_singleton.mpr ht⟩

end Task

/-! ## Sessions -/

namespace Machine

/-- The machine has only values with a property. -/
structure HasOnly (P : Value → Prop) (m : Machine) : Prop where
  /-- What executions share has such values. -/
  shared : m.shared.HasOnly P
  /-- The tasks have such values. -/
  tasks : ∀ t ∈ m.tasks, t.HasOnly P

/-- The event brings only values with a property into the machine. -/
def BringsOnly (P : Value → Prop) : Event → Prop
  | .add routine => routine.RefFree
  | .ask request => ∀ v, request.value? = some v → P v
  | .move (.begin _ args) => ∀ v ∈ args, P v
  | .move _ => True

variable {m : Machine}

theorem HasOnly.mono (hm : m.HasOnly P) (hPQ : ∀ v, P v → Q v) : m.HasOnly Q :=
  ⟨hm.shared.mono hPQ, fun t ht => (hm.tasks t ht).mono hPQ⟩

theorem hasOnly_create (P : Value → Prop) (config : Config) (console : Console) :
    (create config console).HasOnly P where
  shared :=
    { heap := fun o object hfind => by simp [create, Heap.find?] at hfind
      routines := List.forall_mem_nil _
      threads := fun thread r hr => by simp [create, Shared.thread?] at hr }
  tasks := List.forall_mem_nil _

theorem HasOnly.add (hm : m.HasOnly P) {routine : Routine} (hroutine : routine.RefFree) :
    (m.add routine).HasOnly P where
  shared :=
    { heap := hm.shared.heap
      routines := List.forall_mem_cons.mpr
        ⟨hroutine, fun r hr => hm.shared.routines r (List.mem_filter.mp hr).1⟩
      threads := hm.shared.threads }
  tasks := hm.tasks

theorem HasOnly.ask (hm : m.HasOnly P) (hnull : P .null) {request : Heap.Request}
    (hvalue : ∀ v, request.value? = some v → P v) : (m.react (.ask request)).HasOnly P where
  shared :=
    { heap := hm.shared.heap.serve hnull (m.shared.heap.serves request) hvalue
      routines := hm.shared.routines
      threads := hm.shared.threads }
  tasks := hm.tasks

theorem hasOnly_entry (hm : m.HasOnly P) (name : String) {args : List Value}
    (hargs : ∀ v ∈ args, P v) : ∀ t ∈ entry m.shared m.calls name args, t.HasOnly P := by
  refine forall_mem_entry (fun routine hfind => ?_) trivial
  have hroutine := hm.shared.routines routine (Shared.mem_of_find? hfind)
  exact ⟨hargs, List.forall_mem_singleton.mpr (Frame.hasOnly_begin hroutine)⟩

theorem HasOnly.advance (hm : m.HasOnly P) (hP : AllButRefs P) {position : Nat}
    (hadds : m.shared.heap.AddsOnly P (m.advance position).shared.heap) :
    (m.advance position).HasOnly P := by
  cases ht : m.tasks[position]? with
  | none =>
    rw [advance_eq_self ht]
    exact hm
  | some t =>
    obtain ⟨before, after, htasks, hadvance⟩ := advance_eq ht
    have htasks' : ∀ u ∈ before ++ t :: after, u.HasOnly P := htasks ▸ hm.tasks
    rw [hadvance] at hadds ⊢
    obtain ⟨hshared, hturn⟩ :=
      Task.turn_hasOnly hm.shared hP (hm.tasks t (List.mem_of_getElem? ht)) hadds
    refine ⟨hshared, fun u hu => ?_⟩
    rcases Task.mem_cases hu with hu | hu
    · exact htasks' u (Task.mem_of_mem hu)
    · exact hturn u hu

/-- **An event brings no values into a machine** but those that come from outside and references to
new objects. -/
theorem react_hasOnly (hm : m.HasOnly P) (hP : AllButRefs P) {event : Event}
    (hevent : BringsOnly P event)
    (hadds : m.shared.heap.AddsOnly P (m.react event).shared.heap) :
    (m.react event).HasOnly P := by
  cases event with
  | add routine => exact hm.add hevent
  | ask request => exact hm.ask (hP _ rfl) hevent
  | move move =>
    cases move with
    | begin name args =>
      exact ⟨hm.shared, List.forall_mem_append.mpr ⟨hasOnly_entry hm name hevent, hm.tasks⟩⟩
    | advance position => exact hm.advance hP hadds
    | forget call =>
      exact ⟨hm.shared, fun t ht => hm.tasks t (List.mem_filter.mp ht).1⟩

end Machine

end

end Opstack
