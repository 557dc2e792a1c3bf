import Opstack.Proofs.Machine.Alike
import Opstack.Proofs.Machine.Placement

/-!
# Executions that look alike

Two executions look alike if they are at the same places of the same routines and hold values that
look alike.  `step_alike` says that they stay so: if the heaps and the consoles look alike too, then
a step makes the same of both, fails alike or ends alike, and an object that it allocates here
corresponds to the one that it allocates there.

A reference in the code would be a number that means one object in both heaps, and the text of a
reference would show its number.  So the instruction must not carry a reference, and `WRITE` must
not be given one.  `THREAD` and `WAIT` are left out: they go by the table of threads.
-/

set_option autoImplicit false

namespace Opstack

/-! ## Objects that an instruction changes -/

namespace Heap

theorem nextObject_put (h : Heap) (o : ObjectId) (object : Obj) :
    (h.put o object).nextObject = h.nextObject := by
  rw [nextObject, size_objects_put, nextObject]

theorem nextObject_push (h : Heap) (object : Obj) :
    (h.push object).nextObject = h.nextObject + 1 := by
  rw [nextObject, push, Array.size_push]
  rfl

/-- The heap has the same objects as before, but for one that may have changed. -/
structure ChangesOnly (h : Heap) (target : Option ObjectId) (h' : Heap) : Prop where
  /-- No object has been allocated. -/
  next : h'.nextObject = h.nextObject
  /-- The other objects are as before. -/
  others : ∀ o, target ≠ some o → h'.find? o = h.find? o

theorem ChangesOnly.refl (h : Heap) (target : Option ObjectId) : h.ChangesOnly target h :=
  ⟨rfl, fun _ _ => rfl⟩

theorem changesOnly_put {h : Heap} {o : ObjectId} {old : Obj} (hold : h.find? o = some old)
    (object : Obj) : h.ChangesOnly (some o) (h.put o object) := by
  refine ⟨h.nextObject_put o object, fun other hother => ?_⟩
  rw [find?_put hold, if_neg fun heq => hother (congrArg some heq.symm)]

theorem changesOnly_setField (h : Heap) (o : ObjectId) (field : String) (v : Value) :
    h.ChangesOnly (some o) (h.setField o field v).2 := by
  rcases h.setField_cases o field v with ⟨fields, hfind, heq⟩ | ⟨-, heq⟩ <;> rw [heq]
  · exact changesOnly_put hfind _
  · exact .refl h _

theorem changesOnly_setIndex (h : Heap) (o : ObjectId) (index : Int64) (v : Value) :
    h.ChangesOnly (some o) (h.setIndex o index v).2 := by
  rcases h.setIndex_cases o index v with ⟨cells, i, hfind, -, heq⟩ | ⟨cells, e, -, -, heq⟩ |
    ⟨-, heq⟩ <;> rw [heq]
  · exact changesOnly_put hfind _
  · exact .refl h _
  · exact .refl h _

end Heap

namespace Execution

/-- The object that an instruction is about to change. -/
def target? (x : Execution) (i : Instr) : Option ObjectId :=
  match i.op, x.operands with
  | .setf, _ :: v :: _ => v.asRef?
  | .seti, _ :: _ :: v :: _ => v.asRef?
  | _, _ => none

theorem changesOnly_setField (x : Execution) (h : Heap) {i : Instr} (hop : i.op = .setf) :
    h.ChangesOnly (x.target? i) (x.setField h i).2 := by
  rcases x.setField_cases h i with ⟨e, -, heq⟩ | ⟨v, o, field, rest, hoperands, heq⟩ <;> rw [heq]
  · exact .refl h _
  · simp only [target?, hop, hoperands]
    exact h.changesOnly_setField o field v

theorem changesOnly_setIndex (x : Execution) (h : Heap) {i : Instr} (hop : i.op = .seti) :
    h.ChangesOnly (x.target? i) (x.setIndex h).2 := by
  rcases x.setIndex_cases h with ⟨e, -, heq⟩ | ⟨v, n, o, index, rest, hoperands, heq⟩ <;> rw [heq]
  · exact .refl h _
  · simp only [target?, hop, hoperands]
    exact h.changesOnly_setIndex o index v

end Execution

/-- **An instruction changes no object but its target**, and allocates at most one. -/
theorem find?_perform (s : Shared) (x : Execution) (i : Instr) {o : ObjectId}
    (hnext : o ≠ s.heap.nextObject) (htarget : x.target? i ≠ some o) :
    (perform s x i).1.heap.find? o = s.heap.find? o := by
  have hpush : ∀ object, (s.heap.push object).find? o = s.heap.find? o := fun object => by
    rw [Heap.find?_push, if_neg hnext]
  rw [perform]
  split
  case h_4 => split <;> rfl
  case h_14 => exact hpush _
  case h_15 hop => exact (x.changesOnly_setField s.heap hop).others o htarget
  case h_17 =>
    change (x.newArray s.heap).2.find? o = s.heap.find? o
    rcases x.newArray_cases s.heap with ⟨e, -, heq⟩ | ⟨v, length, rest, -, heq⟩ <;> rw [heq]
    rw [Heap.allocArray]
    rcases s.heap.allocArrayIf_cases length (s.heap.hasRoom length) with ⟨-, halloc⟩ |
      ⟨e, -, halloc⟩ <;> rw [halloc]
    exact hpush _
  case h_18 hop => exact (x.changesOnly_setIndex s.heap hop).others o htarget
  case h_20 => rw [heap_spawnThread]
  case h_21 => rw [heap_claimThread]
  all_goals rfl

/-! ## Consoles -/

/-- Both consoles have the same input left, will refuse the same from now on, and have been written
the same text to since they had shown two given texts. -/
structure Console.Alike (shown shown' : String) (c c' : Console) : Prop where
  /-- The same input is left. -/
  input : c'.input = c.input
  /-- The input fails at its end or not. -/
  inputFailure : c'.inputFailure = c.inputFailure
  /-- The same texts will be refused. -/
  writes : ∀ k j, c'.writeLimit (c'.output.utf8ByteSize + k) (c'.refusals + j) =
    c.writeLimit (c.output.utf8ByteSize + k) (c.refusals + j)
  /-- The same flushes will be refused. -/
  flushes : ∀ k, c'.flushLimit (c'.flushes + k) = c.flushLimit (c.flushes + k)
  /-- The same text has been written. -/
  output : ∃ text, c.output = shown ++ text ∧ c'.output = shown' ++ text

namespace Console.Alike

theorem refl (c : Console) : c.Alike c.output c.output c :=
  ⟨rfl, rfl, fun _ _ => rfl, fun _ => rfl, "", String.append_empty.symm, String.append_empty.symm⟩

variable {shown shown' : String} {c c' : Console}

theorem write (h : c.Alike shown shown' c') (s : String) :
    (c'.write s).1 = (c.write s).1 ∧ (c.write s).2.Alike shown shown' (c'.write s).2 := by
  have hrefusal : c'.refusal? s = c.refusal? s := by
    rw [Console.refusal?, Console.refusal?]
    split
    · rfl
    · exact h.writes 0 0
  rw [Console.write, Console.write, hrefusal]
  split
  · refine ⟨rfl, h.input, h.inputFailure, fun k j => ?_, h.flushes, h.output⟩
    simp only [Nat.add_assoc]
    exact h.writes k _
  · refine ⟨rfl, ⟨h.input, h.inputFailure, fun k j => ?_, h.flushes, ?_⟩⟩
    · simp only [String.utf8ByteSize_append, Nat.add_assoc]
      exact h.writes _ j
    · obtain ⟨text, htext, htext'⟩ := h.output
      exact ⟨text ++ s, by rw [htext, String.append_assoc], by rw [htext', String.append_assoc]⟩

theorem flush (h : c.Alike shown shown' c') :
    (c'.flush).1 = (c.flush).1 ∧ (c.flush).2.Alike shown shown' (c'.flush).2 := by
  have hrefusal : c'.flushLimit c'.flushes = c.flushLimit c.flushes := h.flushes 0
  have hflushed : Alike shown shown' { c with flushes := c.flushes + 1 }
      { c' with flushes := c'.flushes + 1 } := by
    refine ⟨h.input, h.inputFailure, h.writes, fun k => ?_, h.output⟩
    rw [Nat.add_assoc, Nat.add_assoc]
    exact h.flushes _
  rw [Console.flush, Console.flush, hrefusal]
  split <;> exact ⟨rfl, hflushed⟩

theorem takeLine (h : c.Alike shown shown' c') :
    (c'.takeLine).1 = (c.takeLine).1 ∧ (c.takeLine).2.Alike shown shown' (c'.takeLine).2 := by
  obtain ⟨input, inputFailure, output, writeLimit, flushLimit, flushes, refusals⟩ := c
  obtain ⟨input', inputFailure', output', writeLimit', flushLimit', flushes', refusals'⟩ := c'
  obtain ⟨rfl, rfl, hwrites, hflushes, houtput⟩ := h
  have hrest : ∀ rest, Alike shown shown'
      ⟨rest, inputFailure', output, writeLimit, flushLimit, flushes, refusals⟩
      ⟨rest, inputFailure', output', writeLimit', flushLimit', flushes', refusals'⟩ :=
    fun rest => ⟨rfl, rfl, hwrites, hflushes, houtput⟩
  rw [Console.takeLine, Console.takeLine]
  dsimp only
  split
  · exact ⟨rfl, hrest _⟩
  · split
    · exact ⟨rfl, hrest _⟩
    · split
      · exact ⟨rfl, hrest _⟩
      · exact ⟨rfl, hrest _⟩

theorem readLine (h : c.Alike shown shown' c') :
    (c'.readLine).1 = (c.readLine).1 ∧ (c.readLine).2.Alike shown shown' (c'.readLine).2 := by
  obtain ⟨hanswer, hflushed⟩ := h.flush
  rw [Console.readLine, Console.readLine]
  generalize c.flush = a, c'.flush = b at hanswer hflushed
  obtain ⟨answer, c₁⟩ := a
  obtain ⟨answer', c₁'⟩ := b
  obtain rfl : answer' = answer := hanswer
  cases answer' with
  | error reason => exact ⟨rfl, hflushed⟩
  | ok _ => exact hflushed.takeLine

end Console.Alike

/-! ## Executions -/

section

variable (r : ObjectId → ObjectId → Prop)

/-- Both activations are at the same place of the same routine, which carries no reference, and
their slots look alike. -/
structure Frame.Alike (f f' : Frame) : Prop where
  /-- The routine is the same. -/
  routine : f'.routine = f.routine
  /-- The place is the same. -/
  pc : f'.pc = f.pc
  /-- The slots look alike. -/
  slots : CellsAlike r f.slots f'.slots
  /-- The routine carries no reference. -/
  refFree : f.routine.RefFree

/-- Both executions are the same thread or entry executions, and their operands and activations
look alike. -/
structure Execution.Alike (x x' : Execution) : Prop where
  /-- The thread is the same. -/
  thread : x'.thread = x.thread
  /-- The operands look alike. -/
  operands : List.Forall₂ (Value.Alike r) x.operands x'.operands
  /-- The activations look alike. -/
  frames : List.Forall₂ (Frame.Alike r) x.frames x'.frames

end

section

variable {r r' : ObjectId → ObjectId → Prop}

theorem Frame.Alike.mono {f f' : Frame} (h : f.Alike r f') (hle : ∀ o o', r o o' → r' o o') :
    f.Alike r' f' :=
  ⟨h.routine, h.pc, h.slots.mono hle, h.refFree⟩

theorem Frame.alike_begin {routine : Routine} (hroutine : routine.RefFree) :
    Frame.Alike r { routine } { routine } :=
  ⟨rfl, rfl, fun _ => .none, hroutine⟩

namespace Execution

variable {x x' : Execution} {v v' : Value}

theorem Alike.mono (h : x.Alike r x') (hle : ∀ o o', r o o' → r' o o') : x.Alike r' x' :=
  ⟨h.thread, h.operands.imp fun _ _ hv => hv.mono hle, h.frames.imp fun _ _ hf => hf.mono hle⟩

theorem Alike.push (h : x.Alike r x') (hv : v.Alike r v') : (x.push v).Alike r (x'.push v') :=
  ⟨h.thread, .cons hv h.operands, h.frames⟩

theorem Alike.pop (h : x.Alike r x') :
    GiveAlike r (fun p p' : Value × Execution => p.1.Alike r p'.1 ∧ p.2.Alike r p'.2)
      x.pop x'.pop := by
  obtain ⟨thread, call, operands, frames⟩ := x
  obtain ⟨thread', call', operands', frames'⟩ := x'
  obtain ⟨rfl, hoperands, hframes⟩ := h
  cases hoperands with
  | nil => exact .same fun _ h => by cases h
  | cons hv hrest => exact ⟨hv, rfl, hrest, hframes⟩

theorem Alike.dup (h : x.Alike r x') : GiveAlike r (Alike r) x.dup x'.dup := by
  obtain ⟨thread, call, operands, frames⟩ := x
  obtain ⟨thread', call', operands', frames'⟩ := x'
  obtain ⟨rfl, hoperands, hframes⟩ := h
  cases hoperands with
  | nil => exact .same fun _ h => by cases h
  | cons hv hrest => exact ⟨rfl, .cons hv (.cons hv hrest), hframes⟩

theorem Alike.load (h : x.Alike r x') (slot : Nat) :
    GiveAlike r (Alike r) (x.load slot) (x'.load slot) := by
  obtain ⟨thread, call, operands, frames⟩ := x
  obtain ⟨thread', call', operands', frames'⟩ := x'
  obtain ⟨rfl, hoperands, hframes⟩ := h
  cases hframes with
  | nil => exact .same fun _ h => by cases h
  | @cons f f' fs fs' hf hfs =>
    have hslot := hf.slots slot
    simp only [Execution.load, Frame.load]
    generalize f.slots[slot]? = a, f'.slots[slot]? = b at hslot
    cases hslot with
    | none => exact .same fun _ h => by cases h
    | some hv => exact ⟨rfl, .cons hv hoperands, .cons hf hfs⟩

theorem Alike.store (h : x.Alike r x') (slot limit : Nat) :
    GiveAlike r (Alike r) (x.store slot limit) (x'.store slot limit) := by
  obtain ⟨thread, call, operands, frames⟩ := x
  obtain ⟨thread', call', operands', frames'⟩ := x'
  obtain ⟨rfl, hoperands, hframes⟩ := h
  cases hoperands with
  | nil => exact .same fun _ h => by cases h
  | cons hv hrest =>
    cases hframes with
    | nil => exact .same fun _ h => by cases h
    | @cons f f' fs fs' hf hfs =>
      simp only [Execution.store, Frame.store]
      split
      · exact ⟨rfl, hrest, .cons ⟨hf.routine, hf.pc, hf.slots.storeSlot hv slot, hf.refFree⟩ hfs⟩
      · exact .same fun _ h => by cases h

theorem Alike.overflows (h : x.Alike r x') (i : Instr) (limit capacity : Nat) :
    x'.overflows i limit capacity = x.overflows i limit capacity := by
  obtain ⟨thread, call, operands, frames⟩ := x
  obtain ⟨thread', call', operands', frames'⟩ := x'
  obtain ⟨rfl, hoperands, hframes⟩ := h
  obtain ⟨op, arg, comment⟩ := i
  rcases arg with _ | ⟨_ | _ | _ | _ | _⟩ <;> cases hoperands <;> cases hframes <;> rfl

theorem Alike.unary (h : x.Alike r x') (op : UnaryOp) :
    GiveAlike r (Alike r) (x.unary op) (x'.unary op) :=
  h.pop.bind fun _ _ ⟨hv, hy⟩ => (Value.unary_alike op hv).bind fun _ _ hw => hy.push hw

theorem Alike.binary (h : x.Alike r x') (hr : Relator.BiUnique r) (op : BinaryOp) :
    GiveAlike r (Alike r) (x.binary op) (x'.binary op) :=
  h.pop.bind fun _ _ ⟨hb, hy⟩ => hy.pop.bind fun _ _ ⟨ha, hz⟩ =>
    (Value.binary_alike hr op ha hb).bind fun _ _ hw => hz.push hw

theorem Alike.jump (h : x.Alike r x') (target : Nat) :
    GiveAlike r (Alike r) (x.jump target) (x'.jump target) := by
  obtain ⟨thread, call, operands, frames⟩ := x
  obtain ⟨thread', call', operands', frames'⟩ := x'
  obtain ⟨rfl, hoperands, hframes⟩ := h
  cases hframes with
  | nil => exact .same fun _ h => by cases h
  | cons hf hfs => exact ⟨rfl, hoperands, .cons ⟨hf.routine, rfl, hf.slots, hf.refFree⟩ hfs⟩

theorem Alike.jumpUnless (h : x.Alike r x') (target : Nat) :
    GiveAlike r (Alike r) (x.jumpUnless target) (x'.jumpUnless target) := by
  refine h.pop.bind ?_
  rintro ⟨condition, y⟩ ⟨condition', y'⟩ ⟨hcondition, hy⟩
  cases hcondition with
  | same hcondition =>
    dsimp only
    split
    · exact hy
    · exact hy.jump target
    · exact .same fun _ h => by cases h
  | ref => exact .same fun _ h => by cases h

theorem Alike.enter (h : x.Alike r x') {routine : Routine} (hroutine : routine.RefFree)
    (limit : Nat) : GiveAlike r (Alike r) (x.enter routine limit) (x'.enter routine limit) := by
  rw [Execution.enter, Execution.enter, ← h.frames.length_eq]
  split
  · exact .same fun _ h => by cases h
  · exact ⟨h.thread, h.operands, .cons (Frame.alike_begin hroutine) h.frames⟩

theorem Alike.leave (h : x.Alike r x') : x.leave.Alike r x'.leave := by
  obtain ⟨thread, call, operands, frames⟩ := x
  obtain ⟨thread', call', operands', frames'⟩ := x'
  obtain ⟨rfl, hoperands, hframes⟩ := h
  cases hframes with
  | nil => exact ⟨rfl, hoperands, .nil⟩
  | cons _ hfs => exact ⟨rfl, hoperands, hfs⟩

theorem Alike.passed (h : x.Alike r x') : x.passed.Alike r x'.passed := by
  obtain ⟨thread, call, operands, frames⟩ := x
  obtain ⟨thread', call', operands', frames'⟩ := x'
  obtain ⟨rfl, hoperands, hframes⟩ := h
  cases hframes with
  | nil => exact ⟨rfl, hoperands, .nil⟩
  | cons hf hfs =>
    exact ⟨rfl, hoperands, .cons ⟨hf.routine, by rw [hf.pc], hf.slots, hf.refFree⟩ hfs⟩

/-! ### Heap -/

variable {h h' : Heap}

theorem Alike.pushLength (hx : x.Alike r x') (hh : h.Alike r h') :
    GiveAlike r (Alike r) (x.pushLength h) (x'.pushLength h') := by
  refine hx.pop.bind ?_
  rintro ⟨v, y⟩ ⟨v', y'⟩ ⟨hv, hy⟩
  cases hv with
  | ref ho =>
    refine (hh.arrayLength ho).bind ?_
    rintro n _ rfl
    exact hy.push (.same rfl)
  | same hv =>
    cases v with
    | str => exact hy.push (.same rfl)
    | ref => cases hv
    | _ => exact .same fun _ h => by cases h

theorem Alike.getField (hx : x.Alike r x') (hh : h.Alike r h') (i : Instr) :
    GiveAlike r (Alike r) (x.getField h i) (x'.getField h' i) := by
  refine hx.pop.bind ?_
  rintro ⟨v, y⟩ ⟨v', y'⟩ ⟨hv, hy⟩
  refine (hv.asObject .getf).bind fun o o' ho => (GiveAlike.refl (i.nameArg_names .getf)).bind ?_
  rintro field _ rfl
  exact (hh.getField ho field).bind fun _ _ hw => hy.push hw

theorem Alike.getIndex (hx : x.Alike r x') (hh : h.Alike r h') :
    GiveAlike r (Alike r) (x.getIndex h) (x'.getIndex h') := by
  refine hx.pop.bind ?_
  rintro ⟨n, y⟩ ⟨n', y'⟩ ⟨hn, hy⟩
  refine hy.pop.bind ?_
  rintro ⟨v, z⟩ ⟨v', z'⟩ ⟨hv, hz⟩
  refine (hv.asObject .geti).bind fun o o' ho => (hn.asIndex .geti).bind ?_
  rintro index _ rfl
  exact (hh.getIndex ho index).bind fun _ _ hw => hz.push hw

theorem Alike.setField (hx : x.Alike r x') (hh : h.Alike r h') (i : Instr) :
    GiveAlike r (Alike r) (x.setField h i).1 (x'.setField h' i).1 ∧
      (x.setField h i).2.Alike r (x'.setField h' i).2 := by
  obtain ⟨thread, call, operands, frames⟩ := x
  obtain ⟨thread', call', operands', frames'⟩ := x'
  obtain ⟨rfl, hoperands, hframes⟩ := hx
  have hunderflow : Fault.Alike r .stackUnderflow .stackUnderflow := .same fun _ h => by cases h
  rcases hoperands with _ | ⟨hv, _ | ⟨hw, hrest⟩⟩
  · exact ⟨hunderflow, hh⟩
  · exact ⟨hunderflow, hh⟩
  simp only [Execution.setField, Execution.pop, bind, Except.bind, pure, Except.pure]
  rcases (hw.asObject .setf).cases with ⟨e, e', he, he', hfault⟩ | ⟨o, o', ho, ho', hobject⟩
  · rw [he, he']
    exact ⟨hfault, hh⟩
  rw [ho, ho']
  cases hfield : i.nameArg with
  | error e => exact ⟨((i.nameArg_names .setf).of_error hfield).alike, hh⟩
  | ok field =>
    obtain ⟨hset, hheap⟩ := hh.setField hobject field hv
    dsimp only
    generalize h.setField o field _ = a, h'.setField o' field _ = b at hset hheap
    obtain ⟨answer, h₁⟩ := a
    obtain ⟨answer', h₁'⟩ := b
    rcases hset.cases with ⟨e, e', rfl, rfl, hfault⟩ | ⟨_, _, rfl, rfl, -⟩
    · exact ⟨hfault, hheap⟩
    · exact ⟨⟨rfl, hrest, hframes⟩, hheap⟩

theorem Alike.setIndex (hx : x.Alike r x') (hh : h.Alike r h') :
    GiveAlike r (Alike r) (x.setIndex h).1 (x'.setIndex h').1 ∧
      (x.setIndex h).2.Alike r (x'.setIndex h').2 := by
  obtain ⟨thread, call, operands, frames⟩ := x
  obtain ⟨thread', call', operands', frames'⟩ := x'
  obtain ⟨rfl, hoperands, hframes⟩ := hx
  have hunderflow : Fault.Alike r .stackUnderflow .stackUnderflow := .same fun _ h => by cases h
  rcases hoperands with _ | ⟨hv, _ | ⟨hn, _ | ⟨hw, hrest⟩⟩⟩
  · exact ⟨hunderflow, hh⟩
  · exact ⟨hunderflow, hh⟩
  · exact ⟨hunderflow, hh⟩
  simp only [Execution.setIndex, Execution.pop, bind, Except.bind, pure, Except.pure]
  rcases (hw.asObject .seti).cases with ⟨e, e', he, he', hfault⟩ | ⟨o, o', ho, ho', hobject⟩
  · rw [he, he']
    exact ⟨hfault, hh⟩
  rw [ho, ho']
  rcases (hn.asIndex .seti).cases with ⟨e, e', he, he', hfault⟩ | ⟨index, _, hi, hi', rfl⟩
  · rw [he, he']
    exact ⟨hfault, hh⟩
  rw [hi, hi']
  obtain ⟨hset, hheap⟩ := hh.setIndex hobject index hv
  dsimp only
  generalize h.setIndex o index _ = a, h'.setIndex o' index _ = b at hset hheap
  obtain ⟨answer, h₁⟩ := a
  obtain ⟨answer', h₁'⟩ := b
  rcases hset.cases with ⟨e, e', rfl, rfl, hfault⟩ | ⟨_, _, rfl, rfl, -⟩
  · exact ⟨hfault, hheap⟩
  · exact ⟨⟨rfl, hrest, hframes⟩, hheap⟩

/-- `ALLOCA` fails alike, or allocates objects that look alike. -/
theorem Alike.newArray (hx : x.Alike r x') (hh : h.Alike r h') :
    (∃ e e', e.Alike r e' ∧ x.newArray h = (.error e, h) ∧ x'.newArray h' = (.error e', h')) ∨
      ∃ (y y' : Execution) (object : Obj), y.Alike r y' ∧ object.Alike r object ∧
        x.newArray h = (.ok (y.push (.ref h.nextObject)), h.push object) ∧
        x'.newArray h' = (.ok (y'.push (.ref h'.nextObject)), h'.push object) := by
  obtain ⟨thread, call, operands, frames⟩ := x
  obtain ⟨thread', call', operands', frames'⟩ := x'
  obtain ⟨rfl, hoperands, hframes⟩ := hx
  rcases hoperands with _ | ⟨hv, hrest⟩
  · exact .inl ⟨_, _, .same fun _ h => (by cases h), rfl, rfl⟩
  simp only [Execution.newArray, Execution.pop, bind, Except.bind, pure, Except.pure]
  rcases (hv.asNumber .alloca).cases with ⟨e, e', he, he', hfault⟩ | ⟨length, _, hn, hn', rfl⟩
  · rw [he, he']
    exact .inl ⟨e, e', hfault, rfl, rfl⟩
  rw [hn, hn']
  dsimp only
  rcases hh.allocArray length with ⟨e, he, halloc, halloc'⟩ | ⟨object, hobject, halloc, halloc'⟩
  · rw [halloc, halloc']
    exact .inl ⟨e, e, he, rfl, rfl⟩
  · rw [halloc, halloc']
    exact .inr ⟨⟨thread', call, _, frames⟩, ⟨thread', call', _, frames'⟩, object,
      ⟨rfl, hrest, hframes⟩, hobject, rfl, rfl⟩

/-! ### Console -/

variable {shown shown' : String} {c c' : Console}

theorem Alike.write (hx : x.Alike r x') (hc : c.Alike shown shown' c')
    (hplain : ∀ v ∈ x.operands.head?, v.asRef? = none) :
    GiveAlike r (Alike r) (x.write c).1 (x'.write c').1 ∧
      (x.write c).2.Alike shown shown' (x'.write c').2 := by
  obtain ⟨thread, call, operands, frames⟩ := x
  obtain ⟨thread', call', operands', frames'⟩ := x'
  obtain ⟨rfl, hoperands, hframes⟩ := hx
  rcases hoperands with _ | ⟨hv, hrest⟩
  · exact ⟨.same fun _ h => (by cases h), hc⟩
  obtain rfl := hv.eq_of_asRef? (hplain _ rfl)
  rename_i v _ _
  obtain ⟨hanswer, hconsole⟩ := hc.write v.text
  simp only [Execution.write, Execution.pop]
  generalize c.write v.text = a, c'.write v.text = b at hanswer hconsole
  obtain ⟨answer, c₁⟩ := a
  obtain ⟨answer', c₁'⟩ := b
  obtain rfl : answer' = answer := hanswer
  cases answer' with
  | error reason => exact ⟨.same fun _ h => (by cases h), hconsole⟩
  | ok _ => exact ⟨⟨rfl, hrest, hframes⟩, hconsole⟩

theorem Alike.read (hx : x.Alike r x') (hc : c.Alike shown shown' c') :
    GiveAlike r (Alike r) (x.read c).1 (x'.read c').1 ∧
      (x.read c).2.Alike shown shown' (x'.read c').2 := by
  obtain ⟨hanswer, hconsole⟩ := hc.readLine
  rw [Execution.read, Execution.read]
  generalize c.readLine = a, c'.readLine = b at hanswer hconsole
  obtain ⟨answer, c₁⟩ := a
  obtain ⟨answer', c₁'⟩ := b
  obtain rfl : answer' = answer := hanswer
  rcases answer' with reason | _ | line
  · exact ⟨.same fun _ h => (by cases h), hconsole⟩
  · exact ⟨hx.push Value.alike_null, hconsole⟩
  · exact ⟨hx.push (.same rfl), hconsole⟩

end Execution

end

/-! ## What executions share -/

section

variable (r : ObjectId → ObjectId → Prop)

/-- The routines, the settings and the halt are the same, and the heaps and the consoles look
alike. -/
structure Shared.Alike (shown shown' : String) (s s' : Shared) : Prop where
  /-- The routines are the same. -/
  routines : ∀ name, s'.find? name = s.find? name
  /-- No routine carries a reference. -/
  refFree : ∀ name routine, s.find? name = some routine → routine.RefFree
  /-- The settings are the same. -/
  config : s'.config = s.config
  /-- The machine has been halted or not. -/
  isHalted : s'.isHalted = s.isHalted
  /-- The heaps look alike. -/
  heap : s.heap.Alike r s'.heap
  /-- The consoles look alike. -/
  console : s.console.Alike shown shown' s'.console

/-- Both instructions make the same of executions that look alike. -/
inductive Effect.Alike : Effect → Effect → Prop
  | next {x x' : Execution} (h : x.Alike r x') : Alike (.next x) (.next x')
  | fault {e e' : Fault} (h : e.Alike r e') : Alike (.fault e) (.fault e')
  | crash : Alike .crash .crash

/-- Both failures look alike and arise at the same place. -/
structure Failure.Alike (e e' : Failure) : Prop where
  /-- The faults look alike. -/
  fault : e.fault.Alike r e'.fault
  /-- The place is the same. -/
  site : e'.site = e.site
  /-- The thread is the same. -/
  thread : e'.thread = e.thread

/-- Both steps make the same of executions that look alike. -/
inductive Turn.Alike : Turn → Turn → Prop
  | continues {x x' : Execution} (h : x.Alike r x') : Alike (.continues x) (.continues x')
  | returns {v v' : Value} (h : v.Alike r v') : Alike (.returns v) (.returns v')
  | fails {e e' : Failure} (h : e.Alike r e') : Alike (.fails e) (.fails e')
  | crashes : Alike .crashes .crashes

/-- The correspondence once each of two heaps has become another one: it is as before if no object
has been allocated, and otherwise the new objects correspond. -/
inductive Grown (h h' h₁ h₁' : Heap) : (ObjectId → ObjectId → Prop) → Prop
  | same (hnext : h₁.nextObject = h.nextObject) (hnext' : h₁'.nextObject = h'.nextObject) :
    Grown h h' h₁ h₁' r
  | along (hnext : h₁.nextObject = h.nextObject + 1) (hnext' : h₁'.nextObject = h'.nextObject + 1) :
    Grown h h' h₁ h₁' (Along r h.nextObject h'.nextObject)

end

section

variable {r r' : ObjectId → ObjectId → Prop} {shown shown' : String} {s s' : Shared}
  {x x' : Execution} {i : Instr}

theorem Effect.alike_ofExcept {a a' : Except Fault Execution}
    (h : GiveAlike r (Execution.Alike r) a a') :
    (Effect.ofExcept a).Alike r (Effect.ofExcept a') := by
  rcases h.cases with ⟨e, e', rfl, rfl, he⟩ | ⟨x, x', rfl, rfl, hx⟩
  · exact .fault he
  · exact .next hx

/-- Both instructions make the same of shared states and executions that look alike. -/
def PerformAlike (r : ObjectId → ObjectId → Prop) (shown shown' : String) (s s' : Shared)
    (p p' : Shared × Effect) : Prop :=
  ∃ r', Grown r s.heap s'.heap p.1.heap p'.1.heap r' ∧ p.1.Alike r' shown shown' p'.1 ∧
    p.2.Alike r' p'.2

namespace Shared.Alike

variable (hs : s.Alike r shown shown' s')
include hs

/-- An instruction that works on the stacks alone. -/
theorem ofExcept {a a' : Except Fault Execution} (h : GiveAlike r (Execution.Alike r) a a') :
    PerformAlike r shown shown' s s' (s, .ofExcept a) (s', .ofExcept a') :=
  ⟨r, .same rfl rfl, hs, Effect.alike_ofExcept h⟩

/-- An instruction that works on the console. -/
theorem onConsole {f f' : Console → Except Fault Execution × Console}
    (h : GiveAlike r (Execution.Alike r) (f s.console).1 (f' s'.console).1 ∧
      (f s.console).2.Alike shown shown' (f' s'.console).2) :
    PerformAlike r shown shown' s s' (onConsole s f) (onConsole s' f') :=
  ⟨r, .same rfl rfl, ⟨hs.routines, hs.refFree, hs.config, hs.isHalted, hs.heap, h.2⟩,
    Effect.alike_ofExcept h.1⟩

/-- An instruction that works on objects that there are. -/
theorem onHeap {f f' : Heap → Except Fault Execution × Heap}
    (hnext : (f s.heap).2.nextObject = s.heap.nextObject)
    (hnext' : (f' s'.heap).2.nextObject = s'.heap.nextObject)
    (h : GiveAlike r (Execution.Alike r) (f s.heap).1 (f' s'.heap).1 ∧
      (f s.heap).2.Alike r (f' s'.heap).2) :
    PerformAlike r shown shown' s s' (onHeap s f) (onHeap s' f') :=
  ⟨r, .same hnext hnext', ⟨hs.routines, hs.refFree, hs.config, hs.isHalted, h.2, hs.console⟩,
    Effect.alike_ofExcept h.1⟩

/-- An instruction that allocates an object. -/
theorem allocate {object object' : Obj} {y y' : Execution}
    (hobject : object.Alike r object') (hy : y.Alike r y') :
    PerformAlike r shown shown' s s'
      ({ s with heap := s.heap.push object }, .next (y.push (.ref s.heap.nextObject)))
      ({ s' with heap := s'.heap.push object' }, .next (y'.push (.ref s'.heap.nextObject))) := by
  refine ⟨_, .along (Heap.nextObject_push _ _) (Heap.nextObject_push _ _),
    ⟨hs.routines, hs.refFree, hs.config, hs.isHalted, hs.heap.push hobject, hs.console⟩, .next ?_⟩
  exact (hy.mono fun _ _ ho => .inl ho).push (.ref (.inr ⟨rfl, rfl⟩))

end Shared.Alike

/-- A literal that is no reference means the same everywhere. -/
theorem Instr.literalArg_alike (hi : i.isRefFree = true) :
    GiveAlike r (Value.Alike r) i.literalArg i.literalArg := by
  have hnames := i.literalArg_names .push
  obtain ⟨op, arg, comment⟩ := i
  rcases arg with _ | ⟨v | _ | _ | _ | _⟩
  case some.literal =>
    cases v with
    | ref => cases hi
    | _ => exact .same rfl
  all_goals exact (hnames.of_error rfl).alike

/-- **An instruction makes the same of executions that look alike.** -/
theorem perform_alike (hs : s.Alike r shown shown' s') (hx : x.Alike r x')
    (hi : i.isRefFree = true) (hop : i.op ≠ .thread ∧ i.op ≠ .wait)
    (hwrite : i.op = .write → ∀ v ∈ x.operands.head?, v.asRef? = none) :
    PerformAlike r shown shown' s s' (perform s x i) (perform s' x' i) := by
  rw [perform, perform]
  split
  case h_1 => exact hs.ofExcept ((i.literalArg_alike hi).map fun _ _ hv => hx.push hv)
  case h_2 => exact hs.ofExcept (hx.pop.map fun _ _ hp => hp.2)
  case h_3 =>
    refine hs.ofExcept ((GiveAlike.refl (i.slotArg_names .load)).bind ?_)
    rintro slot _ rfl
    exact hx.load slot
  case h_4 =>
    rw [hx.overflows, hs.config]
    split
    · exact ⟨r, .same rfl rfl, hs, .crash⟩
    · refine hs.ofExcept ((GiveAlike.refl (i.slotArg_names .store)).bind ?_)
      rintro slot _ rfl
      exact hx.store slot _
  case h_5 op _ => exact hs.ofExcept (hx.binary hs.heap.unique op)
  case h_6 op _ => exact hs.ofExcept (hx.unary op)
  case h_7 =>
    refine hs.ofExcept ((GiveAlike.refl (i.targetArg_names .jmp)).bind ?_)
    rintro target _ rfl
    exact hx.jump target
  case h_8 =>
    refine hs.ofExcept ((GiveAlike.refl (i.targetArg_names .jmpf)).bind ?_)
    rintro target _ rfl
    exact hx.jumpUnless target
  case h_9 =>
    refine hs.ofExcept ((GiveAlike.refl (i.nameArg_names .call)).bind ?_)
    rintro name _ rfl
    rw [hs.routines, hs.config]
    cases hfind : s.find? name with
    | none => exact .same fun _ h => by cases h
    | some routine => exact hx.enter (hs.refFree name routine hfind) _
  case h_10 => exact ⟨r, .same rfl rfl, hs, .next hx.leave⟩
  case h_11 hop => exact hs.onConsole (hx.write hs.console (hwrite hop))
  case h_12 => exact hs.onConsole (hx.read hs.console)
  case h_13 => exact hs.ofExcept (hx.pushLength hs.heap)
  case h_14 => exact hs.allocate (.record .nil) hx
  case h_15 hop =>
    exact hs.onHeap (x.changesOnly_setField _ hop).next (x'.changesOnly_setField _ hop).next
      (hx.setField hs.heap i)
  case h_16 => exact hs.ofExcept (hx.getField hs.heap i)
  case h_17 =>
    rcases hx.newArray hs.heap with ⟨e, e', he, hnew, hnew'⟩ |
      ⟨y, y', object, hy, hobject, hnew, hnew'⟩
    · simp only [onHeap, hnew, hnew']
      exact ⟨r, .same rfl rfl, hs, .fault he⟩
    · simp only [onHeap, hnew, hnew']
      exact hs.allocate hobject hy
  case h_18 hop =>
    exact hs.onHeap (x.changesOnly_setIndex _ hop).next (x'.changesOnly_setIndex _ hop).next
      (hx.setIndex hs.heap)
  case h_19 => exact hs.ofExcept (hx.getIndex hs.heap)
  case h_20 h => exact absurd h hop.1
  case h_21 h => exact absurd h hop.2
  case h_22 => exact hs.ofExcept hx.dup
  case h_23 => exact ⟨r, .same rfl rfl, hs, .next hx⟩

/-! ## One step -/

theorem Execution.Alike.instr?_eq (hx : x.Alike r x') : x'.instr? = x.instr? := by
  obtain ⟨thread, call, operands, frames⟩ := x
  obtain ⟨thread', call', operands', frames'⟩ := x'
  obtain ⟨rfl, hoperands, hframes⟩ := hx
  cases hframes with
  | nil => rfl
  | @cons f f' _ _ hf _ =>
    change f'.routine.get? f'.pc = f.routine.get? f.pc
    rw [hf.routine, hf.pc]

theorem Execution.Alike.siteOf_eq (hx : x.Alike r x') (i : Instr) : x'.siteOf i = x.siteOf i := by
  obtain ⟨thread, call, operands, frames⟩ := x
  obtain ⟨thread', call', operands', frames'⟩ := x'
  obtain ⟨rfl, hoperands, hframes⟩ := hx
  cases hframes with
  | nil => rfl
  | cons hf _ => simp only [siteOf, hf.routine, hf.pc]

theorem Execution.Alike.refFree (hx : x.Alike r x') (hi : x.instr? = some i) :
    i.isRefFree = true := by
  obtain ⟨thread, call, operands, frames⟩ := x
  obtain ⟨thread', call', operands', frames'⟩ := x'
  obtain ⟨rfl, hoperands, hframes⟩ := hx
  cases hframes with
  | nil => cases hi
  | @cons f _ _ _ hf _ => exact hf.refFree f.pc i hi

theorem Effect.Alike.toTurn {effect effect' : Effect} (h : effect.Alike r effect') (site : Site)
    (thread : Option ThreadId) :
    (effect.toTurn site thread).Alike r (effect'.toTurn site thread) := by
  cases h with
  | next hx => exact .continues hx
  | fault he => exact .fails ⟨he, rfl, rfl⟩
  | crash => exact .crashes

/-- Both steps make the same of shared states and executions that look alike. -/
def StepAlike (r : ObjectId → ObjectId → Prop) (shown shown' : String) (s s' : Shared)
    (p p' : Shared × Turn) : Prop :=
  ∃ r', Grown r s.heap s'.heap p.1.heap p'.1.heap r' ∧ p.1.Alike r' shown shown' p'.1 ∧
    p.2.Alike r' p'.2

/-- The execution is at an instruction that treats references as opaque: it is not one about
threads, and does not write a reference. -/
def Execution.Opaque (x : Execution) : Prop :=
  ∀ i, x.instr? = some i → (i.op ≠ .thread ∧ i.op ≠ .wait) ∧
    (i.op = .write → ∀ v ∈ x.operands.head?, v.asRef? = none)

/-- **A step makes the same of executions that look alike.** -/
theorem step_alike (hs : s.Alike r shown shown' s') (hx : x.Alike r x') (hunseen : x.Opaque) :
    StepAlike r shown shown' s s' (step s x) (step s' x') := by
  have hinstr := hx.instr?_eq
  cases hi : x.instr? with
  | none =>
    rw [step_of_instr?_eq_none hi, step_of_instr?_eq_none (hinstr.trans hi)]
    refine ⟨r, .same rfl rfl, hs, .returns ?_⟩
    have hoperands := hx.operands
    generalize x.operands = operands, x'.operands = operands' at hoperands
    cases hoperands with
    | nil => exact Value.alike_null
    | cons hv _ => exact hv
  | some i =>
    obtain ⟨hop, hwrite⟩ := hunseen i hi
    cases hhalted : s.isHalted with
    | true =>
      rw [step_of_isHalted hi hhalted,
        step_of_isHalted (hinstr.trans hi) (hs.isHalted.trans hhalted), hx.siteOf_eq, hx.thread]
      exact ⟨r, .same rfl rfl, hs, .fails ⟨.same fun _ h => (by cases h), rfl, rfl⟩⟩
    | false =>
      rw [step_of_instr? hi hhalted,
        step_of_instr? (hinstr.trans hi) (hs.isHalted.trans hhalted), hx.siteOf_eq, hx.thread]
      have hoperands : x.passed.operands = x.operands := x.operands_passed
      obtain ⟨r', hgrown, hs', heffect⟩ := perform_alike hs hx.passed (hx.refFree hi) hop
        (hoperands ▸ hwrite)
      exact ⟨r', hgrown, hs', heffect.toTurn _ _⟩

/-- A step changes no object but the target of its instruction. -/
theorem find?_step (s : Shared) (x : Execution) {o : ObjectId} (hnext : o ≠ s.heap.nextObject)
    (htarget : ∀ i, x.instr? = some i → x.target? i ≠ some o) :
    (step s x).1.heap.find? o = s.heap.find? o := by
  rcases step_cases s x with ⟨-, hstep⟩ | ⟨i, -, -, hstep⟩ | ⟨i, hi, -, hstep⟩ <;> rw [hstep]
  have hpassed : x.passed.target? i = x.target? i := by
    rw [Execution.target?, x.operands_passed, Execution.target?]
  exact find?_perform s x.passed i hnext (hpassed ▸ htarget i hi)

/-- A turn changes no object but the target of the next instruction of its execution. -/
theorem Task.find?_turn (s : Shared) (t : Task) {o : ObjectId} (hnext : o ≠ s.heap.nextObject)
    (htarget : ∀ x i, t = .running x → x.instr? = some i → x.target? i ≠ some o) :
    (t.turn s).1.heap.find? o = s.heap.find? o := by
  cases t with
  | running x =>
    rw [heap_turn_running]
    exact find?_step s x hnext fun i => htarget x i rfl
  | waiting | closing | answered => rfl
  | failing thread call e => rw [turn, heap_record]
  | joining call result =>
    rw [turn]
    split
    · rw [heap_join]
    · rfl

/-- The targets of instructions of executions that look alike correspond. -/
theorem Execution.Alike.target? (hx : x.Alike r x') (i : Instr) :
    Option.Rel r (x.target? i) (x'.target? i) := by
  have hoperands := hx.operands
  have hobject : ∀ {v v' : Value}, v.Alike r v' → Option.Rel r v.asRef? v'.asRef? := by
    intro v v' hv
    cases hv with
    | same hv =>
      rw [hv]
      exact .none
    | ref ho => exact .some ho
  rw [Execution.target?, Execution.target?]
  generalize x.operands = operands, x'.operands = operands' at hoperands
  rcases hoperands with _ | ⟨_, _ | ⟨hv, _ | ⟨hw, _⟩⟩⟩
  · cases i.op <;> exact .none
  · cases i.op <;> exact .none
  · cases i.op <;> first | exact .none | exact hobject hv
  · cases i.op <;> first | exact .none | exact hobject hv | exact hobject hw

/-- What one of them sets a field or cell of corresponds to what the other one does. -/
theorem Execution.Alike.exists_target (hx : x.Alike r x') (i : Instr) :
    (∀ o, x.target? i = some o → ∃ o', x'.target? i = some o' ∧ r o o') ∧
      ∀ o', x'.target? i = some o' → ∃ o, x.target? i = some o ∧ r o o' := by
  have hrel := hx.target? i
  generalize x.target? i = target, x'.target? i = target' at hrel
  cases hrel with
  | none =>
    constructor
    · intro o h
      cases h
    · intro o' h
      cases h
  | some hcorresponds =>
    constructor
    · intro o ho
      cases ho
      exact ⟨_, rfl, hcorresponds⟩
    · intro o' ho'
      cases ho'
      exact ⟨_, rfl, hcorresponds⟩

end

end Opstack
