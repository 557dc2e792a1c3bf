import Opstack.Proofs.Heap.Lengths
import Opstack.Proofs.Machine.Limits

/-!
# What the limits bound

Each limit of the settings is looked at where something is about to grow, so nothing that it is
about is ever larger: the call stack and the slots of an activation (`Execution.Bounded`) and the
cells of an array (`Heap.Bounded`).  A call stack begins with one activation whatever the limit, so
it has one even if the limit is zero.

`perform_bounded` is one instruction and `step_bounded` one step; nothing is asked of the
routines, whose instructions may be of any form.  `Machine.bounded_of_live` is every session, and
adds where arrays come from: each was made by an `ALLOCA`, or by a request from outside, with the
number of cells that it has ever since.
-/

set_option autoImplicit false

namespace Opstack

/-! ## Executions -/

/-- The call stack and the slots of its activations are as the settings allow. -/
structure Execution.Bounded (c : Config) (x : Execution) : Prop where
  /-- The first activation is always there. -/
  depth : x.frames.length ≤ max 1 c.maxCallDepth
  /-- Each activation has only so many slots. -/
  slots : ∀ f ∈ x.frames, f.slots.size ≤ c.maxFrameSlots

/-- What an instruction makes of executions is bounded. -/
def Effect.Bounded (c : Config) : Effect → Prop
  | .next x | .wait x _ => x.Bounded c
  | .spawn x child => x.Bounded c ∧ child.Bounded c
  | .fault _ | .crash => True

/-- What a step makes of executions is bounded. -/
def Turn.Bounded (c : Config) : Turn → Prop
  | .continues x | .waits x _ _ => x.Bounded c
  | .spawns x child => x.Bounded c ∧ child.Bounded c
  | .returns _ | .fails _ | .crashes => True

section

variable {c : Config} {s : Shared} {x y : Execution} {i : Instr} {routines : List Routine}

namespace Execution

theorem bounded_begin (c : Config) (thread : Option ThreadId) (call : Nat)
    (operands : List Value) (routine : Routine) :
    Bounded c ⟨thread, call, operands, [{ routine }]⟩ where
  depth := Nat.le_max_left 1 _
  slots := List.forall_mem_singleton.mpr (Nat.zero_le _)

/-- The operands have no say. -/
theorem Bounded.congr (hx : x.Bounded c) (hframes : y.frames = x.frames) : y.Bounded c :=
  ⟨hframes ▸ hx.depth, hframes ▸ hx.slots⟩

theorem Bounded.tail (hx : x.Bounded c) (hframes : y.frames = x.frames.tail) : y.Bounded c where
  depth := by
    rw [hframes, List.length_tail]
    exact Nat.le_trans (Nat.sub_le _ _) hx.depth
  slots f hf := hx.slots f (List.mem_of_mem_tail (hframes ▸ hf))

/-- Another innermost activation with few enough slots. -/
theorem Bounded.replace {f g : Frame} {fs : List Frame} (hx : x.Bounded c)
    (hframes : x.frames = f :: fs) (hy : y.frames = g :: fs)
    (hg : g.slots.size ≤ c.maxFrameSlots) : y.Bounded c where
  depth := by
    rw [hy, List.length_cons, ← List.length_cons (a := f), ← hframes]
    exact hx.depth
  slots := by
    have hslots := hx.slots
    rw [hframes, List.forall_mem_cons] at hslots
    rw [hy, List.forall_mem_cons]
    exact ⟨hg, hslots.2⟩

theorem Bounded.passed (hx : x.Bounded c) : x.passed.Bounded c := by
  obtain ⟨thread, call, operands, _ | ⟨f, fs⟩⟩ := x
  · exact hx
  · exact hx.replace rfl rfl (hx.slots f List.mem_cons_self)

/-- A `STORE` to a slot below the limit leaves no more slots than the limit. -/
theorem storeUnder_bounded (hx : x.Bounded c) (i : Instr) (capacity : Nat) :
    (x.storeUnder i c.maxFrameSlots capacity).Bounded c := by
  rw [storeUnder]
  split
  · trivial
  · cases i.slotArg with
    | error e => trivial
    | ok slot =>
      obtain ⟨thread, call, _ | ⟨v, rest⟩, _ | ⟨f, fs⟩⟩ := x
      case cons.cons =>
        have hf := hx.slots f List.mem_cons_self
        simp only [Except.bind, store, Frame.store, bind]
        by_cases hslot : slot < c.maxFrameSlots
        · rw [if_pos hslot]
          refine hx.replace rfl rfl ?_
          rw [size_storeSlot]
          exact Nat.max_le.mpr ⟨hf, hslot⟩
        · rw [if_neg hslot]
          trivial
      all_goals trivial

/-- A `CALL` is refused as soon as there are as many activations as the limit allows. -/
theorem callUnder_bounded (hx : x.Bounded c) (routines : List Routine) (i : Instr) :
    (x.callUnder routines i c.maxCallDepth).Bounded c := by
  rw [callUnder]
  cases i.nameArg with
  | error e => trivial
  | ok name =>
    simp only [bind, Except.bind]
    cases routineOf? routines name with
    | none => trivial
    | some routine =>
      dsimp only [enter]
      by_cases hfull : c.maxCallDepth ≤ x.frames.length
      · rw [if_pos hfull]
        trivial
      · rw [if_neg hfull]
        exact
          { depth := Nat.le_trans (Nat.lt_of_not_le hfull) (Nat.le_max_right _ _)
            slots := List.forall_mem_cons.mpr ⟨Nat.zero_le _, hx.slots⟩ }

end Execution

/-- All other instructions let nothing grow. -/
theorem Instr.Does.bounded (hdoes : i.Does routines x y) (hx : x.Bounded c)
    (hstore : i.op ≠ .store) (hcall : i.op ≠ .call) : y.Bounded c := by
  cases hdoes with
  | work | load | stay => exact hx.congr rfl
  | store hop => exact absurd hop hstore
  | @jump _ _ _ _ f | @branch _ _ _ _ f =>
    have hf : f.slots.size ≤ c.maxFrameSlots := hx.slots f List.mem_cons_self
    exact hx.replace rfl rfl hf
  | enter hop => exact absurd hop hcall
  | leave => exact hx.tail rfl

theorem Effect.Follows.bounded {effect : Effect} {f : Frame} {capacity : Nat}
    (hfollows : effect.Follows routines capacity i x f) (hx : x.Bounded c) (hstore : i.op ≠ .store)
    (hcall : i.op ≠ .call) : effect.Bounded c := by
  cases effect with
  | next y => exact Instr.Does.bounded hfollows hx hstore hcall
  | spawn y child =>
    obtain ⟨hdoes, thread, arg, routine, -, rfl⟩ := hfollows
    exact ⟨hdoes.bounded hx hstore hcall, Execution.bounded_begin c _ _ _ routine⟩
  | wait y _ =>
    have hdoes : i.Does routines x (y.push .null) := hfollows .null
    exact (hdoes.bounded hx hstore hcall).congr rfl
  | fault | crash => trivial

/-- **An instruction keeps the stacks bounded**, whatever its form. -/
theorem perform_bounded {f : Frame} {fs : List Frame} (hframes : x.frames = f :: fs)
    (hx : x.Bounded s.config) (i : Instr) : (perform s x i).2.Bounded s.config := by
  by_cases hstore : i.op = .store
  · rw [perform_store hstore]
    exact Execution.storeUnder_bounded hx i _
  by_cases hcall : i.op = .call
  · rw [perform_call hcall]
    exact Execution.callUnder_bounded hx s.routines i
  exact (perform_follows s i hframes).bounded hx hstore hcall

theorem Effect.bounded_toTurn {effect : Effect} (site : Site) (thread : Option ThreadId)
    (heffect : effect.Bounded c) : (effect.toTurn site thread).Bounded c := by
  cases effect <;> exact heffect

/-- **A step keeps the stacks bounded.** -/
theorem Execution.step_bounded (hx : x.Bounded s.config) : (step s x).2.Bounded s.config := by
  rcases step_cases s x with ⟨-, hstep⟩ | ⟨i, -, -, hstep⟩ | ⟨i, hi, -, hstep⟩ <;> rw [hstep]
  · trivial
  · trivial
  · obtain ⟨f, fs, hframes, -⟩ := instr?_eq_some hi
    exact Effect.bounded_toTurn _ _ (perform_bounded (frames_passed hframes) hx.passed i)

end

/-! ## Tasks -/

namespace Task

/-- The execution of the task is bounded. -/
def Bounded (c : Config) : Task → Prop
  | .running x | .waiting x _ _ => x.Bounded c
  | _ => True

theorem resume_bounded {c : Config} {x : Execution} (hx : x.Bounded c) (thread : ThreadId)
    (site : Site) (outcome : Outcome) : (resume x thread site outcome).Bounded c := by
  rcases outcome with _ | ⟨_ | v⟩ | _
  · exact hx
  · trivial
  · exact hx.congr rfl
  · trivial

/-- **A turn keeps the stacks bounded.** -/
theorem Becomes.bounded {s : Shared} {t u : Task} (hbecomes : t.Becomes s u)
    (ht : t.Bounded s.config) : u.Bounded s.config := by
  have hstep : ∀ {x s' turn}, t = .running x → step s x = (s', turn) → turn.Bounded s.config := by
    rintro x s' turn rfl h
    have hx := Execution.step_bounded (s := s) ht
    rwa [h] at hx
  cases hbecomes with
  | continues h => exact hstep rfl h
  | spawns h => exact (hstep rfl h).1
  | child h => exact (hstep rfl h).2
  | waits h => exact hstep rfl h
  | resumes => exact resume_bounded ht _ _ _
  | returns | fails | admits | joins | closes => trivial
  | rests => exact ht

end Task

/-! ## Arrays -/

section

variable {s : Shared} {x : Execution} {i : Instr} {o : ObjectId} {n : Nat}

/-- The execution is at an `ALLOCA` with this length on top. -/
def Execution.Allocates (x : Execution) (n : Nat) : Prop :=
  ∃ i length rest, x.instr? = some i ∧ i.op = .alloca ∧ x.operands = .int length :: rest ∧
    length.toInt = n

theorem Value.eq_int_of_asNumber {v : Value} {op : Opcode} {k : Int64}
    (h : v.asNumber op = .ok k) : v = .int k := by
  cases v <;> cases h
  rfl

theorem Execution.length_cases_newArray {h : Heap} (hn : (x.newArray h).2.arrayLength o = .ok n) :
    h.arrayLength o = .ok n ∨ o = h.nextObject ∧
      ∃ length rest, x.operands = .int length :: rest ∧ length.toInt = n := by
  obtain ⟨thread, call, operands, frames⟩ := x
  cases operands with
  | nil => exact .inl hn
  | cons v rest =>
    simp only [newArray, pop, bind, Except.bind, pure, Except.pure] at hn
    cases hlength : v.asNumber .alloca with
    | error e =>
      rw [hlength] at hn
      exact .inl hn
    | ok length =>
      rw [hlength] at hn
      dsimp only at hn
      have hcases :=
        (h.serves_allocArray length (h.hasRoom length)).length_cases (o := o) (n := n)
      obtain rfl := Value.eq_int_of_asNumber hlength
      have hserve : (h.serve (.allocArray length (h.hasRoom length))).2 =
          (h.allocArray length).2 := rfl
      rw [hserve] at hcases
      generalize h.allocArray length = r at hn hcases
      obtain ⟨answer, h'⟩ := r
      have hn' : h'.arrayLength o = .ok n := by cases answer <;> exact hn
      rcases hcases hn' with hold | ⟨ho, length', heq, hlength, -⟩
      · exact .inl hold
      · obtain ⟨rfl, -⟩ := Heap.Request.allocArray.inj heq
        exact .inr ⟨ho, length, rest, rfl, hlength⟩

/-- An array that is there after an instruction was there before, unless the instruction is an
`ALLOCA`. -/
theorem length_cases_perform (hn : (perform s x i).1.heap.arrayLength o = .ok n) :
    s.heap.arrayLength o = .ok n ∨ o = s.heap.nextObject ∧ i.op = .alloca ∧
      ∃ length rest, x.operands = .int length :: rest ∧ length.toInt = n := by
  have hserve : ∀ {r : Heap.Request}, (∀ length, r ≠ .allocArray length true) →
      (s.heap.serve r).2.arrayLength o = .ok n → s.heap.arrayLength o = .ok n := by
    intro r hr hn
    rcases (s.heap.serves r).length_cases hn with hold | ⟨-, length, hlength, -⟩
    · exact hold
    · exact absurd hlength (hr length)
  rw [perform] at hn
  split at hn
  case h_4 => split at hn <;> exact .inl hn
  case h_14 => exact .inl (hserve (r := .allocRecord) (fun _ h => by cases h) hn)
  case h_15 =>
    change (x.setField s.heap i).2.arrayLength o = .ok n at hn
    rcases x.setField_cases s.heap i with ⟨e, -, heq⟩ | ⟨v, o', field, rest, -, heq⟩ <;>
      rw [heq] at hn
    · exact .inl hn
    · exact .inl (hserve (r := .setField o' field v) (fun _ h => by cases h) hn)
  case h_17 hop =>
    exact (Execution.length_cases_newArray (x := x) hn).imp_right fun h => ⟨h.1, hop, h.2⟩
  case h_18 =>
    change (x.setIndex s.heap).2.arrayLength o = .ok n at hn
    rcases x.setIndex_cases s.heap with ⟨e, -, heq⟩ | ⟨v, k, o', index, rest, -, heq⟩ <;>
      rw [heq] at hn
    · exact .inl hn
    · exact .inl (hserve (r := .setIndex o' index v) (fun _ h => by cases h) hn)
  case h_20 =>
    rw [heap_spawnThread] at hn
    exact .inl hn
  case h_21 =>
    rw [heap_claimThread] at hn
    exact .inl hn
  all_goals exact .inl hn

theorem length_cases_step (hn : (step s x).1.heap.arrayLength o = .ok n) :
    s.heap.arrayLength o = .ok n ∨ o = s.heap.nextObject ∧ x.Allocates n := by
  rcases step_cases s x with ⟨-, hstep⟩ | ⟨i, -, -, hstep⟩ | ⟨i, hi, -, hstep⟩ <;> rw [hstep] at hn
  · exact .inl hn
  · exact .inl hn
  · rcases length_cases_perform hn with hold | ⟨ho, hop, length, rest, hoperands, hlength⟩
    · exact .inl hold
    · rw [x.operands_passed] at hoperands
      exact .inr ⟨ho, i, length, rest, hi, hop, hoperands, hlength⟩

end

namespace Task

/-- An array that is there after a turn was there before, or an execution has allocated it. -/
theorem length_cases_turn {s : Shared} {t : Task} {o : ObjectId} {n : Nat}
    (hn : (t.turn s).1.heap.arrayLength o = .ok n) :
    s.heap.arrayLength o = .ok n ∨
      o = s.heap.nextObject ∧ ∃ x, t = .running x ∧ x.Allocates n := by
  cases t with
  | running x =>
    rw [heap_turn_running] at hn
    exact (length_cases_step hn).imp_right fun h => ⟨h.1, x, rfl, h.2⟩
  | waiting | closing | answered => exact .inl hn
  | failing thread call e =>
    rw [turn, heap_record] at hn
    exact .inl hn
  | joining call result =>
    rw [turn] at hn
    split at hn
    · rw [heap_join] at hn
      exact .inl hn
    · exact .inl hn

end Task

/-! ## Sessions -/

namespace Machine

/-- The event makes an array with the number `o` and `n` cells: an execution performs an `ALLOCA`,
or the heap is asked for it from outside. -/
inductive Makes (m : Machine) (o : ObjectId) (n : Nat) : Event → Prop
  | instruction {position : Nat} {x : Execution} (hx : m.tasks[position]? = some (.running x))
    (hallocates : x.Allocates n) (ho : o = m.shared.heap.nextObject) :
    Makes m o n (.move (.advance position))
  | request {length : Int64} (hlength : length.toInt = n) (ho : o = m.shared.heap.nextObject) :
    Makes m o n (.ask (.allocArray length true))

/-- All stacks and all arrays are as the settings allow, which stay the same. -/
structure Bounded (config : Config) (m : Machine) : Prop where
  /-- The settings. -/
  settings : m.shared.config = config
  /-- The limit on arrays is the one of the settings. -/
  limit : m.shared.heap.maxArrayLength = config.maxArrayLength
  /-- The stacks are bounded. -/
  tasks : ∀ t ∈ m.tasks, t.Bounded config
  /-- The arrays are bounded. -/
  heap : m.shared.heap.Bounded

variable {m : Machine} {config : Config} {o : ObjectId} {n : Nat}

theorem bounded_create (config : Config) (console : Console) :
    (create config console).Bounded config where
  settings := rfl
  limit := rfl
  tasks := List.forall_mem_nil _
  heap o n hn := by
    obtain ⟨cells, hfind, -⟩ := Heap.arrayLength_eq_ok.mp hn
    simp [create, Heap.find?] at hfind

theorem config_advance (m : Machine) (position : Nat) :
    (m.advance position).shared.config = m.shared.config := by
  cases ht : m.tasks[position]? with
  | none => rw [advance_eq_self ht]
  | some t =>
    obtain ⟨before, after, -, hadvance⟩ := advance_eq ht
    rw [hadvance]
    exact t.config_turn m.shared

/-- A turn of any task leaves all stacks bounded. -/
theorem tasks_bounded_advance (hm : ∀ t ∈ m.tasks, t.Bounded m.shared.config) (position : Nat) :
    ∀ t ∈ (m.advance position).tasks, t.Bounded m.shared.config := by
  cases ht : m.tasks[position]? with
  | none =>
    rw [advance_eq_self ht]
    exact hm
  | some t =>
    obtain ⟨before, after, htasks, hadvance⟩ := advance_eq ht
    rw [hadvance]
    intro u hu
    rcases Task.mem_cases hu with hu | hu
    · exact hm u (htasks ▸ Task.mem_of_mem hu)
    · exact (Task.becomes_of_mem hu).bounded (hm t (List.mem_of_getElem? ht))

theorem bounded_entry (m : Machine) (name : String) (args : List Value) :
    ∀ t ∈ entry m.shared m.calls name args, t.Bounded config :=
  forall_mem_entry (fun _ _ => Execution.bounded_begin _ _ _ _ _) trivial

theorem Bounded.advance (hm : m.Bounded config) (position : Nat) :
    (m.advance position).Bounded config := by
  obtain ⟨requests, hheap⟩ := m.exists_requests_of_advance position
  refine ⟨(m.config_advance position).trans hm.settings, ?_, ?_, ?_⟩
  · rw [hheap, Heap.maxArrayLength_after, hm.limit]
  · have htasks := hm.tasks
    rw [← hm.settings] at htasks ⊢
    exact tasks_bounded_advance htasks position
  · rw [hheap]
    exact hm.heap.after requests

/-- Every execution that a call comes to is bounded. -/
theorem Visits.bounded (hm : m.tasks = []) {name : String} {args : List Value} {x : Execution}
    (hx : (m.begin name args).Visits x) : x.Bounded m.shared.config := by
  obtain ⟨n, hx⟩ := hx
  obtain ⟨order, hrun⟩ := run_eq_follow n (m.begin name args)
  have hfollow : ∀ (order : List Nat) (m : Machine), (∀ t ∈ m.tasks, t.Bounded m.shared.config) →
      ∀ t ∈ (m.follow order).tasks, t.Bounded m.shared.config := by
    intro order
    induction order with
    | nil => exact fun _ hm => hm
    | cons position rest ih =>
      intro m hm
      have hconfig := m.config_advance position
      have hadvance := tasks_bounded_advance hm position
      rw [← hconfig] at hadvance ⊢
      exact ih (m.advance position) hadvance
  rw [hrun] at hx
  refine hfollow order (m.begin name args) ?_ _ hx
  rw [begin, hm, List.append_nil]
  exact m.bounded_entry name args

/-- **One event** leaves the stacks and the arrays bounded. -/
theorem react_bounded (hm : m.Bounded config) (event : Event) :
    (m.react event).Bounded config := by
  cases event with
  | add routine => exact ⟨hm.settings, hm.limit, hm.tasks, hm.heap⟩
  | ask request =>
    have hserves := m.shared.heap.serves request
    exact ⟨hm.settings, hserves.maxArrayLength_eq.trans hm.limit, hm.tasks, hm.heap.serve hserves⟩
  | move move =>
    cases move with
    | begin name args =>
      exact ⟨hm.settings, hm.limit,
        List.forall_mem_append.mpr ⟨m.bounded_entry name args, hm.tasks⟩, hm.heap⟩
    | advance position => exact hm.advance position
    | forget call =>
      exact ⟨hm.settings, hm.limit, fun t ht => hm.tasks t (List.mem_filter.mp ht).1, hm.heap⟩

theorem bounded_live (hm : m.Bounded config) (events : List Event) :
    (m.live events).Bounded config :=
  have hevents : m.Observes (fun _ _ => True) events := fun _ _ _ _ => trivial
  live_induction (P := fun _ later => later.Bounded config) hevents hm
    fun _ event _ hpast => react_bounded hpast event

/-- An array that is there after an event was there before, or the event has made it. -/
theorem length_cases_react {event : Event}
    (hn : (m.react event).shared.heap.arrayLength o = .ok n) :
    m.shared.heap.arrayLength o = .ok n ∨ m.Makes o n event := by
  cases event with
  | add routine => exact .inl hn
  | ask request =>
    rcases (m.shared.heap.serves request).length_cases hn with hold | ⟨ho, length, rfl, hlength, -⟩
    · exact .inl hold
    · exact .inr (.request hlength ho)
  | move move =>
    cases move with
    | begin | forget => exact .inl hn
    | advance position =>
      change (m.advance position).shared.heap.arrayLength o = .ok n at hn
      cases ht : m.tasks[position]? with
      | none =>
        rw [advance_eq_self ht] at hn
        exact .inl hn
      | some t =>
        obtain ⟨before, after, -, hadvance⟩ := advance_eq ht
        rw [hadvance] at hn
        rcases Task.length_cases_turn hn with hold | ⟨ho, x, rfl, hx⟩
        · exact .inl hold
        · exact .inr (.instruction ht hx ho)

theorem arrayLength_live (hn : m.shared.heap.arrayLength o = .ok n) (events : List Event) :
    (m.live events).shared.heap.arrayLength o = .ok n := by
  obtain ⟨requests, hheap⟩ := m.exists_requests_of_live events
  rw [hheap]
  exact Heap.arrayLength_after hn requests

/-- An array has been made by some event, and has had its length ever since. -/
theorem exists_makes (hm : ∀ o n, m.shared.heap.arrayLength o ≠ .ok n) (events : List Event)
    (hn : (m.live events).shared.heap.arrayLength o = .ok n) :
    ∃ earlier event later, events = earlier ++ event :: later ∧ (m.live earlier).Makes o n event ∧
      ∀ more, (m.live (earlier ++ event :: more)).shared.heap.arrayLength o = .ok n := by
  have hevents : m.Observes (fun _ _ => True) events := fun _ _ _ _ => trivial
  revert hn
  refine live_induction (P := fun past later => later.shared.heap.arrayLength o = .ok n →
    ∃ earlier event later, past = earlier ++ event :: later ∧ (m.live earlier).Makes o n event ∧
      ∀ more, (m.live (earlier ++ event :: more)).shared.heap.arrayLength o = .ok n)
    hevents (fun hn => absurd hn (hm o n)) fun past event _ ih hn => ?_
  rcases length_cases_react hn with hold | hmakes
  · obtain ⟨earlier, made, later, rfl, hmakes, hkept⟩ := ih hold
    exact ⟨earlier, made, later ++ [event], by simp, hmakes, hkept⟩
  · refine ⟨past, event, [], rfl, hmakes, fun more => ?_⟩
    rw [live_append]
    exact arrayLength_live hn more

/-- **The limits of the settings hold at every moment of every session**, whatever the routines
are like.  No call stack has more activations than the limit allows, or one if it allows none, and
no activation has more slots.  No array has more cells; each was made by an `ALLOCA`, or at the
request of the outside, with as many cells as it has had ever since. -/
theorem bounded_of_live (config : Config) (console : Console) (events : List Event) :
    (∀ t ∈ ((create config console).live events).tasks, t.Bounded config) ∧
      ∀ o n, ((create config console).live events).shared.heap.arrayLength o = .ok n →
        n ≤ config.maxArrayLength ∧
          ∃ earlier event later, events = earlier ++ event :: later ∧
            ((create config console).live earlier).Makes o n event ∧
            ∀ more, ((create config console).live
              (earlier ++ event :: more)).shared.heap.arrayLength o = .ok n := by
  have hstart := bounded_create config console
  have hbounded := bounded_live hstart events
  refine ⟨hbounded.tasks, fun o n hn => ⟨hbounded.limit ▸ hbounded.heap o n hn, ?_⟩⟩
  refine exists_makes (fun o n hn => ?_) events hn
  obtain ⟨cells, hfind, -⟩ := Heap.arrayLength_eq_ok.mp hn
  simp [create, Heap.find?] at hfind

end Machine

end Opstack
