import Opstack.Proofs.Machine.HeldValues

/-!
# No reference without an object

Whatever a machine does, every reference that it holds is one to an object of its heap: on an
operand stack, in a slot, in a field or a cell, in the result of a thread and in the answer of a
call.  `Machine.Known` says so, and `Machine.react_known` is one event of a session: an event only
hands values on, and the references that it makes are ones to the objects that it allocates.

`Machine.known_of_live` is the whole session.  What comes from outside must be known, of course: the
arguments of calls, the values that fields and cells are set to from outside, and the literals of
the routines, among which those of compiled functions are never references.  It follows that an
instruction can call an object unknown only because it is of the other kind.
-/

set_option autoImplicit false

namespace Opstack

/-- Only a reference can be unknown. -/
theorem Heap.allButRefs_knows (h : Heap) : AllButRefs h.Knows := fun _ hv => knows_of_asRef? hv

/-- A reference to a new object is known once the object is there. -/
theorem Heap.addsOnly_knows (h h' : Heap) : h.AddsOnly h'.Knows h' :=
  fun _ _ ho => Heap.knows_ref ho

namespace Machine

/-- Every reference that the machine holds is one to an object of its heap. -/
def Known (m : Machine) : Prop := m.HasOnly m.shared.heap.Knows

/-- The event brings no reference into the machine, except to objects of its heap. -/
def Admits (m : Machine) : Event → Prop
  | .add routine => routine.RefFree
  | .ask request => ∀ v, request.value? = some v → m.shared.heap.Knows v
  | .move (.begin _ args) => ∀ v ∈ args, m.shared.heap.Knows v
  | .move _ => True

variable {m : Machine}

theorem Admits.bringsOnly {event : Event} {h : Heap} (hevent : m.Admits event)
    (hgrows : m.shared.heap.Grows h) : BringsOnly h.Knows event := by
  match event with
  | .add _ => exact hevent
  | .ask _ => exact fun v hv => (hevent v hv).mono hgrows
  | .move (.begin _ _) => exact fun v hv => (hevent v hv).mono hgrows
  | .move (.advance _) | .move (.forget _) => trivial

theorem known_create (config : Config) (console : Console) : (create config console).Known :=
  hasOnly_create _ config console

/-- An event gives up no object. -/
theorem grows_react (m : Machine) (event : Event) :
    m.shared.heap.Grows (m.react event).shared.heap := by
  obtain ⟨requests, hrequests⟩ := m.exists_requests_of_react event
  rw [hrequests]
  exact Heap.grows_after _ requests

/-- **One event** leaves no reference without an object. -/
theorem react_known (hm : m.Known) {event : Event} (hevent : m.Admits event) :
    (m.react event).Known :=
  have hgrows := m.grows_react event
  react_hasOnly (HasOnly.mono hm hgrows.knows) (Heap.allButRefs_knows _)
    (hevent.bringsOnly hgrows) (Heap.addsOnly_knows _ _)

theorem known_live (hm : m.Known) {events : List Event}
    (hevents : m.Observes Admits events) : (m.live events).Known :=
  live_induction (P := fun _ later => later.Known) hevents hm
    fun _ _ hevent hpast => react_known hpast hevent

/-- The object that a failing step calls unknown is an operand, and of the other kind than the
instruction works on. -/
theorem Known.unknownObject (hm : m.Known) {x : Execution} (hx : .running x ∈ m.tasks)
    {s' : Shared} {e : Failure} {o : ObjectId} (hstep : step m.shared x = (s', .fails e))
    (he : e.fault = .unknownObject o) :
    ∃ f fs i, x.frames = f :: fs ∧ f.routine.get? f.pc = some i ∧
      (i.op.usesRecord = true ∧ m.shared.heap.isArray o = true ∨
        i.op.usesArray = true ∧ m.shared.heap.isRecord o = true) := by
  obtain ⟨f, fs, i, hframes, hi, -, hfits⟩ := Execution.step_fails hstep
  refine ⟨f, fs, i, hframes, hi, ?_⟩
  rw [he] at hfits
  obtain ⟨hoperand, hlacks⟩ := hfits
  have hknown : x.HasOnly m.shared.heap.Knows := hm.tasks _ hx
  have hkind := Heap.isSome_find?_iff.mp (hknown.operands _ hoperand o rfl)
  rcases hlacks with ⟨hop, hrecord⟩ | ⟨hop, harray⟩
  · exact .inl ⟨hop, hkind.resolve_left (by rw [hrecord]; exact Bool.noConfusion)⟩
  · exact .inr ⟨hop, hkind.resolve_right (by rw [harray]; exact Bool.noConfusion)⟩

/-- **No reference dangles.**  In a session of a new machine into which no reference comes from
outside, except to objects that there are, every reference is one to an object of the heap: on
operand stacks, in slots, in fields and cells, in the results of threads and in answers.  So an
instruction calls an object unknown only because it is of the other kind.  Compiled functions never
carry references. -/
theorem known_of_live (config : Config) (console : Console) (events : List Event)
    (hevents : (create config console).Observes Admits events) :
    ((create config console).live events).Known ∧
      (∀ x s' e o, .running x ∈ ((create config console).live events).tasks →
        step ((create config console).live events).shared x = (s', .fails e) →
        e.fault = .unknownObject o →
        ∃ f fs i, x.frames = f :: fs ∧ f.routine.get? f.pc = some i ∧
          (i.op.usesRecord = true ∧
              ((create config console).live events).shared.heap.isArray o = true ∨
            i.op.usesArray = true ∧
              ((create config console).live events).shared.heap.isRecord o = true)) ∧
      ∀ (f : Function) table r, f.lower table = .ok r → r.RefFree := by
  have hknown := known_live (known_create config console) hevents
  exact ⟨hknown, fun x s' e o hx hstep he => hknown.unknownObject hx hstep he,
    fun f table r hlower => Function.lower_refFree hlower⟩

/-- A session in which a call makes a record and another one gets the reference. -/
def handover : List Event :=
  [.add ⟨"make", #[.plain .allocs, .plain .ret]⟩, .move (.begin "make" []), .move (.advance 0),
    .move (.begin "make" [.ref 2025])]

theorem known_of_live_handover :
    (create {} {}).Observes Admits handover ∧
      (∃ x, .running x ∈ ((create {} {}).live handover).tasks ∧ x.operands = [.ref 2025]) ∧
      ((create {} {}).live handover).Known := by
  have hroutine : (⟨"make", #[.plain .allocs, .plain .ret]⟩ : Routine).RefFree := by
    intro index i hi
    match index with
    | 0 | 1 =>
      cases hi
      rfl
    | _ + 2 => cases hi
  have hobserves : (create {} {}).Observes Admits handover := by
    refine observes_cons hroutine (observes_cons (List.forall_mem_nil _) (observes_cons trivial
      (observes_cons (List.forall_mem_singleton.mpr ?_) (observes_nil _ _))))
    exact Heap.knows_ref rfl
  refine ⟨hobserves, ⟨_, List.mem_cons_self, rfl⟩, (known_of_live {} {} handover hobserves).1⟩

end Machine
end Opstack
