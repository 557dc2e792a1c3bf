import Opstack.Proofs.Lowering.Literals
import Opstack.Proofs.Machine.Loading
import Opstack.Proofs.Machine.Placement

/-!
# Machines that host a program

A program is loaded once, and then a session goes on for as long as one likes: calls begin, tasks
take turns, the heap is asked from outside, other programs are loaded as well.  As long as these
replace no routine by a different one (`Machine.AddsCompiled`), the routines of the program are
there, all routines are compiled ones, and all executions are inside their routines.

`Machine.Hosts` says so, `Machine.Hosts.react` is one event and `Machine.hosts_live` a whole
session.
-/

set_option autoImplicit false

namespace Opstack

/-! ## Tasks inside their routines -/

namespace Task

/-- The execution of the task, if it has one, is at instructions of closed routines. -/
def IsInside : Task → Prop
  | .running x => Inside x.frames
  | .waiting x _ _ => Inside x.frames
  | _ => True

variable {s : Shared} {t u : Task}

/-- What a thread has ended with leaves the activations where they are. -/
theorem isInside_resume {x : Execution} (hx : Inside x.frames) (thread : ThreadId) (site : Site)
    (outcome : Outcome) : (resume x thread site outcome).IsInside := by
  cases outcome with
  | running => exact hx
  | finished result =>
    cases result with
    | ok v => exact hx
    | error e => trivial
  | crashed => trivial

/-- A task inside its routines becomes one that is, too. -/
theorem Becomes.isInside (hbecomes : t.Becomes s u) (hclosed : ∀ r ∈ s.routines, r.Closed)
    (ht : t.IsInside) : u.IsInside := by
  have hnext : ∀ {x y : Execution}, Inside x.frames → x.Next s.routines y → Inside y.frames :=
    fun hx h => h.inside (fun r hr _ => hclosed r hr) hx
  cases hbecomes with
  | continues h => exact hnext ht (.continues rfl h)
  | spawns h => exact hnext ht (.spawns rfl h)
  | @child x y _ s' h =>
    have hfollows := step_follows s x
    rw [h] at hfollows
    obtain ⟨i, -, -, thread, arg, routine, hmem, rfl⟩ := hfollows
    exact inside_begin (hclosed routine hmem)
  | @waits x y s' thread site h =>
    have hy : Inside (y.push .null).frames := hnext ht (.waits .null rfl h)
    exact hy
  | resumes => exact isInside_resume ht _ _ _
  | returns | fails | admits | joins | closes => trivial
  | rests => exact ht

end Task

/-! ## Sessions -/

namespace Machine

/-- A routine that is registered is a compiled function, and replaces no different one. -/
def AddsCompiled (m : Machine) : Event → Prop
  | .add routine => m.KeepsRoutines (.add routine) ∧
      ∃ (f : Function) (table : RecordTable), f.lower table = .ok routine
  | _ => True

/-- The routines of the program are registered, all routines are compiled ones, and all executions
are inside their routines. -/
structure Hosts (m : Machine) (p : Program) : Prop where
  /-- The routines of the program are there. -/
  loaded : p.LoadedIn m.shared.routines
  /-- All routines are closed. -/
  closed : ∀ r ∈ m.shared.routines, r.Closed
  /-- The executions are inside their routines. -/
  inside : ∀ t ∈ m.tasks, t.IsInside

section

variable {m m' : Machine} {p : Program} {config : Config} {console : Console}

/-- A new machine that a program is loaded into hosts it. -/
theorem hosts_load (h : (create config console).load p = .ok m) (hp : p.Distinct) : m.Hosts p where
  loaded := loadedIn_of_load h hp
  closed r hr := by
    rcases mem_of_load h hr with ⟨f, -, hlower⟩ | hr
    · exact Function.closed_of_lower hlower
    · cases hr
  inside := by
    rw [load_eq h]
    exact List.forall_mem_nil _

theorem Hosts.add (hm : m.Hosts p) {routine : Routine}
    (hadds : m.AddsCompiled (.add routine)) : (m.add routine).Hosts p where
  loaded f hf := by
    obtain ⟨r, hlower, hfind⟩ := hm.loaded f hf
    refine ⟨r, hlower, (routineOf?_register m.shared routine f.name).trans ?_⟩
    split
    · rename_i hname
      rw [hadds.1 r (by rw [hname]; exact hfind)]
    · exact hfind
  closed r hr := by
    obtain ⟨f, table, hlower⟩ := hadds.2
    rcases mem_register hr with rfl | hr
    · exact Function.closed_of_lower hlower
    · exact hm.closed r hr
  inside := hm.inside

theorem Hosts.begin (hm : m.Hosts p) (name : String) (args : List Value) :
    (m.begin name args).Hosts p where
  loaded := hm.loaded
  closed := hm.closed
  inside := by
    refine List.forall_mem_append.mpr ⟨forall_mem_entry (fun _ hfind => ?_) trivial, hm.inside⟩
    exact inside_begin (hm.closed _ (Shared.mem_of_find? hfind))

theorem Hosts.advance (hm : m.Hosts p) (position : Nat) : (m.advance position).Hosts p := by
  have hroutines := m.routines_advance position
  refine ⟨hroutines ▸ hm.loaded, hroutines ▸ hm.closed, ?_⟩
  cases ht : m.tasks[position]? with
  | none =>
    rw [advance_eq_self ht]
    exact hm.inside
  | some t =>
    obtain ⟨before, after, htasks, hadvance⟩ := advance_eq ht
    rw [hadvance]
    intro u hu
    rcases Task.mem_cases hu with hu | hu
    · exact hm.inside u (htasks ▸ Task.mem_of_mem hu)
    · exact (Task.becomes_of_mem hu).isInside hm.closed (hm.inside t (List.mem_of_getElem? ht))

/-- **One event** leaves the program where it is. -/
theorem Hosts.react (hm : m.Hosts p) {event : Event} (hevent : m.AddsCompiled event) :
    (m.react event).Hosts p := by
  cases event with
  | add routine => exact hm.add hevent
  | ask request => exact ⟨hm.loaded, hm.closed, hm.inside⟩
  | move move =>
    cases move with
    | begin name args => exact hm.begin name args
    | advance position => exact hm.advance position
    | forget call =>
      exact ⟨hm.loaded, hm.closed, fun t ht => hm.inside t (List.mem_filter.mp ht).1⟩

theorem hosts_live (hm : m.Hosts p) {events : List Event}
    (hevents : m.Observes AddsCompiled events) : (m.live events).Hosts p :=
  live_induction (P := fun _ later => later.Hosts p) hevents hm
    fun _ _ hevent hpast => hpast.react hevent

end

end Machine
end Opstack
