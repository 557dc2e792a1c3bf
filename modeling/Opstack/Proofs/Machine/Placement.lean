import Opstack.Proofs.Machine.Inside
import Opstack.Proofs.Machine.Overlap
import Opstack.Proofs.Machine.Sessions

/-!
# Where executions are

The place that a failure names is taken from the activation that an execution is in, so it means
something only as long as the activation and the registered routines agree.  They do if no routine
is replaced by a different one (`Machine.KeepsRoutines`): then every activation of every execution
is one of a registered routine, an execution that waits has just moved past the `WAIT` whose place
is kept with it, and what a thread has failed with has its place already.

`Machine.Placed` says all this of a machine, and `Machine.placed_live` of every session.  What a
task can become with a turn is listed once, in `Task.Becomes`; unlike `Task.Turns`, which is about
what executions share, it keeps the step of the execution.
-/

set_option autoImplicit false

namespace Opstack

/-! ## Registered routines -/

namespace Shared

variable {s : Shared} {r routine : Routine}

/-- Different routines have different names. -/
def Named (s : Shared) : Prop := (s.routines.map Routine.name).Nodup

theorem Named.find?_name (hs : s.Named) (hr : r ∈ s.routines) : s.find? r.name = some r :=
  find?_name_of_nodup hr hs

theorem Named.register (hs : s.Named) (routine : Routine) : (s.register routine).Named := by
  rw [Named, Shared.register, List.map_cons, List.nodup_cons]
  constructor
  · intro hmem
    obtain ⟨r, hr, hname⟩ := List.mem_map.mp hmem
    exact bne_iff_ne.mp (List.mem_filter.mp hr).2 hname
  · exact (List.filter_sublist.map Routine.name).nodup hs

/-- A routine stays registered unless a different one takes its place. -/
theorem Named.mem_register (hs : s.Named) (hr : r ∈ s.routines)
    (hkeeps : ∀ old, s.find? routine.name = some old → old = routine) :
    r ∈ (s.register routine).routines := by
  by_cases hname : r.name = routine.name
  · have hfind := hs.find?_name hr
    rw [hname] at hfind
    exact hkeeps r hfind ▸ List.mem_cons_self
  · exact List.mem_cons_of_mem _ (List.mem_filter.mpr ⟨hr, bne_iff_ne.mpr hname⟩)

end Shared

/-! ## Executions at their instructions -/

namespace Execution

variable {routines : List Routine} {x y : Execution}

/-- All activations are ones of the routines. -/
def Runs (routines : List Routine) (x : Execution) : Prop :=
  ∀ f ∈ x.frames, f.routine ∈ routines

theorem Next.runs (hx : x.Runs routines) (hnext : x.Next routines y) : y.Runs routines := by
  obtain ⟨f, fs, i, hframes, -, hcases⟩ := hnext.frames_eq
  rw [Runs, hframes, List.forall_mem_cons] at hx
  obtain ⟨hf, hfs⟩ := hx
  rcases hcases with ⟨g, hy, hroutine, -⟩ | ⟨routine, hmem, -, hy⟩ | ⟨-, hy⟩
  · rw [Runs, hy, List.forall_mem_cons, hroutine]
    exact ⟨hf, hfs⟩
  · rw [Runs, hy, List.forall_mem_cons, List.forall_mem_cons]
    exact ⟨hmem, hf, hfs⟩
  · rw [Runs, hy]
    exact hfs

/-- The execution has just moved past a `WAIT` at the place. -/
def PastWait (x : Execution) (site : Site) : Prop :=
  ∃ f fs i, x.frames = f :: fs ∧ f.routine.get? (f.pc - 1) = some i ∧ i.op = .wait ∧
    site = ⟨f.routine.name, f.pc - 1, i.text⟩

end Execution

theorem Execution.step_waits {s s' : Shared} {x y : Execution} {thread : ThreadId} {site : Site}
    (h : step s x = (s', .waits y thread site)) : y.PastWait site := by
  obtain ⟨i, hi, hsite, heffect⟩ := perform_of_waits (congrArg Prod.snd h)
  obtain ⟨f, fs, hframes, hget⟩ := Execution.instr?_eq_some hi
  have hbooks := perform_books s x.passed i
  rw [heffect] at hbooks
  generalize (perform s x.passed i).1 = s₁ at hbooks
  cases hbooks with
  | wait _ hpassed =>
    rw [Execution.frames_passed hframes] at hpassed
    exact ⟨_, fs, i, hpassed, hget, op_of_wait heffect, hsite.trans (Execution.siteOf_eq hframes i)⟩

/-! ## What tasks become -/

namespace Task

/-- What a task can become with a turn. -/
inductive Becomes (s : Shared) : Task → Task → Prop
  | continues {x y : Execution} {s' : Shared} (h : step s x = (s', .continues y)) :
    Becomes s (.running x) (.running y)
  | spawns {x y child : Execution} {s' : Shared} (h : step s x = (s', .spawns y child)) :
    Becomes s (.running x) (.running y)
  | child {x y child : Execution} {s' : Shared} (h : step s x = (s', .spawns y child)) :
    Becomes s (.running x) (.running child)
  | waits {x y : Execution} {s' : Shared} {thread : ThreadId} {site : Site}
    (h : step s x = (s', .waits y thread site)) :
    Becomes s (.running x) (.waiting y thread site)
  | returns {x : Execution} {s' : Shared} {v : Value} (h : step s x = (s', .returns v)) :
    Becomes s (.running x) (.joining x.call (.ok v))
  | fails {x : Execution} {s' : Shared} {e : Failure} (h : step s x = (s', .fails e)) :
    Becomes s (.running x) (.failing x.thread x.call e)
  | resumes {x : Execution} {thread : ThreadId} {site : Site} :
    Becomes s (.waiting x thread site) (resume x thread site (s.outcomeOf thread))
  | admits {call : Nat} {e : Failure} : Becomes s (.failing none call e) (.joining call (.error e))
  | joins {call : Nat} {result : Except Failure Value} :
    Becomes s (.joining call result) (.closing call result)
  | closes {call : Nat} {result : Except Failure Value} :
    Becomes s (.closing call result) (.answered call (answer s.failure result))
  | rests {t : Task} : Becomes s t t

theorem becomes_of_mem {s : Shared} {t u : Task} (hu : u ∈ (t.turn s).2) : t.Becomes s u := by
  cases t with
  | running x =>
    rw [turn] at hu
    generalize hstep : step s x = r at hu
    obtain ⟨s', turn⟩ := r
    cases turn with
    | continues y =>
      cases List.mem_singleton.mp hu
      exact .continues hstep
    | spawns y child =>
      rcases List.mem_cons.mp hu with rfl | hu
      · exact .child hstep
      · cases List.mem_singleton.mp hu
        exact .spawns hstep
    | waits y thread site =>
      cases List.mem_singleton.mp hu
      exact .waits hstep
    | returns v =>
      dsimp only [finish] at hu
      split at hu
      · cases hu
      · cases List.mem_singleton.mp hu
        exact .returns hstep
    | fails e =>
      cases List.mem_singleton.mp hu
      exact .fails hstep
    | crashes =>
      dsimp only [crash] at hu
      split at hu <;> cases hu
  | waiting x thread site =>
    cases List.mem_singleton.mp hu
    exact .resumes
  | failing thread call e =>
    cases thread with
    | none =>
      cases List.mem_singleton.mp hu
      exact .admits
    | some thread => cases hu
  | joining call result =>
    rw [turn] at hu
    split at hu
    · cases List.mem_singleton.mp hu
      exact .joins
    · cases List.mem_singleton.mp hu
      exact .rests
  | closing call result =>
    cases List.mem_singleton.mp hu
    exact .closes
  | answered call result =>
    cases List.mem_singleton.mp hu
    exact .rests

end Task

/-! ## Tasks -/

/-- The activations of the task are ones of the routines; the task waits at the place that is kept
with it; and if a thread fails, then the failure has its place already. -/
def Task.Placed (routines : List Routine) : Task → Prop
  | .running x => x.Runs routines
  | .waiting x _ site => x.Runs routines ∧ x.PastWait site
  | .failing (some _) _ e => e.Located
  | _ => True

/-- What the threads have failed with has its place already. -/
def Shared.Placed (s : Shared) : Prop :=
  ∀ thread r e, s.thread? thread = some r → r.outcome = .finished (.error e) → e.Located

theorem Shared.placed_modifyThread {s : Shared} (hs : s.Placed) (thread : ThreadId)
    {f : Thread → Thread} (hf : ∀ r e, (f r).outcome = .finished (.error e) →
      r.outcome = .finished (.error e) ∨ e.Located) : (s.modifyThread thread f).Placed := by
  intro other r e hr he
  rw [thread?_modifyThread] at hr
  split at hr
  · obtain ⟨r₀, hr₀, rfl⟩ := Option.map_eq_some_iff.mp hr
    exact (hf r₀ e he).elim (hs thread r₀ e hr₀) id
  · exact hs other r e hr he

theorem Shared.Placed.congr {s s' : Shared} (hs : s.Placed) (hthreads : s'.threads = s.threads) :
    s'.Placed := by
  intro thread r e hr
  rw [thread?_congr hthreads] at hr
  exact hs thread r e hr

namespace Task

variable {s s' : Shared} {t u : Task} {tasks : List Task} {incident : Option Incident}
  {routines : List Routine}

/-- A turn keeps the failures of threads placed if the one that it records is. -/
theorem Turns.placed_of_located (hturn : t.Turns s s' tasks incident) (hs : s.Placed)
    (ht : ∀ thread call e, t = .failing (some thread) call e → e.Located) : s'.Placed := by
  cases hturn with
  | runs _ hbooks _ | raises _ hbooks _ _ => exact hs.congr hbooks.threads
  | @spawns x y child _ hroom _ _ _ =>
    intro thread r e hr he
    have hpush : (s.withThread x.call).threads = s.threads.push { call := x.call } := rfl
    rw [Shared.thread?_push hroom hpush] at hr
    split at hr
    · cases hr
      cases he
    · exact hs thread r e hr he
  | asks _ _ _ _ => exact Shared.placed_modifyThread hs _ fun _ _ he => .inl he
  | delivers _ | breaks _ _ =>
    exact Shared.placed_modifyThread hs _ fun _ _ he => by cases he
  | @records thread call e =>
    have hfail : (s.fail e).Placed := hs.congr rfl
    refine Shared.placed_modifyThread hfail _ fun _ e' he => .inr ?_
    cases he
    exact ht thread call e rfl
  | joins _ => exact hs.congr (threads_join s _)
  | _ => exact hs.congr rfl

/-- A turn keeps the failures of threads placed. -/
theorem Turns.placed (hturn : t.Turns s s' tasks incident) (hs : s.Placed)
    (ht : t.Placed routines) : s'.Placed :=
  hturn.placed_of_located hs fun thread call e h => by
    subst h
    exact ht

theorem placed_waiting {x : Execution} {thread : ThreadId} {site : Site} (hs : s.Placed)
    (hx : Task.Placed routines (.waiting x thread site)) :
    (resume x thread site (s.outcomeOf thread)).Placed routines := by
  rw [Shared.outcomeOf]
  split
  · rename_i r hr
    cases houtcome : r.outcome with
    | running => exact hx
    | finished result =>
      cases result with
      | ok v => exact hx.1
      | error e =>
        have he := hs thread r e hr houtcome
        rw [resume, he.inThread_atSite]
        cases x.thread with
        | none => trivial
        | some t => exact he
    | crashed =>
      rw [resume]
      cases hthread : x.thread with
      | none => trivial
      | some t => exact ⟨rfl, rfl⟩
  · exact hx

/-- **A turn leaves tasks where they say they are.** -/
theorem Becomes.placed (hbecomes : t.Becomes s u) (hs : s.Placed) (ht : t.Placed s.routines) :
    u.Placed s.routines := by
  cases hbecomes with
  | continues h => exact Execution.Next.runs ht (.continues rfl h)
  | spawns h => exact Execution.Next.runs ht (.spawns rfl h)
  | @child x y _ s' h =>
    have hfollows := step_follows s x
    rw [h] at hfollows
    obtain ⟨i, -, -, thread, arg, routine, hmem, rfl⟩ := hfollows
    exact List.forall_mem_singleton.mpr hmem
  | @waits x y s' thread site h =>
    have hruns : (y.push .null).Runs s.routines := Execution.Next.runs ht (.waits .null rfl h)
    exact ⟨hruns, Execution.step_waits h⟩
  | @fails x s' e h =>
    obtain ⟨f, fs, i, -, -, he, -⟩ := Execution.step_fails h
    rw [he]
    cases x.thread with
    | none => trivial
    | some thread => exact Failure.located_raised _ _ rfl
  | resumes => exact placed_waiting hs ht
  | returns | admits | joins | closes => trivial
  | rests => exact ht

end Task

/-! ## Sessions -/

namespace Machine

/-- No routine is replaced by a different one. -/
def KeepsRoutines (m : Machine) : Event → Prop
  | .add routine => ∀ old, m.shared.find? routine.name = some old → old = routine
  | _ => True

/-- Executions are where they say they are, in registered routines. -/
structure Placed (m : Machine) : Prop where
  /-- Different routines have different names. -/
  named : m.shared.Named
  /-- The tasks are in registered routines. -/
  tasks : ∀ t ∈ m.tasks, t.Placed m.shared.routines
  /-- What the threads have failed with has its place. -/
  threads : m.shared.Placed

variable {m : Machine}

theorem placed_create (config : Config) (console : Console) :
    (create config console).Placed where
  named := List.nodup_nil
  tasks := List.forall_mem_nil _
  threads thread r e hr := by simp [create, Shared.thread?] at hr

theorem Task.Placed.mono {t : Task} {routines more : List Routine} (ht : t.Placed routines)
    (hsub : routines ⊆ more) : t.Placed more := by
  match t with
  | .running x => exact fun f hf => hsub (ht f hf)
  | .waiting x _ _ => exact ⟨fun f hf => hsub (ht.1 f hf), ht.2⟩
  | .failing (some _) _ _ => exact ht
  | .failing none _ _ | .joining _ _ | .closing _ _ | .answered _ _ => trivial

theorem Placed.add (hm : m.Placed) {routine : Routine}
    (hkeeps : ∀ old, m.shared.find? routine.name = some old → old = routine) :
    (m.add routine).Placed where
  named := hm.named.register routine
  tasks t ht := Task.Placed.mono (hm.tasks t ht) fun _ hr => hm.named.mem_register hr hkeeps
  threads := hm.threads

theorem Placed.begin (hm : m.Placed) (name : String) (args : List Value) :
    (m.begin name args).Placed where
  named := hm.named
  tasks := by
    have hentry : ∀ t ∈ entry m.shared m.calls name args, t.Placed m.shared.routines :=
      forall_mem_entry (fun _ hfind => List.forall_mem_singleton.mpr (Shared.mem_of_find? hfind))
        trivial
    exact List.forall_mem_append.mpr ⟨hentry, hm.tasks⟩
  threads := hm.threads

theorem routines_advance (m : Machine) (position : Nat) :
    (m.advance position).shared.routines = m.shared.routines := by
  cases ht : m.tasks[position]? with
  | none => rw [advance_eq_self ht]
  | some t =>
    obtain ⟨before, after, -, hadvance⟩ := advance_eq ht
    rw [hadvance]
    exact Task.routines_turn m.shared t

theorem Placed.advance (hm : m.Placed) (position : Nat) : (m.advance position).Placed := by
  have hroutines := m.routines_advance position
  cases ht : m.tasks[position]? with
  | none =>
    rw [advance_eq_self ht]
    exact hm
  | some t =>
    obtain ⟨before, after, htasks, hadvance⟩ := advance_eq ht
    have htmem := List.mem_of_getElem? ht
    have hturn := t.turns_turn m.shared
    rw [hadvance] at hroutines ⊢
    refine ⟨?_, fun u hu => ?_, hturn.placed hm.threads (hm.tasks t htmem)⟩
    · rw [Shared.Named, hroutines]
      exact hm.named
    · rw [hroutines]
      rcases Task.mem_cases hu with hu | hu
      · exact hm.tasks u (htasks ▸ Task.mem_of_mem hu)
      · exact (Task.becomes_of_mem hu).placed hm.threads (hm.tasks t htmem)

/-- **One event** leaves executions where they say they are. -/
theorem react_placed (hm : m.Placed) {event : Event} (hevent : m.KeepsRoutines event) :
    (m.react event).Placed := by
  cases event with
  | add routine => exact hm.add hevent
  | ask request => exact ⟨hm.named, hm.tasks, hm.threads⟩
  | move move =>
    cases move with
    | begin name args => exact hm.begin name args
    | advance position => exact hm.advance position
    | forget call =>
      exact ⟨hm.named, fun t ht => hm.tasks t (List.mem_filter.mp ht).1, hm.threads⟩

theorem placed_live (hm : m.Placed) {events : List Event}
    (hevents : m.Observes KeepsRoutines events) : (m.live events).Placed :=
  live_induction (P := fun _ later => later.Placed) hevents hm
    fun _ _ hevent hpast => react_placed hpast hevent

end Machine
end Opstack
