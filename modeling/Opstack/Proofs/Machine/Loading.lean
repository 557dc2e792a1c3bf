import Opstack.Machine.Session
import Opstack.Proofs.Lowering.Layout
import Opstack.Proofs.Machine.Effects

/-!
# Loaded programs

`Program.LoadedIn` says that a list of routines has the routine of every function of a program
under its name.  `Machine.load` brings that about if the functions have names of their own, and it
changes nothing else about the machine; other routines may have been there before.
-/

set_option autoImplicit false

namespace Opstack

/-! ## The routines of functions -/

theorem lowerFunctions_eq_ok {table : RecordTable} {functions : List Function}
    {routines : List Routine} (h : lowerFunctions table functions = .ok routines) :
    routines.map Routine.name = functions.map Function.name ∧
      (∀ f ∈ functions, ∃ r ∈ routines, f.lower table = .ok r) ∧
      ∀ r ∈ routines, ∃ f ∈ functions, f.lower table = .ok r := by
  induction functions generalizing routines with
  | nil =>
    cases h
    exact ⟨rfl, List.forall_mem_nil _, List.forall_mem_nil _⟩
  | cons f rest ih =>
    simp only [lowerFunctions, bind_eq_ok, pure_eq_ok] at h
    obtain ⟨r, hr, later, hl, rfl⟩ := h
    obtain ⟨hnames, hto, hfrom⟩ := ih hl
    obtain ⟨code, -, hname, -⟩ := Function.lower_eq_ok hr
    refine ⟨?_, List.forall_mem_cons.mpr ⟨?_, ?_⟩, List.forall_mem_cons.mpr ⟨?_, ?_⟩⟩
    · rw [List.map_cons, List.map_cons, hnames, hname]
    · exact ⟨r, List.mem_cons_self, hr⟩
    · intro g hg
      obtain ⟨r', hr', hlower⟩ := hto g hg
      exact ⟨r', List.mem_cons_of_mem _ hr', hlower⟩
    · exact ⟨f, List.mem_cons_self, hr⟩
    · intro r' hr'
      obtain ⟨g, hg, hlower⟩ := hfrom r' hr'
      exact ⟨g, List.mem_cons_of_mem _ hg, hlower⟩

/-! ## Registering routines -/

theorem routineOf?_register (s : Shared) (r : Routine) (name : String) :
    routineOf? (s.register r).routines name =
      if r.name = name then some r else routineOf? s.routines name := by
  change (r :: s.routines.filter fun r' => r'.name != r.name).find? (fun r => r.name == name) = _
  rw [List.find?_cons]
  by_cases h : r.name = name
  · rw [if_pos h, beq_iff_eq.mpr h]
  · rw [if_neg h, beq_eq_false_iff_ne.mpr h, routineOf?, List.find?_filter]
    refine congrArg (fun q => s.routines.find? q) (funext fun r' => ?_)
    by_cases h' : r'.name = name
    · simp [h', Ne.symm h]
    · simp [h']

theorem mem_register {s : Shared} {r r' : Routine} (h : r' ∈ (s.register r).routines) :
    r' = r ∨ r' ∈ s.routines := by
  rcases List.mem_cons.mp h with h | h
  · exact .inl h
  · exact .inr (List.mem_filter.mp h).1

namespace Machine

theorem routineOf?_foldl_add {routines : List Routine} {name : String} (m : Machine)
    (h : name ∉ routines.map Routine.name) :
    routineOf? (routines.foldl add m).shared.routines name =
      routineOf? m.shared.routines name := by
  induction routines generalizing m with
  | nil => rfl
  | cons r rest ih =>
    rw [List.map_cons, List.mem_cons, not_or] at h
    rw [List.foldl_cons, ih _ h.2]
    exact (routineOf?_register _ _ _).trans (if_neg (Ne.symm h.1))

theorem routineOf?_of_mem {routines : List Routine} {r : Routine} (m : Machine)
    (hnodup : (routines.map Routine.name).Nodup) (h : r ∈ routines) :
    routineOf? (routines.foldl add m).shared.routines r.name = some r := by
  induction routines generalizing m with
  | nil => cases h
  | cons r' rest ih =>
    rw [List.map_cons, List.nodup_cons] at hnodup
    rcases List.mem_cons.mp h with rfl | h
    · rw [List.foldl_cons, routineOf?_foldl_add _ hnodup.1]
      exact (routineOf?_register _ _ _).trans (if_pos rfl)
    · exact ih _ hnodup.2 h

theorem mem_foldl_add {routines : List Routine} {r : Routine} {m : Machine}
    (h : r ∈ (routines.foldl add m).shared.routines) : r ∈ routines ∨ r ∈ m.shared.routines := by
  induction routines generalizing m with
  | nil => exact .inr h
  | cons r' rest ih =>
    rcases ih h with h | h
    · exact .inl (List.mem_cons_of_mem _ h)
    · rcases mem_register h with rfl | h
      · exact .inl List.mem_cons_self
      · exact .inr h

end Machine

/-! ## Loading a program -/

/-- The routines have that of every function of the program under its name. -/
def Program.LoadedIn (p : Program) (routines : List Routine) : Prop :=
  ∀ f ∈ p.functions, ∃ r, f.lower (p.table []) = .ok r ∧ routineOf? routines f.name = some r

namespace Machine

variable {m m' : Machine} {p : Program}

/-- **Loading a program makes its routines known**, if its functions have names of their own. -/
theorem loadedIn_of_load (h : m.load p = .ok m') (hp : p.Distinct) :
    p.LoadedIn m'.shared.routines := by
  rw [load, bind_eq_ok] at h
  obtain ⟨routines, hr, heq⟩ := h
  cases heq
  obtain ⟨hnames, hto, -⟩ := lowerFunctions_eq_ok hr
  intro f hf
  obtain ⟨r, hr, hlower⟩ := hto f hf
  obtain ⟨code, -, hname, -⟩ := Function.lower_eq_ok hlower
  refine ⟨r, hlower, ?_⟩
  have hfind := routineOf?_of_mem m (hnames ▸ hp.nodup) hr
  rwa [show r.name = f.name by rw [hname]] at hfind

/-- Loading adds compiled functions and nothing else. -/
theorem mem_of_load (h : m.load p = .ok m') {r : Routine} (hr : r ∈ m'.shared.routines) :
    (∃ f ∈ p.functions, f.lower (p.table []) = .ok r) ∨ r ∈ m.shared.routines := by
  rw [load, bind_eq_ok] at h
  obtain ⟨routines, hroutines, heq⟩ := h
  cases heq
  obtain ⟨-, -, hfrom⟩ := lowerFunctions_eq_ok hroutines
  rcases mem_foldl_add hr with hr | hr
  · exact .inl (hfrom r hr)
  · exact .inr hr

theorem foldl_add_eq (routines : List Routine) (m : Machine) :
    routines.foldl add m =
      { m with
        shared := { m.shared with routines := (routines.foldl add m).shared.routines } } := by
  induction routines generalizing m with
  | nil => rfl
  | cons r rest ih => exact ih (m.add r)

/-- Loading changes nothing but the routines. -/
theorem load_eq (h : m.load p = .ok m') :
    m' = { m with shared := { m.shared with routines := m'.shared.routines } } := by
  rw [load, bind_eq_ok] at h
  obtain ⟨routines, -, heq⟩ := h
  cases heq
  exact foldl_add_eq routines m

end Machine
end Opstack
