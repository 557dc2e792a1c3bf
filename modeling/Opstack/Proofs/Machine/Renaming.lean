import Opstack.Proofs.Machine.Correspondence

/-!
# Renaming objects

When every object has at most one counterpart, the correspondence is a renaming: a function on the
numbers of objects.  What looks alike is then the same but for the names, so the relations of
`Value.Alike`, `Obj.Alike`, `Execution.Alike` and `Failure.Alike` become equations.
-/

set_option autoImplicit false

namespace Opstack

variable (ρ : ObjectId → ObjectId)

/-- The value with another number in place of that of an object. -/
def Value.rename : Value → Value
  | .ref o => .ref (ρ o)
  | v => v

/-- The object with other references in its fields and cells. -/
def Obj.rename : Obj → Obj
  | .record fields => .record (fields.map fun field => (field.1, field.2.rename ρ))
  | .array cells => .array (cells.map (Value.rename ρ))

/-- The fault with another number in place of that of an unknown object. -/
def Fault.rename : Fault → Fault
  | .unknownObject o => .unknownObject (ρ o)
  | e => e

/-- The failure with another number in place of that of an unknown object. -/
def Failure.rename (e : Failure) : Failure := { e with fault := e.fault.rename ρ }

/-- The result of a call with other references. -/
def renameResult : Except Failure Value → Except Failure Value
  | .ok v => .ok (v.rename ρ)
  | .error e => .error (e.rename ρ)

/-- The activation with other references in its slots. -/
def Frame.rename (f : Frame) : Frame := { f with slots := f.slots.map (Value.rename ρ) }

/-- The execution with other references in its operands and slots. -/
def Execution.rename (x : Execution) : Execution :=
  { x with operands := x.operands.map (Value.rename ρ), frames := x.frames.map (Frame.rename ρ) }

/-! ## What looks alike is a renamed copy -/

theorem forall₂_eq_map {α : Type} {P : α → α → Prop} {f : α → α} (hP : ∀ a b, P a b → b = f a)
    {l l' : List α} (h : List.Forall₂ P l l') : l' = l.map f := by
  induction h with
  | nil => rfl
  | cons hab _ ih => rw [List.map_cons, ← ih, ← hP _ _ hab]

section

variable {ρ} {r : ObjectId → ObjectId → Prop} (hρ : ∀ o o', r o o' → o' = ρ o)
include hρ

theorem Value.Alike.eq_rename {v v' : Value} (h : v.Alike r v') : v' = v.rename ρ := by
  cases h with
  | same hv => cases v <;> first | rfl | cases hv
  | ref ho => rw [rename, hρ _ _ ho]

theorem CellsAlike.eq_map {cells cells' : Array Value} (h : CellsAlike r cells cells') :
    cells' = cells.map (Value.rename ρ) := by
  refine Array.ext_getElem? fun i => ?_
  have hrel := h i
  rw [Array.getElem?_map]
  generalize cells[i]? = a, cells'[i]? = b at hrel
  cases hrel with
  | none => rfl
  | some hv => exact congrArg some (hv.eq_rename hρ)

theorem FieldsAlike.eq_map {fields fields' : List (String × Value)}
    (h : FieldsAlike r fields fields') :
    fields' = fields.map fun field => (field.1, field.2.rename ρ) := by
  induction h with
  | nil => rfl
  | @cons field field' _ _ hfield _ ih =>
    rw [List.map_cons, ← ih, ← hfield.1, ← hfield.2.eq_rename hρ]

theorem Obj.Alike.eq_rename {object object' : Obj} (h : object.Alike r object') :
    object' = object.rename ρ := by
  cases h with
  | record hfields => rw [rename, ← hfields.eq_map hρ]
  | array hcells => rw [rename, ← hcells.eq_map hρ]

theorem Fault.Alike.eq_rename {e e' : Fault} (h : e.Alike r e') : e' = e.rename ρ := by
  cases h with
  | same he => cases e <;> first | rfl | exact absurd rfl (he _)
  | unknownObject ho => rw [rename, hρ _ _ ho]

theorem Failure.Alike.eq_rename {e e' : Failure} (h : e.Alike r e') : e' = e.rename ρ := by
  obtain ⟨fault, site, thread⟩ := e
  obtain ⟨fault', site', thread'⟩ := e'
  obtain ⟨hfault, rfl, rfl⟩ := h
  obtain rfl : fault' = fault.rename ρ := hfault.eq_rename hρ
  rfl

theorem Frame.Alike.eq_rename {f f' : Frame} (h : f.Alike r f') : f' = f.rename ρ := by
  obtain ⟨routine, slots, pc⟩ := f
  obtain ⟨routine', slots', pc'⟩ := f'
  obtain ⟨rfl, rfl, hslots, -⟩ := h
  obtain rfl : slots' = slots.map (Value.rename ρ) := hslots.eq_map hρ
  rfl

/-- The call to which an execution belongs is no object. -/
theorem Execution.Alike.eq_rename {x x' : Execution} (h : x.Alike r x') :
    x' = { x.rename ρ with call := x'.call } := by
  obtain ⟨thread, call, operands, frames⟩ := x
  obtain ⟨thread', call', operands', frames'⟩ := x'
  obtain ⟨rfl, hoperands, hframes⟩ := h
  rw [rename, ← forall₂_eq_map (fun _ _ hv => Value.Alike.eq_rename hρ hv) hoperands,
    ← forall₂_eq_map (fun _ _ hf => Frame.Alike.eq_rename hρ hf) hframes]

end

end Opstack
