import Mathlib.Data.List.Forall2
import Opstack.Proofs.Machine.HeldValues

/-!
# Values and heaps that look alike

Programs can tell references apart but cannot look into them.  So two values look alike to a
program if they are the same, or both are references to objects that correspond to one another.
This module says so of values, objects and heaps, for any correspondence between the objects of two
heaps, and proves that operations on them have results that look alike.

* `Value.Alike`, `Obj.Alike` and `Heap.Alike` are the relations.
* `GiveAlike` relates what two operations that can fail give; its `bind` puts them together.
* `Value.binary_alike` and `Value.unary_alike`: operations on values have the same result.
* `Heap.Alike.push` and `Heap.Alike.put`: new objects correspond to one another, and an object can
  be replaced with the one that corresponds to it.
-/

set_option autoImplicit false

namespace Opstack

/-! ## Values and faults -/

section

variable (r : ObjectId → ObjectId → Prop)

/-- Both values are the same, or references to objects that correspond. -/
inductive Value.Alike : Value → Value → Prop
  | same {v : Value} (hv : v.asRef? = none) : Alike v v
  | ref {o o' : ObjectId} (ho : r o o') : Alike (.ref o) (.ref o')

/-- Both faults are the same but for the number of an unknown object. -/
inductive Fault.Alike : Fault → Fault → Prop
  | same {e : Fault} (he : ∀ o, e ≠ .unknownObject o) : Alike e e
  | unknownObject {o o' : ObjectId} (ho : r o o') : Alike (.unknownObject o) (.unknownObject o')

/-- Both operations give results that are related, or they fail alike. -/
def GiveAlike {α β : Type} (P : α → β → Prop) : Except Fault α → Except Fault β → Prop
  | .ok a, .ok b => P a b
  | .error e, .error e' => e.Alike r e'
  | _, _ => False

end

section

variable {r r' : ObjectId → ObjectId → Prop} {op : Opcode} {v v' w w' : Value}

theorem Fault.Names.alike {e : Fault} (h : e.Names op) : e.Alike r e :=
  .same fun o ho => by
    subst ho
    exact h

namespace GiveAlike

variable {α α' β β' : Type} {P : α → α' → Prop} {Q : β → β' → Prop} {a : Except Fault α}
  {a' : Except Fault α'}

theorem bind {f : α → Except Fault β} {f' : α' → Except Fault β'} (h : GiveAlike r P a a')
    (hf : ∀ x x', P x x' → GiveAlike r Q (f x) (f' x')) :
    GiveAlike r Q (a >>= f) (a' >>= f') := by
  match a, a' with
  | .ok x, .ok x' => exact hf x x' h
  | .error _, .error _ => exact h

theorem map {f : α → β} {f' : α' → β'} (h : GiveAlike r P a a')
    (hf : ∀ x x', P x x' → Q (f x) (f' x')) : GiveAlike r Q (a.map f) (a'.map f') := by
  match a, a' with
  | .ok x, .ok x' => exact hf x x' h
  | .error _, .error _ => exact h

theorem cases (h : GiveAlike r P a a') :
    (∃ e e', a = .error e ∧ a' = .error e' ∧ e.Alike r e') ∨
      ∃ x x', a = .ok x ∧ a' = .ok x' ∧ P x x' := by
  match a, a' with
  | .ok x, .ok x' => exact .inr ⟨x, x', rfl, rfl, h⟩
  | .error e, .error e' => exact .inl ⟨e, e', rfl, rfl, h⟩

/-- An operation that does not look at the heap gives the same as itself. -/
theorem refl {a : Except Fault α} (h : FailsWith (Fault.Names op) a) : GiveAlike r Eq a a := by
  cases a with
  | ok x => exact rfl
  | error e => exact Fault.Names.alike h

end GiveAlike

namespace Value

theorem alike_null : Alike r .null .null := .same rfl

theorem Alike.mono (h : v.Alike r v') (hle : ∀ o o', r o o' → r' o o') : v.Alike r' v' := by
  cases h with
  | same hv => exact .same hv
  | ref ho => exact .ref (hle _ _ ho)

theorem Alike.eq_of_asRef? (h : v.Alike r v') (hv : v.asRef? = none) : v' = v := by
  cases h with
  | same _ => rfl
  | ref _ => cases hv

/-! ### Operands -/

theorem Alike.asObject (h : v.Alike r v') (op : Opcode) :
    GiveAlike r r (v.asObject op) (v'.asObject op) := by
  cases h with
  | same hv =>
    have hnames := (v.asObject_raises op).names
    cases v with
    | ref o => cases hv
    | _ => exact Fault.Names.alike hnames
  | ref ho => exact ho

theorem Alike.asIndex (h : v.Alike r v') (op : Opcode) :
    GiveAlike r Eq (v.asIndex op) (v'.asIndex op) := by
  cases h with
  | same _ => exact .refl (v.asIndex_raises op).names
  | @ref o _ _ => exact .refl ((Value.ref o).asIndex_raises op).names

theorem Alike.asNumber (h : v.Alike r v') (op : Opcode) :
    GiveAlike r Eq (v.asNumber op) (v'.asNumber op) := by
  cases h with
  | same _ => exact .refl (v.asNumber_raises op).names
  | @ref o _ _ => exact .refl ((Value.ref o).asNumber_raises op).names

/-! ### Operations -/

/-- Operations look at no more of a reference than that it is one. -/
theorem unary_congr (op : UnaryOp) (h : v.Alike r v') : unary op v = unary op v' := by
  cases h with
  | same _ => rfl
  | ref _ => cases op <;> rfl

/-- The equality of programs sees through a correspondence of one object with one. -/
theorem same_congr (hr : Relator.BiUnique r) (hv : v.Alike r v') (hw : w.Alike r w') :
    v.same w = v'.same w' := by
  cases hv with
  | same hv =>
    cases hw with
    | same _ => rfl
    | ref _ => cases v <;> first | rfl | cases hv
  | @ref o o' ho =>
    cases hw with
    | same hw => cases w <;> first | rfl | cases hw
    | @ref p p' hp =>
      refine Bool.eq_iff_iff.mpr (beq_iff_eq.trans (Iff.trans ⟨?_, ?_⟩ beq_iff_eq.symm))
      · rintro rfl
        exact hr.2 ho hp
      · rintro rfl
        exact hr.1 ho hp

theorem binary_congr (hr : Relator.BiUnique r) (op : BinaryOp) (hv : v.Alike r v')
    (hw : w.Alike r w') : binary op v w = binary op v' w' := by
  have hsame := same_congr hr hv hw
  cases op with
  | cmpeq | cmpne => simp only [binary, hsame]
  | _ =>
    cases hv with
    | same _ =>
      cases hw with
      | same _ => rfl
      | ref _ => cases v <;> rfl
    | ref _ =>
      cases hw with
      | same _ => cases w <;> rfl
      | ref _ => rfl

theorem unary_alike (op : UnaryOp) (h : v.Alike r v') :
    GiveAlike r (Alike r) (unary op v) (unary op v') := by
  have hvalue := unary_asRef? op v
  have hnames := (unary_raises op v).names
  rw [← unary_congr op h]
  generalize unary op v = result at hvalue hnames
  cases result with
  | ok w => exact .same hvalue
  | error e => exact Fault.Names.alike hnames

theorem binary_alike (hr : Relator.BiUnique r) (op : BinaryOp) (hv : v.Alike r v')
    (hw : w.Alike r w') : GiveAlike r (Alike r) (binary op v w) (binary op v' w') := by
  have hvalue := binary_asRef? op v w
  have hnames := (binary_raises op v w).names
  rw [← binary_congr hr op hv hw]
  generalize binary op v w = result at hvalue hnames
  cases result with
  | ok w => exact .same hvalue
  | error e => exact Fault.Names.alike hnames

end Value

end

/-! ## Objects -/

section

variable (r : ObjectId → ObjectId → Prop)

/-- Both lists of cells have values that look alike. -/
def CellsAlike (cells cells' : Array Value) : Prop :=
  ∀ i : Nat, Option.Rel (Value.Alike r) cells[i]? cells'[i]?

/-- Both lists of fields have the same names and values that look alike. -/
def FieldsAlike : List (String × Value) → List (String × Value) → Prop :=
  List.Forall₂ fun field field' => field'.1 = field.1 ∧ field.2.Alike r field'.2

/-- Both objects are of the same kind and hold values that look alike. -/
inductive Obj.Alike : Obj → Obj → Prop
  | record {fields fields' : List (String × Value)} (h : FieldsAlike r fields fields') :
    Alike (.record fields) (.record fields')
  | array {cells cells' : Array Value} (h : CellsAlike r cells cells') :
    Alike (.array cells) (.array cells')

/-- The correspondence with one more pair of objects. -/
def Along (o o' : ObjectId) (p p' : ObjectId) : Prop := r p p' ∨ p = o ∧ p' = o'

/-- Objects correspond one to one, and those that correspond look alike. -/
structure Heap.Alike (h h' : Heap) : Prop where
  /-- No object corresponds to two others. -/
  unique : Relator.BiUnique r
  /-- Arrays may be equally long. -/
  limits : h'.limits = h.limits
  /-- Objects that correspond look alike. -/
  objects : ∀ o o', r o o' → ∃ object object', h.find? o = some object ∧
    h'.find? o' = some object' ∧ object.Alike r object'

end

section

variable {r r' : ObjectId → ObjectId → Prop}

/-! ### Cells -/

namespace CellsAlike

variable {cells cells' : Array Value} {v v' : Value}

theorem size_eq (h : CellsAlike r cells cells') : cells'.size = cells.size := by
  have hle : ∀ i, cells.size ≤ i ↔ cells'.size ≤ i := fun i => by
    have hrel := h i
    rw [← Array.getElem?_eq_none_iff, ← Array.getElem?_eq_none_iff]
    generalize cells[i]? = a, cells'[i]? = b at hrel
    cases hrel <;> simp
  exact Nat.le_antisymm ((hle _).mp (Nat.le_refl _)) ((hle _).mpr (Nat.le_refl _))

theorem mono (h : CellsAlike r cells cells') (hle : ∀ o o', r o o' → r' o o') :
    CellsAlike r' cells cells' := fun i => by
  have hrel := h i
  generalize cells[i]? = a, cells'[i]? = b at hrel
  cases hrel with
  | some hv => exact .some (hv.mono hle)
  | none => exact .none

theorem replicate (n : Nat) : CellsAlike r (Array.replicate n .null) (Array.replicate n .null) :=
  fun i => by
    rw [Array.getElem?_replicate]
    split
    · exact .some Value.alike_null
    · exact .none

theorem getD (h : CellsAlike r cells cells') (i : Nat) :
    (cells[i]?.getD .null).Alike r (cells'[i]?.getD .null) := by
  have hrel := h i
  generalize cells[i]? = a, cells'[i]? = b at hrel
  cases hrel with
  | some hv => exact hv
  | none => exact Value.alike_null

theorem set (h : CellsAlike r cells cells') (hv : v.Alike r v') (i : Nat) :
    CellsAlike r (cells.setIfInBounds i v) (cells'.setIfInBounds i v') := fun j => by
  rw [Array.getElem?_setIfInBounds, Array.getElem?_setIfInBounds, h.size_eq]
  split
  · split
    · exact .some hv
    · exact .none
  · exact h j

theorem append (h : CellsAlike r cells cells') {more more' : Array Value}
    (hmore : CellsAlike r more more') : CellsAlike r (cells ++ more) (cells' ++ more') :=
  fun i => by
    rw [Array.getElem?_append, Array.getElem?_append, h.size_eq]
    split
    · exact h i
    · exact hmore _

theorem push (h : CellsAlike r cells cells') (hv : v.Alike r v') :
    CellsAlike r (cells.push v) (cells'.push v') := fun i => by
  rw [Array.getElem?_push, Array.getElem?_push, h.size_eq]
  split
  · exact .some hv
  · exact h i

/-- Storing to a slot leaves slots that look alike. -/
theorem storeSlot (h : CellsAlike r cells cells') (hv : v.Alike r v') (slot : Nat) :
    CellsAlike r (storeSlot cells slot v) (storeSlot cells' slot v') := by
  rw [Opstack.storeSlot, Opstack.storeSlot, h.size_eq]
  split
  · exact h.set hv slot
  · exact (h.append (.replicate _)).push hv

end CellsAlike

/-! ### Fields -/

namespace FieldsAlike

variable {fields fields' : List (String × Value)} {v v' : Value}

theorem mono (h : FieldsAlike r fields fields') (hle : ∀ o o', r o o' → r' o o') :
    FieldsAlike r' fields fields' :=
  List.Forall₂.imp (fun _ _ hfield => ⟨hfield.1, hfield.2.mono hle⟩) h

theorem fieldOf? (h : FieldsAlike r fields fields') (name : String) :
    Option.Rel (Value.Alike r) (Opstack.fieldOf? fields name) (Opstack.fieldOf? fields' name) := by
  induction h with
  | nil => exact .none
  | @cons field field' rest rest' hfield _ ih =>
    obtain ⟨key, v⟩ := field
    obtain ⟨key', v'⟩ := field'
    obtain ⟨rfl, hv⟩ := hfield
    rw [Opstack.fieldOf?, Opstack.fieldOf?, List.lookup_cons, List.lookup_cons]
    cases name == key' with
    | true => exact .some hv
    | false => exact ih

theorem withField (h : FieldsAlike r fields fields') (name : String) (hv : v.Alike r v') :
    FieldsAlike r (Opstack.withField fields name v) (Opstack.withField fields' name v') := by
  induction h with
  | nil => exact .cons ⟨rfl, hv⟩ .nil
  | @cons field field' rest rest' hfield hrest ih =>
    obtain ⟨key, w⟩ := field
    obtain ⟨key', w'⟩ := field'
    obtain ⟨rfl, hw⟩ := hfield
    rw [Opstack.withField, Opstack.withField]
    split
    · exact .cons ⟨rfl, hv⟩ hrest
    · exact .cons ⟨rfl, hw⟩ ih

end FieldsAlike

theorem Obj.Alike.mono {object object' : Obj} (h : object.Alike r object')
    (hle : ∀ o o', r o o' → r' o o') : object.Alike r' object' := by
  cases h with
  | record h => exact .record (h.mono hle)
  | array h => exact .array (h.mono hle)

/-! ## Heaps -/

namespace Heap

variable {h h' : Heap} {o o' : ObjectId} {object object' : Obj} {v v' : Value}

/-- New objects that look alike correspond from then on. -/
theorem Alike.push (hh : h.Alike r h') (hobject : object.Alike r object') :
    (h.push object).Alike (Along r h.nextObject h'.nextObject) (h'.push object') := by
  have hle : ∀ o o', r o o' → Along r h.nextObject h'.nextObject o o' := fun _ _ ho => .inl ho
  -- What corresponds so far is there already, so it is none of the new objects.
  have hnext : ∀ o, ¬ r o h'.nextObject := fun o ho => by
    obtain ⟨-, _, -, hfind, -⟩ := hh.objects _ _ ho
    rw [h'.find?_nextObject] at hfind
    cases hfind
  have hnext' : ∀ o', ¬ r h.nextObject o' := fun o' ho => by
    obtain ⟨_, -, hfind, -⟩ := hh.objects _ _ ho
    rw [h.find?_nextObject] at hfind
    cases hfind
  refine ⟨⟨?_, ?_⟩, hh.limits, ?_⟩
  · rintro a b c (hac | ⟨rfl, rfl⟩) (hbc | ⟨rfl, hc⟩)
    · exact hh.unique.1 hac hbc
    · exact absurd (hc ▸ hac) (hnext a)
    · exact absurd hbc (hnext b)
    · rfl
  · rintro a b c (hab | ⟨rfl, rfl⟩) (hac | ⟨ha, rfl⟩)
    · exact hh.unique.2 hab hac
    · exact absurd (ha ▸ hab) (hnext' b)
    · exact absurd hac (hnext' c)
    · rfl
  · rintro a b (hab | ⟨rfl, rfl⟩)
    · obtain ⟨old, old', hfind, hfind', hold⟩ := hh.objects a b hab
      refine ⟨old, old', ?_, ?_, hold.mono hle⟩
      · rw [find?_push, if_neg fun (ha : a = h.nextObject) => hnext' b (ha ▸ hab), hfind]
      · rw [find?_push, if_neg fun (hb : b = h'.nextObject) => hnext a (hb ▸ hab), hfind']
    · refine ⟨object, object', ?_, ?_, hobject.mono hle⟩
      · rw [find?_push, if_pos rfl]
      · rw [find?_push, if_pos rfl]

/-- Objects that correspond can be replaced with others that look alike. -/
theorem Alike.put (hh : h.Alike r h') (ho : r o o') (hobject : object.Alike r object') :
    (h.put o object).Alike r (h'.put o' object') := by
  obtain ⟨old, old', hfind, hfind', -⟩ := hh.objects o o' ho
  refine ⟨hh.unique, ?_, fun a b hab => ?_⟩
  · rw [limits_put, limits_put, hh.limits]
  · rw [find?_put hfind, find?_put hfind']
    by_cases ha : a = o
    · obtain rfl : b = o' := hh.unique.2 hab (ha ▸ ho)
      rw [if_pos ha, if_pos rfl]
      exact ⟨object, object', rfl, rfl, hobject⟩
    · rw [if_neg ha, if_neg fun (hb : b = o') => ha (hh.unique.1 hab (hb ▸ ho))]
      exact hh.objects a b hab

/-! ### Operations -/

theorem checkedIndex_alike (r : ObjectId → ObjectId → Prop) (index : Int64) (length : Nat) :
    GiveAlike r Eq (checkedIndex index length) (checkedIndex index length) := by
  rw [checkedIndex]
  split
  · exact rfl
  · exact .same fun _ h => by cases h

theorem lengthFault?_alike {h : Heap} {length : Int64} {hasRoom : Bool} {e : Fault}
    (he : h.lengthFault? length hasRoom = some e) : e.Alike r e := by
  rw [lengthFault?] at he
  repeat' split at he
  all_goals cases he
  · exact .same fun _ h => by cases h
  · exact .same fun _ h => by cases h

section

variable (hh : h.Alike r h') (ho : r o o')
include hh ho

theorem Alike.getField (field : String) :
    GiveAlike r (Value.Alike r) (h.getField o field) (h'.getField o' field) := by
  obtain ⟨object, object', hfind, hfind', hobject⟩ := hh.objects o o' ho
  rw [Heap.getField, Heap.getField, hfind, hfind']
  cases hobject with
  | @record fields fields' hfields =>
    have hrel := hfields.fieldOf? field
    dsimp only
    generalize fieldOf? fields field = a, fieldOf? fields' field = b at hrel
    cases hrel with
    | some hv => exact hv
    | none => exact .same fun _ h => by cases h
  | array => exact .unknownObject ho

theorem Alike.setField (field : String) (hv : v.Alike r v') :
    GiveAlike r Eq (h.setField o field v).1 (h'.setField o' field v').1 ∧
      (h.setField o field v).2.Alike r (h'.setField o' field v').2 := by
  obtain ⟨object, object', hfind, hfind', hobject⟩ := hh.objects o o' ho
  rw [Heap.setField, Heap.setField, hfind, hfind']
  cases hobject with
  | record hfields =>
    dsimp only
    rw [modify_eq_put hfind, modify_eq_put hfind']
    exact ⟨rfl, hh.put ho (.record (hfields.withField field hv))⟩
  | array => exact ⟨.unknownObject ho, hh⟩

theorem Alike.arrayLength : GiveAlike r Eq (h.arrayLength o) (h'.arrayLength o') := by
  obtain ⟨object, object', hfind, hfind', hobject⟩ := hh.objects o o' ho
  rw [Heap.arrayLength, Heap.arrayLength, hfind, hfind']
  cases hobject with
  | record => exact .unknownObject ho
  | array hcells => exact hcells.size_eq.symm

theorem Alike.getIndex (index : Int64) :
    GiveAlike r (Value.Alike r) (h.getIndex o index) (h'.getIndex o' index) := by
  obtain ⟨object, object', hfind, hfind', hobject⟩ := hh.objects o o' ho
  rw [Heap.getIndex, Heap.getIndex, hfind, hfind']
  cases hobject with
  | record => exact .unknownObject ho
  | @array cells cells' hcells =>
    dsimp only
    rw [hcells.size_eq]
    refine (checkedIndex_alike r index cells.size).map ?_
    rintro i _ rfl
    exact hcells.getD i

theorem Alike.setIndex (index : Int64) (hv : v.Alike r v') :
    GiveAlike r Eq (h.setIndex o index v).1 (h'.setIndex o' index v').1 ∧
      (h.setIndex o index v).2.Alike r (h'.setIndex o' index v').2 := by
  obtain ⟨object, object', hfind, hfind', hobject⟩ := hh.objects o o' ho
  cases hobject with
  | record =>
    have hlength : h.arrayLength o = .error (.unknownObject o) := by rw [Heap.arrayLength, hfind]
    have hlength' : h'.arrayLength o' = .error (.unknownObject o') := by
      rw [Heap.arrayLength, hfind']
    rw [Heap.setIndex, Heap.setIndex, hlength, hlength']
    exact ⟨.unknownObject ho, hh⟩
  | @array cells cells' hcells =>
    rw [Heap.setIndex, Heap.setIndex, arrayLength_eq hfind, arrayLength_eq hfind', hcells.size_eq]
    dsimp only
    have hindex := checkedIndex_alike r index cells.size
    cases hcheck : checkedIndex index cells.size with
    | error e =>
      rw [hcheck] at hindex
      exact ⟨hindex, hh⟩
    | ok i =>
      dsimp only
      rw [modify_eq_put hfind, modify_eq_put hfind']
      exact ⟨rfl, hh.put ho (.array (hcells.set hv i))⟩

end

theorem Alike.allocArray (hh : h.Alike r h') (length : Int64) :
    (∃ e, e.Alike r e ∧ h.allocArray length = (.error e, h) ∧
        h'.allocArray length = (.error e, h')) ∨
      ∃ object, object.Alike r object ∧
        h.allocArray length = (.ok h.nextObject, h.push object) ∧
        h'.allocArray length = (.ok h'.nextObject, h'.push object) := by
  obtain ⟨hlimit, hcapacity⟩ := Prod.mk.inj hh.limits
  have hfault : h'.lengthFault? length (h'.hasRoom length) =
      h.lengthFault? length (h.hasRoom length) := by
    rw [lengthFault?, lengthFault?, hasRoom, hasRoom, hlimit, hcapacity]
  rw [Heap.allocArray, Heap.allocArray]
  rcases h.allocArrayIf_cases length (h.hasRoom length) with ⟨hnone, halloc⟩ | ⟨e, hsome, halloc⟩
  · refine .inr ⟨_, .array (.replicate _), halloc, ?_⟩
    rw [allocArrayIf, hfault, hnone]
  · exact .inl ⟨e, lengthFault?_alike hsome, halloc, by rw [allocArrayIf, hfault, hsome]⟩

end Heap

end

end Opstack
