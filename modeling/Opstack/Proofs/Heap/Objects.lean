import Opstack.Heap

/-!
# Looking up objects

A heap is the list of its objects, but everything else that is said about a heap is said in terms of
`Heap.find?`: `find?_push` and `find?_put` say what becomes of the objects when one is added and
when one is changed, and the operations on the heap do nothing else.

`Heap.setField_cases`, `Heap.allocArrayIf_cases` and `Heap.setIndex_cases` take each operation that
can fail apart, so that nothing behind them unfolds it again.
-/

set_option autoImplicit false

namespace Opstack

/-! ## Fields -/

theorem fieldOf?_withField (fields : List (String × Value)) (field : String) (v : Value)
    (name : String) :
    fieldOf? (withField fields field v) name =
      if name = field then some v else fieldOf? fields name := by
  induction fields with
  | nil =>
    rw [withField, fieldOf?, fieldOf?, List.lookup_cons]
    by_cases h : name = field
    · rw [if_pos h, beq_iff_eq.mpr h]
    · rw [if_neg h, beq_eq_false_iff_ne.mpr h]
  | cons entry rest ih =>
    obtain ⟨key, old⟩ := entry
    simp only [fieldOf?] at ih ⊢
    rw [withField]
    by_cases hkey : key = field
    · rw [if_pos hkey, List.lookup_cons, List.lookup_cons, hkey]
      by_cases h : name = field
      · rw [if_pos h, beq_iff_eq.mpr h]
      · rw [if_neg h, beq_eq_false_iff_ne.mpr h]
    · rw [if_neg hkey, List.lookup_cons, List.lookup_cons, ih]
      by_cases h : name = key
      · have hne : name ≠ field := h ▸ hkey
        rw [beq_iff_eq.mpr h]
        exact (if_neg hne).symm
      · rw [beq_eq_false_iff_ne.mpr h]

/-- The object is a record. -/
def Obj.isRecord : Obj → Bool
  | .record _ => true
  | .array _ => false

namespace Heap

variable {h : Heap} {o : ObjectId} {object : Obj}

/-! ## Numbers of objects -/

theorem find?_eq_some :
    h.find? o = some object ↔
      ∃ place, o = firstObject + place ∧ h.objects[place]? = some object := by
  rw [find?]
  constructor
  · intro hfind
    split at hfind
    · cases hfind
    · rename_i hlt
      exact ⟨o - firstObject, (Nat.add_sub_cancel' (Nat.le_of_not_lt hlt)).symm, hfind⟩
  · rintro ⟨place, rfl, hplace⟩
    rw [if_neg (Nat.not_lt_of_le (Nat.le_add_right _ _)), Nat.add_sub_cancel_left]
    exact hplace

/-- The objects have the numbers from the first one to the last one given out. -/
theorem isSome_find? : (h.find? o).isSome = true ↔ firstObject ≤ o ∧ o < h.nextObject := by
  rw [Option.isSome_iff_exists]
  constructor
  · rintro ⟨object, hfind⟩
    obtain ⟨place, rfl, hplace⟩ := find?_eq_some.mp hfind
    obtain ⟨hlt, -⟩ := Array.getElem?_eq_some_iff.mp hplace
    exact ⟨Nat.le_add_right _ _, Nat.add_lt_add_left hlt _⟩
  · rintro ⟨hle, hlt⟩
    obtain ⟨place, rfl⟩ := Nat.exists_eq_add_of_le hle
    have hplace : place < h.objects.size := Nat.lt_of_add_lt_add_left hlt
    exact ⟨_, find?_eq_some.mpr ⟨place, rfl, Array.getElem?_eq_getElem hplace⟩⟩

/-- The next object has a number that no object has. -/
theorem find?_nextObject (h : Heap) : h.find? h.nextObject = none := by
  rw [← Option.not_isSome_iff_eq_none, isSome_find?]
  exact fun hnext => Nat.lt_irrefl _ hnext.2

/-! ## One more object -/

theorem find?_push (h : Heap) (object : Obj) (o : ObjectId) :
    (h.push object).find? o = if o = h.nextObject then some object else h.find? o := by
  by_cases hlt : o < firstObject
  · have hne : o ≠ h.nextObject :=
      Nat.ne_of_lt (Nat.lt_of_lt_of_le hlt (Nat.le_add_right _ _))
    rw [if_neg hne, find?, find?, if_pos hlt, if_pos hlt]
  · obtain ⟨place, rfl⟩ := Nat.exists_eq_add_of_le (Nat.le_of_not_lt hlt)
    rw [find?, find?, if_neg hlt, if_neg hlt, Nat.add_sub_cancel_left, push, Array.getElem?_push,
      nextObject]
    simp only [Nat.add_left_cancel_iff]

/-! ## Another object in the place of one -/

/-- The heap with another object in the place of the one with a number. -/
def put (h : Heap) (o : ObjectId) (object : Obj) : Heap := h.modify o fun _ => object

/-- What bounds the arrays of the heap: the limit on their lengths, and the room for their cells. -/
def limits (h : Heap) : Nat × Nat := (h.maxArrayLength, h.capacity)

@[simp] theorem limits_put (h : Heap) (o : ObjectId) (object : Obj) :
    (h.put o object).limits = h.limits := by
  rw [put, modify]
  split <;> rfl

@[simp] theorem size_objects_put (h : Heap) (o : ObjectId) (object : Obj) :
    (h.put o object).objects.size = h.objects.size := by
  rw [put, modify]
  split
  · rfl
  · exact Array.size_modify

theorem find?_put {old : Obj} (hold : h.find? o = some old) (object : Obj) (other : ObjectId) :
    (h.put o object).find? other = if other = o then some object else h.find? other := by
  obtain ⟨place, rfl, hplace⟩ := find?_eq_some.mp hold
  have hle : ¬ firstObject + place < firstObject := Nat.not_lt_of_le (Nat.le_add_right _ _)
  rw [put, modify, if_neg hle, Nat.add_sub_cancel_left]
  by_cases hlt : other < firstObject
  · have hne : other ≠ firstObject + place :=
      Nat.ne_of_lt (Nat.lt_of_lt_of_le hlt (Nat.le_add_right _ _))
    rw [if_neg hne, find?, find?, if_pos hlt, if_pos hlt]
  · obtain ⟨place', rfl⟩ := Nat.exists_eq_add_of_le (Nat.le_of_not_lt hlt)
    rw [find?, find?, if_neg hlt, if_neg hlt, Nat.add_sub_cancel_left, Array.getElem?_modify]
    simp only [Nat.add_left_cancel_iff]
    by_cases heq : place' = place
    · rw [if_pos heq.symm, if_pos heq, heq, hplace]
      rfl
    · rw [if_neg (Ne.symm heq), if_neg heq]

/-- Changing an object is putting the changed one in its place. -/
theorem modify_eq_put {f : Obj → Obj} (hfind : h.find? o = some object) :
    h.modify o f = h.put o (f object) := by
  obtain ⟨place, rfl, hplace⟩ := find?_eq_some.mp hfind
  have hle : ¬ firstObject + place < firstObject := Nat.not_lt_of_le (Nat.le_add_right _ _)
  rw [put, modify, modify, if_neg hle, if_neg hle, Nat.add_sub_cancel_left]
  congr 1
  refine Array.ext_getElem? fun i => ?_
  rw [Array.getElem?_modify, Array.getElem?_modify]
  split
  · rename_i heq
    rw [← heq, hplace]
    rfl
  · rfl

/-! ## Kinds of objects -/

theorem isRecord_iff : h.isRecord o = true ↔ ∃ fields, h.find? o = some (.record fields) := by
  rw [isRecord]
  split
  · rename_i fields hfind
    exact ⟨fun _ => ⟨fields, hfind⟩, fun _ => rfl⟩
  · rename_i hother
    exact ⟨fun hfalse => (by cases hfalse), fun ⟨fields, hfind⟩ => absurd hfind (hother fields)⟩

theorem isArray_iff : h.isArray o = true ↔ ∃ cells, h.find? o = some (.array cells) := by
  rw [isArray]
  split
  · rename_i cells hfind
    exact ⟨fun _ => ⟨cells, hfind⟩, fun _ => rfl⟩
  · rename_i hother
    exact ⟨fun hfalse => (by cases hfalse), fun ⟨cells, hfind⟩ => absurd hfind (hother cells)⟩

/-- Every object is of one of the two kinds. -/
theorem isSome_find?_iff :
    (h.find? o).isSome = true ↔ h.isRecord o = true ∨ h.isArray o = true := by
  rw [isRecord_iff, isArray_iff, Option.isSome_iff_exists]
  constructor
  · rintro ⟨object, hfind⟩
    cases object with
    | record fields => exact .inl ⟨fields, hfind⟩
    | array cells => exact .inr ⟨cells, hfind⟩
  · rintro (⟨fields, hfind⟩ | ⟨cells, hfind⟩)
    · exact ⟨_, hfind⟩
    · exact ⟨_, hfind⟩

/-- No object is of both kinds. -/
theorem not_isRecord_and_isArray : ¬ (h.isRecord o = true ∧ h.isArray o = true) := by
  rw [isRecord_iff, isArray_iff]
  rintro ⟨⟨fields, hfields⟩, cells, hcells⟩
  cases hfields.symm.trans hcells

theorem isRecord_eq (h : Heap) (o : ObjectId) :
    h.isRecord o = (h.find? o).any Obj.isRecord := by
  rw [isRecord]
  rcases h.find? o with _ | (fields | cells) <;> rfl

theorem isArray_eq (h : Heap) (o : ObjectId) :
    h.isArray o = (h.find? o).any fun object => !object.isRecord := by
  rw [isArray]
  rcases h.find? o with _ | (fields | cells) <;> rfl

theorem isRecord_nextObject (h : Heap) : h.isRecord h.nextObject = false := by
  rw [isRecord_eq, find?_nextObject, Option.any_none]

theorem isArray_nextObject (h : Heap) : h.isArray h.nextObject = false := by
  rw [isArray_eq, find?_nextObject, Option.any_none]

theorem isRecord_push (h : Heap) (object : Obj) (o : ObjectId) :
    (h.push object).isRecord o = if o = h.nextObject then object.isRecord else h.isRecord o := by
  rw [isRecord_eq, isRecord_eq, find?_push]
  split <;> rfl

theorem isArray_push (h : Heap) (object : Obj) (o : ObjectId) :
    (h.push object).isArray o = if o = h.nextObject then !object.isRecord else h.isArray o := by
  rw [isArray_eq, isArray_eq, find?_push]
  split <;> rfl

/-- What is so of an object and of the one in its place is so of all objects as before. -/
theorem any_find?_put {old : Obj} (hold : h.find? o = some old) {p : Obj → Bool}
    (hp : p object = p old) (other : ObjectId) :
    ((h.put o object).find? other).any p = (h.find? other).any p := by
  rw [find?_put hold]
  split
  · rename_i heq
    rw [heq, hold, Option.any_some, Option.any_some, hp]
  · rfl

/-- An object of the same kind in the place of one changes no kind. -/
theorem isRecord_put {old : Obj} (hold : h.find? o = some old)
    (hkind : object.isRecord = old.isRecord) (other : ObjectId) :
    (h.put o object).isRecord other = h.isRecord other := by
  rw [isRecord_eq, isRecord_eq, any_find?_put hold hkind]

theorem isArray_put {old : Obj} (hold : h.find? o = some old)
    (hkind : object.isRecord = old.isRecord) (other : ObjectId) :
    (h.put o object).isArray other = h.isArray other := by
  rw [isArray_eq, isArray_eq, any_find?_put hold (congrArg not hkind)]

/-! ## Counts -/

theorem recordCount_eq (h : Heap) :
    h.recordCount = (h.objects.toList.map Obj.isRecord).count true := by
  rw [recordCount, List.count_eq_countP, List.countP_map]
  congr 1
  funext object
  cases object <;> rfl

theorem arrayCount_eq (h : Heap) :
    h.arrayCount = (h.objects.toList.map Obj.isRecord).count false := by
  rw [arrayCount, List.count_eq_countP, List.countP_map]
  congr 1
  funext object
  cases object <;> rfl

theorem map_isRecord_push (h : Heap) (object : Obj) :
    (h.push object).objects.toList.map Obj.isRecord =
      h.objects.toList.map Obj.isRecord ++ [object.isRecord] := by
  rw [push, Array.toList_push, List.map_append, List.map_singleton]

theorem recordCount_push (h : Heap) (object : Obj) :
    (h.push object).recordCount = h.recordCount + object.isRecord.toNat := by
  rw [recordCount_eq, map_isRecord_push, List.count_append, ← recordCount_eq]
  cases object <;> rfl

theorem arrayCount_push (h : Heap) (object : Obj) :
    (h.push object).arrayCount = h.arrayCount + (!object.isRecord).toNat := by
  rw [arrayCount_eq, map_isRecord_push, List.count_append, ← arrayCount_eq]
  cases object <;> rfl

theorem map_isRecord_put {old : Obj} (hold : h.find? o = some old)
    (hkind : object.isRecord = old.isRecord) :
    (h.put o object).objects.toList.map Obj.isRecord = h.objects.toList.map Obj.isRecord := by
  obtain ⟨place, rfl, hplace⟩ := find?_eq_some.mp hold
  have hle : ¬ firstObject + place < firstObject := Nat.not_lt_of_le (Nat.le_add_right _ _)
  rw [put, modify, if_neg hle, Nat.add_sub_cancel_left]
  refine List.ext_getElem? fun i => ?_
  rw [List.getElem?_map, List.getElem?_map, Array.getElem?_toList, Array.getElem?_toList,
    Array.getElem?_modify]
  split
  · rename_i heq
    rw [← heq, hplace, Option.map_some, Option.map_some, Option.map_some, hkind]
  · rfl

theorem recordCount_put {old : Obj} (hold : h.find? o = some old)
    (hkind : object.isRecord = old.isRecord) : (h.put o object).recordCount = h.recordCount := by
  rw [recordCount_eq, map_isRecord_put hold hkind, ← recordCount_eq]

theorem arrayCount_put {old : Obj} (hold : h.find? o = some old)
    (hkind : object.isRecord = old.isRecord) : (h.put o object).arrayCount = h.arrayCount := by
  rw [arrayCount_eq, map_isRecord_put hold hkind, ← arrayCount_eq]

/-- Records and arrays are all the objects. -/
theorem recordCount_add_arrayCount (h : Heap) :
    h.recordCount + h.arrayCount = h.objects.size := by
  rw [recordCount, arrayCount, ← Array.length_toList]
  generalize h.objects.toList = objects
  induction objects with
  | nil => rfl
  | cons object rest ih =>
    rw [List.countP_cons, List.countP_cons, List.length_cons, ← ih]
    cases object <;> simp only [if_true, Bool.false_eq_true, if_false] <;> omega

/-! ## Operations that can fail -/

/-- Setting a field gives a record one more field or another value of one, and fails otherwise. -/
theorem setField_cases (h : Heap) (o : ObjectId) (field : String) (v : Value) :
    (∃ fields, h.find? o = some (.record fields) ∧
        h.setField o field v = (.ok (), h.put o (.record (withField fields field v)))) ∨
      h.isRecord o = false ∧ h.setField o field v = (.error (.unknownObject o), h) := by
  rw [setField]
  split
  · rename_i fields hfind
    exact .inl ⟨fields, hfind, by rw [modify_eq_put hfind]⟩
  · rename_i hother
    refine .inr ⟨?_, rfl⟩
    rw [← Bool.not_eq_true, isRecord_iff]
    rintro ⟨fields, hfind⟩
    exact hother fields hfind

/-- Getting a field gives the value of one, and fails if the field was never set or there is no
record. -/
theorem getField_cases (h : Heap) (o : ObjectId) (field : String) :
    (∃ fields v, h.find? o = some (.record fields) ∧ fieldOf? fields field = some v ∧
        h.getField o field = .ok v) ∨
      (∃ fields, h.find? o = some (.record fields) ∧ fieldOf? fields field = none ∧
        h.getField o field = .error (.unsetField field)) ∨
      h.isRecord o = false ∧ h.getField o field = .error (.unknownObject o) := by
  cases hrecord : h.isRecord o with
  | true =>
    obtain ⟨fields, hfind⟩ := isRecord_iff.mp hrecord
    cases hfield : fieldOf? fields field with
    | some v => exact .inl ⟨fields, v, hfind, hfield, by simp only [getField, hfind, hfield]⟩
    | none => exact .inr (.inl ⟨fields, hfind, hfield, by simp only [getField, hfind, hfield]⟩)
  | false =>
    refine .inr (.inr ⟨rfl, ?_⟩)
    rw [← Bool.not_eq_true, isRecord_iff] at hrecord
    rw [getField]
    split
    · rename_i fields hfind
      exact absurd ⟨fields, hfind⟩ hrecord
    · rfl

theorem getField_eq_ok {field : String} {v : Value} : h.getField o field = .ok v ↔
    ∃ fields, h.find? o = some (.record fields) ∧ fieldOf? fields field = some v := by
  constructor
  · intro hok
    rcases h.getField_cases o field with ⟨fields, w, hfind, hw, heq⟩ | ⟨fields, -, -, heq⟩ |
      ⟨-, heq⟩ <;> cases heq.symm.trans hok
    exact ⟨fields, hfind, hw⟩
  · rintro ⟨fields, hfind, hv⟩
    simp only [getField, hfind, hv]

/-- Allocating an array adds it with `null` in its cells, and fails if its length is at fault. -/
theorem allocArrayIf_cases (h : Heap) (length : Int64) (hasRoom : Bool) :
    (h.lengthFault? length hasRoom = none ∧ h.allocArrayIf length hasRoom =
        (.ok h.nextObject, h.push (.array (Array.replicate length.toInt.toNat .null)))) ∨
      ∃ e, h.lengthFault? length hasRoom = some e ∧
        h.allocArrayIf length hasRoom = (.error e, h) := by
  rw [allocArrayIf]
  cases hfault : h.lengthFault? length hasRoom with
  | none => exact .inl ⟨rfl, rfl⟩
  | some e => exact .inr ⟨e, rfl, rfl⟩

theorem arrayLength_eq {cells : Array Value} (hfind : h.find? o = some (.array cells)) :
    h.arrayLength o = .ok cells.size := by
  rw [arrayLength, hfind]

theorem arrayLength_unknown (harray : h.isArray o = false) :
    h.arrayLength o = .error (.unknownObject o) := by
  rw [← Bool.not_eq_true, isArray_iff] at harray
  rw [arrayLength]
  split
  · rename_i cells hfind
    exact absurd ⟨cells, hfind⟩ harray
  · rfl

/-- Getting a cell gives its value, and fails if there is no array or no such cell. -/
theorem getIndex_cases (h : Heap) (o : ObjectId) (index : Int64) :
    (∃ cells i, h.find? o = some (.array cells) ∧ checkedIndex index cells.size = .ok i ∧
        h.getIndex o index = .ok (cells[i]?.getD .null)) ∨
      (∃ cells e, h.find? o = some (.array cells) ∧ checkedIndex index cells.size = .error e ∧
        h.getIndex o index = .error e) ∨
      h.isArray o = false ∧ h.getIndex o index = .error (.unknownObject o) := by
  cases harray : h.isArray o with
  | true =>
    obtain ⟨cells, hfind⟩ := isArray_iff.mp harray
    cases hindex : checkedIndex index cells.size with
    | ok i =>
      refine .inl ⟨cells, i, hfind, hindex, ?_⟩
      simp only [getIndex, hfind, hindex, Except.map]
    | error e =>
      refine .inr (.inl ⟨cells, e, hfind, hindex, ?_⟩)
      simp only [getIndex, hfind, hindex, Except.map]
  | false =>
    refine .inr (.inr ⟨rfl, ?_⟩)
    rw [← Bool.not_eq_true, isArray_iff] at harray
    rw [getIndex]
    split
    · rename_i cells hfind
      exact absurd ⟨cells, hfind⟩ harray
    · rfl

/-- Setting a cell gives it another value, and fails if there is no array or no such cell. -/
theorem setIndex_cases (h : Heap) (o : ObjectId) (index : Int64) (v : Value) :
    (∃ cells i, h.find? o = some (.array cells) ∧ checkedIndex index cells.size = .ok i ∧
        h.setIndex o index v = (.ok (), h.put o (.array (cells.setIfInBounds i v)))) ∨
      (∃ cells e, h.find? o = some (.array cells) ∧ checkedIndex index cells.size = .error e ∧
        h.setIndex o index v = (.error e, h)) ∨
      h.isArray o = false ∧ h.setIndex o index v = (.error (.unknownObject o), h) := by
  cases harray : h.isArray o with
  | false => exact .inr (.inr ⟨rfl, by rw [setIndex, arrayLength_unknown harray]⟩)
  | true =>
    obtain ⟨cells, hfind⟩ := isArray_iff.mp harray
    rw [setIndex, arrayLength_eq hfind]
    dsimp only
    cases hindex : checkedIndex index cells.size with
    | error e => exact .inr (.inl ⟨cells, e, hfind, hindex, rfl⟩)
    | ok i =>
      dsimp only
      exact .inl ⟨cells, i, hfind, hindex, by rw [modify_eq_put hfind]⟩

end Heap
end Opstack
