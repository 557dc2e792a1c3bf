import Opstack.Heap.Tables
import Opstack.Proofs.Heap.History

/-!
# Two tables and one counter

The records and the arrays of a machine are in two tables that have no part in common but the
counter their numbers come from.  `Tables.Holds` relates them to a heap, which has all objects in
one list: the counter stands at the number of the next object, and under each number there is in
one table what the heap has there, and nothing in the other one.  `Tables.Holds.serve` says of every
request, those that fail included, that it is answered alike and keeps this so, as long as the
counter does not begin again.

* `Tables.Holds.log`: a history of the tables is one of the heap.
* `Tables.numbers_in_order`: the objects have the numbers from the first one on in the order of
  their allocation, each keeps its kind, and a failed allocation takes no number.
-/

set_option autoImplicit false

namespace Opstack

open Heap (Request Reply Entry)

/-! ## Tables -/

namespace Table

variable {α : Type} {s : Table α} {o : ObjectId}

theorem lookup_insert (s : Table α) (o : ObjectId) (a : α) (other : ObjectId) :
    (AList.insert o a s).lookup other = if other = o then some a else s.lookup other := by
  split
  · rename_i heq
    rw [heq, AList.lookup_insert]
  · rename_i hne
    rw [AList.lookup_insert_ne hne]

/-- A new number is one more. -/
theorem length_keys_insert_of_new (hnew : s.lookup o = none) (a : α) :
    (AList.insert o a s).keys.length = s.keys.length + 1 := by
  rw [AList.keys_insert, List.length_cons, List.erase_of_not_mem]
  exact AList.lookup_eq_none.mp hnew

/-- There are as many numbers as before when there was something under the number. -/
theorem length_keys_insert_of_old {old : α} (hold : s.lookup o = some old) (a : α) :
    (AList.insert o a s).keys.length = s.keys.length := by
  have hmem : o ∈ s.keys := AList.mem_keys.mp (AList.lookup_isSome.mp (by rw [hold]; rfl))
  rw [AList.keys_insert, List.length_cons, List.length_erase_of_mem hmem]
  exact Nat.sub_add_cancel (List.length_pos_of_mem hmem)

end Table

/-- The fields of the object, if it is a record. -/
def Obj.fields? : Obj → Option (List (String × Value))
  | .record fields => some fields
  | .array _ => none

/-- The cells of the object, if it is an array. -/
def Obj.cells? : Obj → Option (Array Value)
  | .record _ => none
  | .array cells => some cells

namespace Tables

/-! ## Histories -/

/-- Answers a request. -/
def serve (t : Tables) : Request → Except Fault Reply × Tables
  | .allocRecord => (.ok (.object t.allocRecord.1), t.allocRecord.2)
  | .setField o field v => ((t.setField o field v).1.map fun _ => .done, (t.setField o field v).2)
  | .getField o field => ((t.getField o field).map .value, t)
  | .allocArray length hasRoom =>
    ((t.allocArray length hasRoom).1.map .object, (t.allocArray length hasRoom).2)
  | .arrayLength o => ((t.arrayLength o).map .number, t)
  | .getIndex o index => ((t.getIndex o index).map .value, t)
  | .setIndex o index v => ((t.setIndex o index v).1.map fun _ => .done, (t.setIndex o index v).2)
  | .isRecord o => (.ok (.truth (t.isRecord o)), t)
  | .isArray o => (.ok (.truth (t.isArray o)), t)
  | .recordCount => (.ok (.number t.recordCount), t)
  | .arrayCount => (.ok (.number t.arrayCount), t)

/-- The tables after a list of requests. -/
def after (t : Tables) (requests : List Request) : Tables :=
  requests.foldl (fun t r => (t.serve r).2) t

/-- A list of requests with their answers. -/
def log : Tables → List Request → List Entry
  | _, [] => []
  | t, r :: rest => ⟨r, (t.serve r).1⟩ :: log (t.serve r).2 rest

/-- Tables without objects. -/
def fresh (limit : Nat) : Tables := { maxArrayLength := limit }

/-- How many numbers were handed out. -/
def drawn (log : List Entry) : Nat := (log.filterMap Entry.object?).length

theorem drawn_cons (entry : Entry) (log : List Entry) :
    drawn (entry :: log) = drawn [entry] + drawn log := by
  rw [drawn, ← List.singleton_append, List.filterMap_append, List.length_append]
  rfl

/-! ## One list for both tables -/

/-- The tables hold the objects of a heap, each kind in its own. -/
structure Holds (t : Tables) (h : Heap) : Prop where
  /-- The next number is that of the next object. -/
  next : t.next.toNat = h.nextObject
  /-- The records are in one table. -/
  records : ∀ o, t.records.lookup o = (h.find? o).bind Obj.fields?
  /-- The arrays are in the other one. -/
  arrays : ∀ o, t.arrays.lookup o = (h.find? o).bind Obj.cells?
  /-- No record is missing in the table. -/
  recordCount : t.recordCount = h.recordCount
  /-- No array is missing in the table. -/
  arrayCount : t.arrayCount = h.arrayCount
  /-- Arrays may be equally long. -/
  limit : t.maxArrayLength = h.maxArrayLength

namespace Holds

variable {t : Tables} {h : Heap} {o : ObjectId}

/-- Nothing is under the next number. -/
theorem records_next (hold : t.Holds h) : t.records.lookup t.next.toNat = none := by
  rw [hold.records, hold.next, h.find?_nextObject, Option.bind_none]

theorem arrays_next (hold : t.Holds h) : t.arrays.lookup t.next.toNat = none := by
  rw [hold.arrays, hold.next, h.find?_nextObject, Option.bind_none]

theorem toNat_next (hold : t.Holds h) (hroom : t.next.toNat + 1 < Nat.pow 2 64) (object : Obj) :
    (t.next + 1).toNat = (h.push object).nextObject := by
  have hsum : (t.next + 1).toNat = t.next.toNat + 1 := by
    rw [UInt64.toNat_add]
    exact Nat.mod_eq_of_lt hroom
  rw [hsum, hold.next, Heap.nextObject, Heap.nextObject, Heap.push, Array.size_push, Nat.add_assoc]

/-- A new record. -/
theorem push_record (hold : t.Holds h) (hroom : t.next.toNat + 1 < Nat.pow 2 64)
    (fields : List (String × Value)) :
    Holds { t with records := AList.insert t.next.toNat fields t.records, next := t.next + 1 }
      (h.push (.record fields)) where
  next := hold.toNat_next hroom _
  records o := by
    rw [Table.lookup_insert, Heap.find?_push, hold.next, hold.records]
    split <;> rfl
  arrays o := by
    rw [Heap.find?_push, hold.arrays]
    split
    · rename_i heq
      rw [heq, h.find?_nextObject]
      rfl
    · rfl
  recordCount := by
    rw [Heap.recordCount_push, ← hold.recordCount]
    exact Table.length_keys_insert_of_new hold.records_next _
  arrayCount := by
    rw [Heap.arrayCount_push, ← hold.arrayCount]
    rfl
  limit := hold.limit

/-- A new array. -/
theorem push_array (hold : t.Holds h) (hroom : t.next.toNat + 1 < Nat.pow 2 64)
    (cells : Array Value) :
    Holds { t with arrays := AList.insert t.next.toNat cells t.arrays, next := t.next + 1 }
      (h.push (.array cells)) where
  next := hold.toNat_next hroom _
  records o := by
    rw [Heap.find?_push, hold.records]
    split
    · rename_i heq
      rw [heq, h.find?_nextObject]
      rfl
    · rfl
  arrays o := by
    rw [Table.lookup_insert, Heap.find?_push, hold.next, hold.arrays]
    split <;> rfl
  recordCount := by
    rw [Heap.recordCount_push, ← hold.recordCount]
    rfl
  arrayCount := by
    rw [Heap.arrayCount_push, ← hold.arrayCount]
    exact Table.length_keys_insert_of_new hold.arrays_next _
  limit := hold.limit

/-- Other fields for a record. -/
theorem put_record (hold : t.Holds h) {old : List (String × Value)}
    (hfind : h.find? o = some (.record old)) (fields : List (String × Value)) :
    Holds { t with records := AList.insert o fields t.records } (h.put o (.record fields)) where
  next := by
    rw [hold.next, Heap.nextObject, Heap.nextObject, Heap.size_objects_put]
  records other := by
    rw [Table.lookup_insert, Heap.find?_put hfind, hold.records]
    split <;> rfl
  arrays other := by
    rw [Heap.find?_put hfind, hold.arrays]
    split
    · rename_i heq
      rw [heq, hfind]
      rfl
    · rfl
  recordCount := by
    have hlookup : t.records.lookup o = some old := by
      rw [hold.records, hfind]
      rfl
    have hkind : (Obj.record fields).isRecord = (Obj.record old).isRecord := rfl
    rw [Heap.recordCount_put hfind hkind, ← hold.recordCount]
    exact Table.length_keys_insert_of_old hlookup _
  arrayCount := by
    have hkind : (Obj.record fields).isRecord = (Obj.record old).isRecord := rfl
    rw [Heap.arrayCount_put hfind hkind, ← hold.arrayCount]
    rfl
  limit := by
    rw [hold.limit]
    exact (congrArg Prod.fst (h.limits_put o _)).symm

/-- Other cells for an array. -/
theorem put_array (hold : t.Holds h) {old : Array Value}
    (hfind : h.find? o = some (.array old)) (cells : Array Value) :
    Holds { t with arrays := AList.insert o cells t.arrays } (h.put o (.array cells)) where
  next := by
    rw [hold.next, Heap.nextObject, Heap.nextObject, Heap.size_objects_put]
  records other := by
    rw [Heap.find?_put hfind, hold.records]
    split
    · rename_i heq
      rw [heq, hfind]
      rfl
    · rfl
  arrays other := by
    rw [Table.lookup_insert, Heap.find?_put hfind, hold.arrays]
    split <;> rfl
  recordCount := by
    have hkind : (Obj.array cells).isRecord = (Obj.array old).isRecord := rfl
    rw [Heap.recordCount_put hfind hkind, ← hold.recordCount]
    rfl
  arrayCount := by
    have hlookup : t.arrays.lookup o = some old := by
      rw [hold.arrays, hfind]
      rfl
    have hkind : (Obj.array cells).isRecord = (Obj.array old).isRecord := rfl
    rw [Heap.arrayCount_put hfind hkind, ← hold.arrayCount]
    exact Table.length_keys_insert_of_old hlookup _
  limit := by
    rw [hold.limit]
    exact (congrArg Prod.fst (h.limits_put o _)).symm

/-! ### One request -/

theorem setField (hold : t.Holds h) (o : ObjectId) (field : String) (v : Value) :
    (t.setField o field v).1 = (h.setField o field v).1 ∧
      (t.setField o field v).2.Holds (h.setField o field v).2 := by
  rw [Tables.setField, Heap.setField, hold.records]
  cases hfind : h.find? o with
  | none => exact ⟨rfl, hold⟩
  | some object =>
    cases object with
    | record fields =>
      refine ⟨rfl, ?_⟩
      dsimp only
      rw [Heap.modify_eq_put hfind]
      exact hold.put_record hfind _
    | array cells => exact ⟨rfl, hold⟩

theorem setIndex (hold : t.Holds h) (o : ObjectId) (index : Int64) (v : Value) :
    (t.setIndex o index v).1 = (h.setIndex o index v).1 ∧
      (t.setIndex o index v).2.Holds (h.setIndex o index v).2 := by
  rw [Tables.setIndex, Heap.setIndex, Heap.arrayLength, hold.arrays]
  cases hfind : h.find? o with
  | none => exact ⟨rfl, hold⟩
  | some object =>
    cases object with
    | record fields => exact ⟨rfl, hold⟩
    | array cells =>
      dsimp only [Option.bind_some, Obj.cells?]
      cases Heap.checkedIndex index cells.size with
      | error e => exact ⟨rfl, hold⟩
      | ok i =>
        refine ⟨rfl, ?_⟩
        dsimp only
        rw [Heap.modify_eq_put hfind]
        exact hold.put_array hfind _

theorem getField (hold : t.Holds h) (o : ObjectId) (field : String) :
    t.getField o field = h.getField o field := by
  rw [Tables.getField, Heap.getField, hold.records]
  cases h.find? o with
  | none => rfl
  | some object => cases object <;> rfl

theorem arrayLength (hold : t.Holds h) (o : ObjectId) : t.arrayLength o = h.arrayLength o := by
  rw [Tables.arrayLength, Heap.arrayLength, hold.arrays]
  cases h.find? o with
  | none => rfl
  | some object => cases object <;> rfl

theorem getIndex (hold : t.Holds h) (o : ObjectId) (index : Int64) :
    t.getIndex o index = h.getIndex o index := by
  rw [Tables.getIndex, Heap.getIndex, hold.arrays]
  cases h.find? o with
  | none => rfl
  | some object => cases object <;> rfl

theorem isRecord (hold : t.Holds h) (o : ObjectId) : t.isRecord o = h.isRecord o := by
  rw [Tables.isRecord, Heap.isRecord, hold.records]
  cases h.find? o with
  | none => rfl
  | some object => cases object <;> rfl

theorem isArray (hold : t.Holds h) (o : ObjectId) : t.isArray o = h.isArray o := by
  rw [Tables.isArray, Heap.isArray, hold.arrays]
  cases h.find? o with
  | none => rfl
  | some object => cases object <;> rfl

/-- An allocation of an array is refused by both, or both have a new one. -/
theorem allocArray_cases (hold : t.Holds h) (length : Int64) (hasRoom : Bool) :
    (∃ e, t.allocArray length hasRoom = (.error e, t) ∧
        h.allocArrayIf length hasRoom = (.error e, h)) ∨
      ∃ cells, t.allocArray length hasRoom = (.ok t.next.toNat,
          { t with arrays := AList.insert t.next.toNat cells t.arrays, next := t.next + 1 }) ∧
        h.allocArrayIf length hasRoom = (.ok h.nextObject, h.push (.array cells)) := by
  rw [Tables.allocArray, Heap.allocArrayIf, Heap.lengthFault?, ← hold.limit]
  by_cases hneg : length < 0
  · rw [if_pos hneg, if_pos hneg]
    exact .inl ⟨_, rfl, rfl⟩
  rw [if_neg hneg, if_neg hneg]
  by_cases hlong : t.maxArrayLength < length.toInt.toNat
  · rw [if_pos hlong, if_pos (.inl hlong)]
    exact .inl ⟨_, rfl, rfl⟩
  rw [if_neg hlong]
  cases hasRoom with
  | false =>
    rw [if_pos rfl, if_pos (.inr rfl)]
    exact .inl ⟨_, rfl, rfl⟩
  | true =>
    rw [if_neg Bool.noConfusion, if_neg fun h => h.elim hlong Bool.noConfusion]
    exact .inr ⟨_, rfl, rfl⟩

/-- **One request** is answered by the tables as by the heap, and leaves them holding what the heap
holds, as long as there is a number for a new object. -/
theorem serve (hold : t.Holds h) (r : Request)
    (hroom : t.next.toNat + drawn [⟨r, (t.serve r).1⟩] < Nat.pow 2 64) :
    (t.serve r).1 = (h.serve r).1 ∧ (t.serve r).2.Holds (h.serve r).2 := by
  cases r with
  | allocRecord =>
    exact ⟨congrArg (fun o => Except.ok (Reply.object o)) hold.next, hold.push_record hroom []⟩
  | allocArray length hasRoom =>
    rcases hold.allocArray_cases length hasRoom with ⟨e, halloc, halloc'⟩ | ⟨cells, halloc, halloc'⟩
    · rw [Tables.serve, Heap.serve, halloc, halloc']
      exact ⟨rfl, hold⟩
    · rw [Tables.serve, halloc] at hroom
      rw [Tables.serve, Heap.serve, halloc, halloc']
      exact ⟨congrArg (fun o => Except.ok (Reply.object o)) hold.next, hold.push_array hroom cells⟩
  | setField o field v =>
    obtain ⟨hanswer, hafter⟩ := hold.setField o field v
    exact ⟨congrArg (Except.map fun _ => Reply.done) hanswer, hafter⟩
  | setIndex o index v =>
    obtain ⟨hanswer, hafter⟩ := hold.setIndex o index v
    exact ⟨congrArg (Except.map fun _ => Reply.done) hanswer, hafter⟩
  | getField o field => exact ⟨congrArg (Except.map Reply.value) (hold.getField o field), hold⟩
  | arrayLength o => exact ⟨congrArg (Except.map Reply.number) (hold.arrayLength o), hold⟩
  | getIndex o index => exact ⟨congrArg (Except.map Reply.value) (hold.getIndex o index), hold⟩
  | isRecord o => exact ⟨congrArg (fun b => Except.ok (Reply.truth b)) (hold.isRecord o), hold⟩
  | isArray o => exact ⟨congrArg (fun b => Except.ok (Reply.truth b)) (hold.isArray o), hold⟩
  | recordCount => exact ⟨congrArg (fun n => Except.ok (Reply.number n)) hold.recordCount, hold⟩
  | arrayCount => exact ⟨congrArg (fun n => Except.ok (Reply.number n)) hold.arrayCount, hold⟩

/-! ### Histories -/

/-- The next number goes up by those that are handed out. -/
theorem nextObject_serve (h : Heap) (r : Request) :
    (h.serve r).2.nextObject = h.nextObject + drawn [⟨r, (h.serve r).1⟩] := by
  have hserves := h.serves r
  generalize (h.serve r).1 = answer, (h.serve r).2 = h' at hserves ⊢
  rw [Heap.nextObject, Heap.nextObject, Nat.add_assoc]
  cases hserves with
  | allocRecord | allocArray => exact congrArg _ (Array.size_push _)
  | setField | setIndex => exact congrArg _ (Heap.size_objects_put _ _ _)
  | asks _ hr =>
    cases r with
    | allocRecord | setField | allocArray | setIndex => cases hr
    | getField | arrayLength | getIndex | isRecord | isArray | recordCount | arrayCount => rfl
  | fails => cases r <;> rfl

/-- **A history of the tables is one of the heap**, as long as the counter does not begin again. -/
theorem log (hold : t.Holds h) (requests : List Request)
    (hroom : t.next.toNat + drawn (t.log requests) < Nat.pow 2 64) :
    t.log requests = h.log requests ∧ (t.after requests).Holds (h.after requests) := by
  induction requests generalizing t h with
  | nil => exact ⟨rfl, hold⟩
  | cons r rest ih =>
    rw [Tables.log, drawn_cons, ← Nat.add_assoc] at hroom
    obtain ⟨hanswer, hafter⟩ := hold.serve r (Nat.lt_of_le_of_lt (Nat.le_add_right _ _) hroom)
    rw [hold.next, hanswer, ← nextObject_serve, ← hafter.next] at hroom
    obtain ⟨hlog, hend⟩ := ih hafter hroom
    exact ⟨by rw [Tables.log, Heap.log, hanswer, hlog], hend⟩

end Holds

theorem holds_fresh (limit : Nat) : (fresh limit).Holds (Heap.fresh limit) where
  next := rfl
  records o := by simp [fresh, Heap.fresh, Heap.find?]
  arrays o := by simp [fresh, Heap.fresh, Heap.find?]
  recordCount := rfl
  arrayCount := rfl
  limit := rfl

/-! ## Numbers handed out -/

/-- The numbers handed out in a history are those of the objects in the tables. -/
structure Numbered (log : List Entry) (t : Tables) : Prop where
  /-- They go up from the first one by one. -/
  inOrder : log.filterMap Entry.object? = List.range' Heap.firstObject (drawn log)
  /-- The records have the numbers that records got. -/
  records : ∀ o, t.isRecord o = true ↔ o ∈ log.filterMap Entry.record?
  /-- The arrays have the numbers that arrays got. -/
  arrays : ∀ o, t.isArray o = true ↔ o ∈ log.filterMap Entry.array?
  /-- No number is one of a record and one of an array. -/
  disjoint : ∀ o, ¬ (t.isRecord o = true ∧ t.isArray o = true)
  /-- There are as many objects as numbers. -/
  count : t.recordCount + t.arrayCount = drawn log

theorem Holds.numbered {t : Tables} {h : Heap} {log : List Entry} (hold : t.Holds h)
    (hnum : Heap.Numbered log h) : Numbered log t where
  inOrder := by rw [drawn, hnum.inOrder, List.length_range']
  records o := by rw [hold.isRecord, hnum.records]
  arrays o := by rw [hold.isArray, hnum.arrays]
  disjoint o := by
    rw [hold.isRecord, hold.isArray]
    exact Heap.not_isRecord_and_isArray
  count := by
    rw [hold.recordCount, hold.arrayCount, h.recordCount_add_arrayCount, drawn, hnum.inOrder,
      List.length_range']

section

variable {t : Tables} {o : ObjectId}

theorem isSome_lookup_insert {α : Type} {s : Table α} (h : (s.lookup o).isSome = true)
    (other : ObjectId) (a : α) : ((AList.insert other a s).lookup o).isSome = true := by
  rw [Table.lookup_insert]
  split
  · rfl
  · exact h

/-- **An allocation of an array** is refused if the length is negative or above the limit or there
is no room, and otherwise the array is under the next number. -/
theorem allocArray_cases (t : Tables) (length : Int64) (hasRoom : Bool) :
    ((length < 0 ∨ t.maxArrayLength < length.toInt.toNat ∨ hasRoom = false) ∧
      ∃ e, t.allocArray length hasRoom = (.error e, t)) ∨
    (¬(length < 0 ∨ t.maxArrayLength < length.toInt.toNat ∨ hasRoom = false) ∧
      ∃ cells, t.allocArray length hasRoom = (.ok t.next.toNat,
        { t with arrays := AList.insert t.next.toNat cells t.arrays, next := t.next + 1 })) := by
  rw [allocArray]
  by_cases hneg : length < 0
  · exact .inl ⟨.inl hneg, _, if_pos hneg⟩
  by_cases hlong : t.maxArrayLength < length.toInt.toNat
  · exact .inl ⟨.inr (.inl hlong), _, by rw [if_neg hneg, if_pos hlong]⟩
  by_cases hroom : hasRoom = false
  · exact .inl ⟨.inr (.inr hroom), _, by rw [if_neg hneg, if_neg hlong, if_pos hroom]⟩
  · refine .inr ⟨fun h => h.elim hneg fun h => h.elim hlong hroom,
      Array.replicate length.toInt.toNat .null, ?_⟩
    rw [if_neg hneg, if_neg hlong, if_neg hroom]
    rfl

/-- No request takes a record away. -/
theorem isRecord_serve (h : t.isRecord o = true) (r : Request) :
    (t.serve r).2.isRecord o = true := by
  cases r with
  | allocRecord => exact isSome_lookup_insert h _ _
  | setField other field v =>
    rw [serve, setField]
    split
    · exact isSome_lookup_insert h _ _
    · exact h
  | allocArray length hasRoom =>
    rw [serve]
    rcases t.allocArray_cases length hasRoom with ⟨-, e, halloc⟩ | ⟨-, cells, halloc⟩
    all_goals
      rw [halloc]
      exact h
  | setIndex other index v =>
    rw [serve, setIndex]
    split
    · split <;> exact h
    · exact h
  | getField | arrayLength | getIndex | isRecord | isArray | recordCount | arrayCount => exact h

/-- No request takes an array away. -/
theorem isArray_serve (h : t.isArray o = true) (r : Request) :
    (t.serve r).2.isArray o = true := by
  cases r with
  | allocRecord => exact h
  | setField other field v =>
    rw [serve, setField]
    split <;> exact h
  | allocArray length hasRoom =>
    rw [serve]
    rcases t.allocArray_cases length hasRoom with ⟨-, e, halloc⟩ | ⟨-, cells, halloc⟩
    · rw [halloc]
      exact h
    · rw [halloc]
      exact isSome_lookup_insert h _ _
  | setIndex other index v =>
    rw [serve, setIndex]
    split
    · split
      · exact isSome_lookup_insert h _ _
      · exact h
    · exact h
  | getField | arrayLength | getIndex | isRecord | isArray | recordCount | arrayCount => exact h

theorem isRecord_after (h : t.isRecord o = true) (requests : List Request) :
    (t.after requests).isRecord o = true := by
  induction requests generalizing t with
  | nil => exact h
  | cons r rest ih => exact ih (isRecord_serve h r)

theorem isArray_after (h : t.isArray o = true) (requests : List Request) :
    (t.after requests).isArray o = true := by
  induction requests generalizing t with
  | nil => exact h
  | cons r rest ih => exact ih (isArray_serve h r)

/-- An allocation of an array fails exactly if the length is negative or above the limit or there
is no room, and then it leaves everything as it is. -/
theorem allocArray_fails_iff (t : Tables) (length : Int64) (hasRoom : Bool) :
    ((∃ e, (t.serve (.allocArray length hasRoom)).1 = .error e) ↔
        length < 0 ∨ t.maxArrayLength < length.toInt.toNat ∨ hasRoom = false) ∧
      ∀ e, (t.serve (.allocArray length hasRoom)).1 = .error e →
        (t.serve (.allocArray length hasRoom)).2 = t := by
  rw [serve]
  rcases t.allocArray_cases length hasRoom with ⟨hrefused, e, halloc⟩ | ⟨hgranted, cells, halloc⟩
  · rw [halloc]
    exact ⟨iff_of_true ⟨e, rfl⟩ hrefused, fun _ _ => rfl⟩
  · rw [halloc]
    exact ⟨iff_of_false (fun ⟨e, he⟩ => by cases he) hgranted, fun e he => by cases he⟩

end

/-- **Objects are numbered in the order of their allocation, and a number keeps its kind.**  In
every history of tables that began without objects, the numbers handed out are those from the first
one on, one after the other, as long as the counter does not begin again, and there are as many as
there are records and arrays.  There is a record under a number exactly if a record got it, and
likewise for arrays; no number is one of both, and whatever is asked later it stays what it is.  An
allocation of an array fails exactly if the length is negative or above the limit or there is no
room, and then it leaves the tables as they are, so that it takes no number.  Everything is answered
as if all objects were in one list. -/
theorem numbers_in_order (limit : Nat) (requests : List Request)
    (hfew : drawn ((fresh limit).log requests) < Nat.pow 2 64 - Heap.firstObject) :
    Numbered ((fresh limit).log requests) ((fresh limit).after requests) ∧
      (∀ more o,
        (((fresh limit).after requests).isRecord o = true →
          (((fresh limit).after requests).after more).isRecord o = true) ∧
        (((fresh limit).after requests).isArray o = true →
          (((fresh limit).after requests).after more).isArray o = true)) ∧
      (∀ length hasRoom,
        ((∃ e, (((fresh limit).after requests).serve (.allocArray length hasRoom)).1 = .error e) ↔
          length < 0 ∨ limit < length.toInt.toNat ∨ hasRoom = false) ∧
        ∀ e, (((fresh limit).after requests).serve (.allocArray length hasRoom)).1 = .error e →
          (((fresh limit).after requests).serve (.allocArray length hasRoom)).2 =
            (fresh limit).after requests) ∧
      (fresh limit).log requests = (Heap.fresh limit).log requests := by
  have hroom : (fresh limit).next.toNat + drawn ((fresh limit).log requests) < Nat.pow 2 64 :=
    Nat.add_comm _ _ ▸ Nat.add_lt_of_lt_sub hfew
  obtain ⟨hlog, hend⟩ := (holds_fresh limit).log requests hroom
  have hlimit : ((fresh limit).after requests).maxArrayLength = limit :=
    hend.limit.trans (Heap.maxArrayLength_after (Heap.fresh limit) requests)
  refine ⟨?_, fun more o => ⟨fun h => isRecord_after h more, fun h => isArray_after h more⟩,
    fun length hasRoom => ?_, hlog⟩
  · rw [hlog]
    exact hend.numbered (Heap.numbered_log limit requests)
  · have hfails := ((fresh limit).after requests).allocArray_fails_iff length hasRoom
    rwa [hlimit] at hfails

/-- Allocations of which two are refused. -/
def mixed : List Request :=
  [.allocRecord, .allocArray (-1) true, .allocArray 2 true, .allocArray 3 false, .allocRecord]

theorem numbers_in_order_mixed :
    drawn ((fresh 8).log mixed) < Nat.pow 2 64 - Heap.firstObject ∧
      ((fresh 8).log mixed).filterMap Entry.object? = [2025, 2026, 2027] ∧
      ∀ o, ¬ (((fresh 8).after mixed).isRecord o = true ∧
        ((fresh 8).after mixed).isArray o = true) := by
  have hdrawn : drawn ((fresh 8).log mixed) = 3 := rfl
  have hfew : drawn ((fresh 8).log mixed) < Nat.pow 2 64 - Heap.firstObject := by
    rw [hdrawn]
    decide
  obtain ⟨hnum, -⟩ := numbers_in_order 8 mixed hfew
  have hinOrder := hnum.inOrder
  rw [hdrawn] at hinOrder
  exact ⟨hfew, hinOrder, hnum.disjoint⟩

end Tables
end Opstack
