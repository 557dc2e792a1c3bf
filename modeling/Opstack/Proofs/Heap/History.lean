import Opstack.Proofs.Heap.Objects

/-!
# Histories of a heap

A history is what a heap was asked, one request after the other, with the answers it gave.
Executions that share a heap ask it in some order, so a statement about every list of requests is a
statement about everything that they can do to it.

* `Heap.serve` answers a request, `Heap.after` is the heap after a list of them and `Heap.log` the
  list of requests with their answers.
* `Heap.serves` says what one request can do, and `Heap.log_induction` what that means for a
  history.
* `Heap.numbered_log`: the numbers handed out in a history are those of the objects, from the first
  one on.
-/

set_option autoImplicit false

namespace Opstack
namespace Heap

/-! ## Requests -/

/-- An operation on a heap with its arguments. -/
inductive Request
  /-- Allocate a record. -/
  | allocRecord
  /-- Set a field of a record. -/
  | setField (o : ObjectId) (field : String) (v : Value)
  /-- Get a field of a record. -/
  | getField (o : ObjectId) (field : String)
  /-- Allocate an array, for whose cells there is room in the memory or not. -/
  | allocArray (length : Int64) (hasRoom : Bool)
  /-- Get the length of an array. -/
  | arrayLength (o : ObjectId)
  /-- Get a cell of an array. -/
  | getIndex (o : ObjectId) (index : Int64)
  /-- Set a cell of an array. -/
  | setIndex (o : ObjectId) (index : Int64) (v : Value)
  /-- Is there a record with this number? -/
  | isRecord (o : ObjectId)
  /-- Is there an array with this number? -/
  | isArray (o : ObjectId)
  /-- How many records are there? -/
  | recordCount
  /-- How many arrays are there? -/
  | arrayCount

/-- What a request is answered with if it does not fail. -/
inductive Reply
  /-- There is nothing to say. -/
  | done
  /-- The number of a new object. -/
  | object (o : ObjectId)
  /-- The value of a field or a cell. -/
  | value (v : Value)
  /-- A length or a count. -/
  | number (n : Nat)
  /-- Yes or no. -/
  | truth (b : Bool)
deriving DecidableEq

/-- Answers a request. -/
def serve (h : Heap) : Request → Except Fault Reply × Heap
  | .allocRecord => (.ok (.object h.allocRecord.1), h.allocRecord.2)
  | .setField o field v =>
    ((h.setField o field v).1.map fun _ => .done, (h.setField o field v).2)
  | .getField o field => ((h.getField o field).map .value, h)
  | .allocArray length hasRoom =>
    ((h.allocArrayIf length hasRoom).1.map .object, (h.allocArrayIf length hasRoom).2)
  | .arrayLength o => ((h.arrayLength o).map .number, h)
  | .getIndex o index => ((h.getIndex o index).map .value, h)
  | .setIndex o index v =>
    ((h.setIndex o index v).1.map fun _ => .done, (h.setIndex o index v).2)
  | .isRecord o => (.ok (.truth (h.isRecord o)), h)
  | .isArray o => (.ok (.truth (h.isArray o)), h)
  | .recordCount => (.ok (.number h.recordCount), h)
  | .arrayCount => (.ok (.number h.arrayCount), h)

/-- The request only looks at the heap. -/
def Request.isQuestion : Request → Bool
  | .allocRecord | .setField .. | .allocArray .. | .setIndex .. => false
  | _ => true

/-- What a request can make of a heap, with its answer. -/
inductive Serves (h : Heap) : Request → Except Fault Reply → Heap → Prop
  | allocRecord : Serves h .allocRecord (.ok (.object h.nextObject)) (h.push (.record []))
  | allocArray {length : Int64} (hfits : h.lengthFault? length true = none) :
    Serves h (.allocArray length true) (.ok (.object h.nextObject))
      (h.push (.array (Array.replicate length.toInt.toNat .null)))
  | setField {o : ObjectId} {fields : List (String × Value)} (field : String) (v : Value)
      (hfind : h.find? o = some (.record fields)) :
    Serves h (.setField o field v) (.ok .done) (h.put o (.record (withField fields field v)))
  | setIndex {o : ObjectId} {cells : Array Value} {index : Int64} {i : Nat} (v : Value)
      (hfind : h.find? o = some (.array cells)) (hindex : checkedIndex index cells.size = .ok i) :
    Serves h (.setIndex o index v) (.ok .done) (h.put o (.array (cells.setIfInBounds i v)))
  | asks {r : Request} (answer : Except Fault Reply) (hr : r.isQuestion = true) :
    Serves h r answer h
  | fails (r : Request) (e : Fault) : Serves h r (.error e) h

/-- An allocation of an array is refused exactly if the length is negative or above the limit or
there is no room. -/
theorem exists_lengthFault?_iff (h : Heap) (length : Int64) (hasRoom : Bool) :
    (∃ e, h.lengthFault? length hasRoom = some e) ↔
      length < 0 ∨ h.maxArrayLength < length.toInt.toNat ∨ hasRoom = false := by
  rw [lengthFault?]
  by_cases hneg : length < 0
  · rw [if_pos hneg]
    exact ⟨fun _ => .inl hneg, fun _ => ⟨_, rfl⟩⟩
  · rw [if_neg hneg, or_iff_right hneg]
    split
    · rename_i hlarge
      exact ⟨fun _ => hlarge, fun _ => ⟨_, rfl⟩⟩
    · rename_i hlarge
      exact ⟨fun ⟨e, hnone⟩ => (by cases hnone), fun hlarge' => absurd hlarge' hlarge⟩

theorem hasRoom_of_fits {h : Heap} {length : Int64} {hasRoom : Bool}
    (hfits : h.lengthFault? length hasRoom = none) : hasRoom = true := by
  cases hasRoom with
  | true => rfl
  | false =>
    obtain ⟨e, he⟩ := (h.exists_lengthFault?_iff length false).mpr (.inr (.inr rfl))
    cases hfits.symm.trans he

theorem serves_setField (h : Heap) (o : ObjectId) (field : String) (v : Value) :
    Serves h (.setField o field v) (h.serve (.setField o field v)).1
      (h.serve (.setField o field v)).2 := by
  rcases h.setField_cases o field v with ⟨fields, hfind, heq⟩ | ⟨-, heq⟩ <;> rw [serve, heq]
  · exact .setField field v hfind
  · exact .fails _ _

theorem serves_allocArray (h : Heap) (length : Int64) (hasRoom : Bool) :
    Serves h (.allocArray length hasRoom) (h.serve (.allocArray length hasRoom)).1
      (h.serve (.allocArray length hasRoom)).2 := by
  rw [serve]
  rcases h.allocArrayIf_cases length hasRoom with ⟨hfits, heq⟩ | ⟨e, -, heq⟩ <;> rw [heq]
  · obtain rfl := hasRoom_of_fits hfits
    exact .allocArray hfits
  · exact .fails _ _

theorem serves_setIndex (h : Heap) (o : ObjectId) (index : Int64) (v : Value) :
    Serves h (.setIndex o index v) (h.serve (.setIndex o index v)).1
      (h.serve (.setIndex o index v)).2 := by
  rcases h.setIndex_cases o index v with
    ⟨cells, i, hfind, hindex, heq⟩ | ⟨cells, e, -, -, heq⟩ | ⟨-, heq⟩ <;> rw [serve, heq]
  · exact .setIndex v hfind hindex
  · exact .fails _ _
  · exact .fails _ _

/-- **What a request does**: it adds an object, or puts another one in the place of one that there
is, or leaves the heap as it is. -/
theorem serves (h : Heap) (r : Request) : Serves h r (h.serve r).1 (h.serve r).2 := by
  cases r with
  | allocRecord => exact .allocRecord
  | setField o field v => exact serves_setField h o field v
  | allocArray length hasRoom => exact serves_allocArray h length hasRoom
  | setIndex o index v => exact serves_setIndex h o index v
  | getField | arrayLength | getIndex | isRecord | isArray | recordCount | arrayCount =>
    exact .asks _ rfl

namespace Serves

variable {h h' : Heap} {r : Request} {answer : Except Fault Reply}

theorem limits_eq (hserves : Serves h r answer h') : h'.limits = h.limits := by
  cases hserves with
  | allocRecord | allocArray | asks | fails => rfl
  | setField | setIndex => exact limits_put _ _ _

theorem maxArrayLength_eq (hserves : Serves h r answer h') :
    h'.maxArrayLength = h.maxArrayLength :=
  congrArg Prod.fst hserves.limits_eq

/-- A request that fails does nothing. -/
theorem eq_of_error {e : Fault} (hserves : Serves h r (.error e) h') : h' = h := by
  cases hserves with
  | asks | fails => rfl

/-- What is so of the kind of an object stays so. -/
theorem any_find? {p : Obj → Bool} (hp : ∀ a b : Obj, a.isRecord = b.isRecord → p a = p b)
    {o : ObjectId} (hserves : Serves h r answer h') (hany : (h.find? o).any p = true) :
    (h'.find? o).any p = true := by
  have hne : o ≠ h.nextObject := by
    rintro rfl
    rw [find?_nextObject] at hany
    cases hany
  cases hserves with
  | allocRecord | allocArray => rwa [find?_push, if_neg hne]
  | setField _ _ hold | setIndex _ hold =>
    refine (any_find?_put hold ?_ o).trans hany
    exact hp _ _ rfl
  | asks | fails => exact hany

/-- A number keeps its kind. -/
theorem isRecord_of_isRecord {o : ObjectId} (hserves : Serves h r answer h')
    (hrecord : h.isRecord o = true) : h'.isRecord o = true := by
  rw [isRecord_eq] at hrecord ⊢
  exact hserves.any_find? (fun _ _ hkind => hkind) hrecord

theorem isArray_of_isArray {o : ObjectId} (hserves : Serves h r answer h')
    (harray : h.isArray o = true) : h'.isArray o = true := by
  rw [isArray_eq] at harray ⊢
  exact hserves.any_find? (fun _ _ hkind => congrArg not hkind) harray

end Serves

/-! ## Histories -/

/-- A request with the answer it got. -/
structure Entry where
  /-- What the heap was asked. -/
  request : Request
  /-- What it answered. -/
  answer : Except Fault Reply

/-- The heap after a list of requests. -/
def after (h : Heap) (requests : List Request) : Heap :=
  requests.foldl (fun h r => (h.serve r).2) h

/-- A list of requests with their answers. -/
def log : Heap → List Request → List Entry
  | _, [] => []
  | h, r :: rest => ⟨r, (h.serve r).1⟩ :: log (h.serve r).2 rest

/-- A heap without objects. -/
def fresh (limit : Nat) : Heap := { maxArrayLength := limit }

theorem after_append (h : Heap) (requests more : List Request) :
    h.after (requests ++ more) = (h.after requests).after more := by
  rw [after, List.foldl_append, after, after]

theorem log_append (h : Heap) (requests more : List Request) :
    h.log (requests ++ more) = h.log requests ++ (h.after requests).log more := by
  induction requests generalizing h with
  | nil => rfl
  | cons r rest ih =>
    rw [List.cons_append, log, ih, log, List.cons_append]
    rfl

/-- **Induction over a history**: what holds before the first request and is kept by each request
holds after all of them. -/
theorem log_induction {P : List Entry → Heap → Prop} {h : Heap} (nothing : P [] h)
    (one : ∀ log h r, P log h → P (log ++ [⟨r, (h.serve r).1⟩]) (h.serve r).2)
    (requests : List Request) : P (h.log requests) (h.after requests) := by
  suffices hpast : ∀ past h, P past h → P (past ++ h.log requests) (h.after requests) from
    hpast [] h nothing
  induction requests with
  | nil =>
    intro past h hP
    rw [log, List.append_nil]
    exact hP
  | cons r rest ih =>
    intro past h hP
    rw [log, List.append_cons]
    exact ih _ _ (one past h r hP)

theorem limits_after (h : Heap) (requests : List Request) :
    (h.after requests).limits = h.limits :=
  log_induction (P := fun _ later => later.limits = h.limits) rfl
    (fun _ later r ih => (later.serves r).limits_eq.trans ih) requests

theorem maxArrayLength_after (h : Heap) (requests : List Request) :
    (h.after requests).maxArrayLength = h.maxArrayLength :=
  congrArg Prod.fst (h.limits_after requests)

theorem isRecord_after {h : Heap} {o : ObjectId} (hrecord : h.isRecord o = true)
    (requests : List Request) : (h.after requests).isRecord o = true :=
  log_induction (P := fun _ later => later.isRecord o = true) hrecord
    (fun _ later r ih => (later.serves r).isRecord_of_isRecord ih) requests

theorem isArray_after {h : Heap} {o : ObjectId} (harray : h.isArray o = true)
    (requests : List Request) : (h.after requests).isArray o = true :=
  log_induction (P := fun _ later => later.isArray o = true) harray
    (fun _ later r ih => (later.serves r).isArray_of_isArray ih) requests

/-- The field of the object has been set. -/
def HasField (h : Heap) (o : ObjectId) (field : String) : Prop := ∃ v, h.getField o field = .ok v

/-- A request that sets none of its fields leaves a record as it is. -/
theorem Serves.find?_record {h h' : Heap} {r : Request} {answer : Except Fault Reply}
    {o : ObjectId} {fields : List (String × Value)} (hserves : Serves h r answer h')
    (hfind : h.find? o = some (.record fields)) (hr : ∀ field v, r ≠ .setField o field v) :
    h'.find? o = some (.record fields) := by
  have hpush : ∀ object, (h.push object).find? o = some (.record fields) := fun object => by
    rw [find?_push, if_neg (by rintro rfl; rw [h.find?_nextObject] at hfind; cases hfind), hfind]
  cases hserves with
  | allocRecord | allocArray => exact hpush _
  | @setField other old name w hold =>
    rw [find?_put hold, if_neg (by rintro rfl; exact hr _ _ rfl), hfind]
  | @setIndex other cells _ _ _ hold =>
    rw [find?_put hold, if_neg (by rintro rfl; cases hfind.symm.trans hold), hfind]
  | asks | fails => exact hfind

theorem Serves.hasField {h h' : Heap} {r : Request} {answer : Except Fault Reply} {o : ObjectId}
    {field : String} (hserves : Serves h r answer h') (hfield : h.HasField o field) :
    h'.HasField o field := by
  obtain ⟨v, hv⟩ := hfield
  obtain ⟨fields, hfind, hget⟩ := getField_eq_ok.mp hv
  by_cases hr : ∃ name w, r = .setField o name w
  · obtain ⟨name, w, rfl⟩ := hr
    cases hserves with
    | setField _ _ hold =>
      cases hfind.symm.trans hold
      refine ⟨if field = name then w else v,
        getField_eq_ok.mpr ⟨withField fields name w, (find?_put hold _ o).trans (if_pos rfl), ?_⟩⟩
      rw [fieldOf?_withField]
      split
      · rfl
      · exact hget
    | asks | fails => exact ⟨v, hv⟩
  · have hsame := hserves.find?_record hfind fun name w heq => hr ⟨name, w, heq⟩
    exact ⟨v, getField_eq_ok.mpr ⟨fields, hsame, hget⟩⟩

/-- **A field that has been set stays set.** -/
theorem hasField_after {h : Heap} {o : ObjectId} {field : String} (hfield : h.HasField o field)
    (requests : List Request) : (h.after requests).HasField o field :=
  log_induction (P := fun _ later => later.HasField o field) hfield
    (fun _ later r ih => (later.serves r).hasField ih) requests

/-! ## Numbers handed out -/

/-- The number that a record got. -/
def Entry.record? : Entry → Option ObjectId
  | ⟨.allocRecord, .ok (.object o)⟩ => some o
  | _ => none

/-- The number that an array got. -/
def Entry.array? : Entry → Option ObjectId
  | ⟨.allocArray .., .ok (.object o)⟩ => some o
  | _ => none

/-- The number that an object got. -/
def Entry.object? (entry : Entry) : Option ObjectId := entry.record? <|> entry.array?

/-- The numbers handed out in a history are those of the objects of a heap. -/
structure Numbered (log : List Entry) (h : Heap) : Prop where
  /-- They go up from the first one by one. -/
  inOrder : log.filterMap Entry.object? = List.range' firstObject h.objects.size
  /-- The records have the numbers that records got. -/
  records : ∀ o, h.isRecord o = true ↔ o ∈ log.filterMap Entry.record?
  /-- The arrays have the numbers that arrays got. -/
  arrays : ∀ o, h.isArray o = true ↔ o ∈ log.filterMap Entry.array?
  /-- There are as many records as got a number. -/
  recordCount : h.recordCount = (log.filterMap Entry.record?).length
  /-- There are as many arrays as got a number. -/
  arrayCount : h.arrayCount = (log.filterMap Entry.array?).length

theorem filterMap_append_none {α β : Type} {f : α → Option β} (entries : List α) {entry : α}
    (hf : f entry = none) : (entries ++ [entry]).filterMap f = entries.filterMap f := by
  rw [List.filterMap_append, List.filterMap_cons_none hf, List.filterMap_nil, List.append_nil]

theorem filterMap_append_some {α β : Type} {f : α → Option β} (entries : List α) {entry : α}
    {b : β} (hf : f entry = some b) :
    (entries ++ [entry]).filterMap f = entries.filterMap f ++ [b] := by
  rw [List.filterMap_append, List.filterMap_cons_some hf, List.filterMap_nil]

section

variable {p : ObjectId → Bool} {numbers : List ObjectId}

/-- A new number that has the property is one more of the numbers. -/
theorem iff_mem_concat (hp : ∀ o, p o = true ↔ o ∈ numbers) (new o : ObjectId) :
    (if o = new then true else p o) = true ↔ o ∈ numbers ++ [new] := by
  rw [List.mem_append, List.mem_singleton, ← hp o]
  by_cases ho : o = new
  · rw [if_pos ho]
    exact ⟨fun _ => .inr ho, fun _ => rfl⟩
  · rw [if_neg ho, or_iff_left ho]

/-- A new number that does not have the property leaves the numbers as they are. -/
theorem iff_mem_of_new (hp : ∀ o, p o = true ↔ o ∈ numbers) {new : ObjectId}
    (hnew : p new = false) (o : ObjectId) :
    (if o = new then false else p o) = true ↔ o ∈ numbers := by
  rw [← hp o]
  split
  · rename_i ho
    rw [ho, hnew]
  · rfl

end

namespace Numbered

variable {log : List Entry} {h : Heap}

/-- The number of a new object comes after all the others. -/
theorem inOrder_push (hnum : Numbered log h) (object : Obj) {entry : Entry}
    (hobject : entry.object? = some h.nextObject) :
    (log ++ [entry]).filterMap Entry.object? =
      List.range' firstObject (h.push object).objects.size := by
  rw [filterMap_append_some log hobject, hnum.inOrder, push, Array.size_push, List.range'_concat,
    Nat.one_mul, nextObject]

theorem push_record (hnum : Numbered log h) {r : Request} {answer : Except Fault Reply}
    (hrecord : Entry.record? ⟨r, answer⟩ = some h.nextObject)
    (harray : Entry.array? ⟨r, answer⟩ = none) (fields : List (String × Value)) :
    Numbered (log ++ [⟨r, answer⟩]) (h.push (.record fields)) where
  inOrder := hnum.inOrder_push _ (by rw [Entry.object?, hrecord]; rfl)
  records o := by
    rw [isRecord_push, filterMap_append_some log hrecord]
    exact iff_mem_concat hnum.records h.nextObject o
  arrays o := by
    rw [isArray_push, filterMap_append_none log harray]
    exact iff_mem_of_new hnum.arrays h.isArray_nextObject o
  recordCount := by
    rw [recordCount_push, filterMap_append_some log hrecord, List.length_append, hnum.recordCount]
    rfl
  arrayCount := by
    rw [arrayCount_push, filterMap_append_none log harray, hnum.arrayCount]
    rfl

theorem push_array (hnum : Numbered log h) {r : Request} {answer : Except Fault Reply}
    (hrecord : Entry.record? ⟨r, answer⟩ = none)
    (harray : Entry.array? ⟨r, answer⟩ = some h.nextObject) (cells : Array Value) :
    Numbered (log ++ [⟨r, answer⟩]) (h.push (.array cells)) where
  inOrder := hnum.inOrder_push _ (by rw [Entry.object?, hrecord, harray]; rfl)
  records o := by
    rw [isRecord_push, filterMap_append_none log hrecord]
    exact iff_mem_of_new hnum.records h.isRecord_nextObject o
  arrays o := by
    rw [isArray_push, filterMap_append_some log harray]
    exact iff_mem_concat hnum.arrays h.nextObject o
  recordCount := by
    rw [recordCount_push, filterMap_append_none log hrecord, hnum.recordCount]
    rfl
  arrayCount := by
    rw [arrayCount_push, filterMap_append_some log harray, List.length_append, hnum.arrayCount]
    rfl

/-- An answer that hands out no number, of a heap that stays as it is. -/
theorem same (hnum : Numbered log h) {entry : Entry} (hrecord : entry.record? = none)
    (harray : entry.array? = none) : Numbered (log ++ [entry]) h where
  inOrder := by
    rw [filterMap_append_none log (by rw [Entry.object?, hrecord, harray]; rfl), hnum.inOrder]
  records o := by rw [filterMap_append_none log hrecord, hnum.records]
  arrays o := by rw [filterMap_append_none log harray, hnum.arrays]
  recordCount := by rw [filterMap_append_none log hrecord, hnum.recordCount]
  arrayCount := by rw [filterMap_append_none log harray, hnum.arrayCount]

theorem put (hnum : Numbered log h) {o : ObjectId} {old object : Obj}
    (hold : h.find? o = some old) (hkind : object.isRecord = old.isRecord) :
    Numbered log (h.put o object) where
  inOrder := by rw [hnum.inOrder, size_objects_put]
  records other := by rw [isRecord_put hold hkind, hnum.records]
  arrays other := by rw [isArray_put hold hkind, hnum.arrays]
  recordCount := by rw [recordCount_put hold hkind, hnum.recordCount]
  arrayCount := by rw [arrayCount_put hold hkind, hnum.arrayCount]

/-- One more request. -/
theorem serve (hnum : Numbered log h) {r : Request} {answer : Except Fault Reply} {h' : Heap}
    (hserves : Serves h r answer h') : Numbered (log ++ [⟨r, answer⟩]) h' := by
  cases hserves with
  | allocRecord => exact hnum.push_record rfl rfl _
  | allocArray => exact hnum.push_array rfl rfl _
  | setField _ _ hold | setIndex _ hold => exact (hnum.same rfl rfl).put hold rfl
  | asks _ hr =>
    cases r with
    | allocRecord | setField | allocArray | setIndex => cases hr
    | getField | arrayLength | getIndex | isRecord | isArray | recordCount | arrayCount =>
      exact hnum.same rfl rfl
  | fails => cases r <;> exact hnum.same rfl rfl

end Numbered

theorem numbered_log (limit : Nat) (requests : List Request) :
    Numbered ((fresh limit).log requests) ((fresh limit).after requests) :=
  log_induction
    { inOrder := rfl
      records := fun o => by simp [fresh, isRecord, find?]
      arrays := fun o => by simp [fresh, isArray, find?]
      recordCount := rfl
      arrayCount := rfl }
    (fun _ h r ih => ih.serve (h.serves r)) requests

end Heap
end Opstack
