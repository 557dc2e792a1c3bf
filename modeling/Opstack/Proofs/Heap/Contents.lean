import Opstack.Proofs.Heap.History

/-!
# What a history tells

A heap is nothing but a summary of its history: every answer that it will give can be read off the
requests made so far and their answers.

* `Heap.latest` is the last thing that a history says about something: the length that an array was
  allocated with, the value that a field or a cell was set to.
* `Heap.answer` is the answer that a history calls for, without a heap.
* `Heap.Tells` relates a history to an object, and `Heap.Tells.serve` says that each request keeps
  the relation.
* `Heap.answer_of_log`: the answers of a heap are those that its history calls for; a set changes
  nothing but what it sets, and a request that fails changes nothing at all.
-/

set_option autoImplicit false

namespace Opstack
namespace Heap

/-! ## The last word -/

/-- The last thing that a history says about something. -/
def latest {α : Type} (f : Entry → Option α) (log : List Entry) : Option α :=
  (log.filterMap f).getLast?

/-- The length that an array was allocated with. -/
def Entry.length? (o : ObjectId) : Entry → Option Nat
  | ⟨.allocArray length _, .ok (.object o')⟩ => if o' = o then some length.toInt.toNat else none
  | _ => none

/-- The value that a field was set to.  A set that failed has set nothing. -/
def Entry.written? (o : ObjectId) (field : String) : Entry → Option Value
  | ⟨.setField o' field' v, .ok _⟩ => if o' = o ∧ field' = field then some v else none
  | _ => none

/-- The value that a cell was set to.  A set that failed has set nothing. -/
def Entry.stored? (o : ObjectId) (index : Int64) : Entry → Option Value
  | ⟨.setIndex o' index' v, .ok _⟩ => if o' = o ∧ index' = index then some v else none
  | _ => none

section Latest

variable {α : Type} {f : Entry → Option α} (log : List Entry) {entry : Entry}

theorem latest_append_none (hf : f entry = none) : latest f (log ++ [entry]) = latest f log := by
  rw [latest, filterMap_append_none log hf, latest]

theorem latest_append_some {b : α} (hf : f entry = some b) :
    latest f (log ++ [entry]) = some b := by
  rw [latest, filterMap_append_some log hf, List.getLast?_concat]

end Latest

/-! ## The answer that a history calls for -/

/-- The number that the next object gets. -/
def nextIn (log : List Entry) : ObjectId := firstObject + (log.filterMap Entry.object?).length

/-- The object with this number is a record. -/
def isRecordIn (log : List Entry) (o : ObjectId) : Bool :=
  decide (o ∈ log.filterMap Entry.record?)

/-- The object with this number is an array. -/
def isArrayIn (log : List Entry) (o : ObjectId) : Bool :=
  decide (o ∈ log.filterMap Entry.array?)

/-- What is done with the cell of an array that an index names. -/
def atCell (log : List Entry) (o : ObjectId) (index : Int64) (reply : Reply) :
    Except Fault Reply :=
  match latest (Entry.length? o) log with
  | some length =>
    if 0 ≤ index.toInt ∧ index.toInt < length then .ok reply
    else .error (.indexOutOfBounds index length)
  | none => .error (.unknownObject o)

/-- The answer that a history calls for, of a heap whose arrays have a limit. -/
def answer (limit : Nat) (log : List Entry) : Request → Except Fault Reply
  | .allocRecord => .ok (.object (nextIn log))
  | .setField o _ _ => if isRecordIn log o then .ok .done else .error (.unknownObject o)
  | .getField o field =>
    if isRecordIn log o then
      match latest (Entry.written? o field) log with
      | some v => .ok (.value v)
      | none => .error (.unsetField field)
    else .error (.unknownObject o)
  | .allocArray length hasRoom =>
    if length < 0 then .error (.negativeLength length)
    else if limit < length.toInt.toNat ∨ hasRoom = false then
      .error (.arrayTooLarge length)
    else .ok (.object (nextIn log))
  | .arrayLength o =>
    match latest (Entry.length? o) log with
    | some length => .ok (.number length)
    | none => .error (.unknownObject o)
  | .getIndex o index =>
    atCell log o index (.value ((latest (Entry.stored? o index) log).getD .null))
  | .setIndex o index _ => atCell log o index .done
  | .isRecord o => .ok (.truth (isRecordIn log o))
  | .isArray o => .ok (.truth (isArrayIn log o))
  | .recordCount => .ok (.number (log.filterMap Entry.record?).length)
  | .arrayCount => .ok (.number (log.filterMap Entry.array?).length)

/-! ## Indexes -/

theorem checkedIndex_of_lt {index : Int64} {length : Nat}
    (hindex : 0 ≤ index.toInt ∧ index.toInt < length) :
    checkedIndex index length = .ok index.toInt.toNat := by
  rw [checkedIndex, if_pos]
  rw [Int64.le_iff_toInt_le, Int64.toInt_zero]
  omega

theorem checkedIndex_of_not_lt {index : Int64} {length : Nat}
    (hindex : ¬ (0 ≤ index.toInt ∧ index.toInt < length)) :
    checkedIndex index length = .error (.indexOutOfBounds index length) := by
  rw [checkedIndex, if_neg]
  rw [Int64.le_iff_toInt_le, Int64.toInt_zero]
  omega

/-- An index names a place if it is not negative and less than the length. -/
theorem checkedIndex_eq_ok {index : Int64} {length i : Nat} :
    checkedIndex index length = .ok i ↔ index.toInt = i ∧ i < length := by
  by_cases hindex : 0 ≤ index.toInt ∧ index.toInt < length
  · rw [checkedIndex_of_lt hindex, Except.ok.injEq]
    omega
  · rw [checkedIndex_of_not_lt hindex]
    exact ⟨fun herror => (by cases herror), fun heq => absurd (by omega) hindex⟩

/-- Different indexes name different places. -/
theorem checkedIndex_inj {a b : Int64} {length i : Nat} (ha : checkedIndex a length = .ok i)
    (hb : checkedIndex b length = .ok i) : a = b := by
  rw [← Int64.toInt_inj, (checkedIndex_eq_ok.mp ha).1, (checkedIndex_eq_ok.mp hb).1]

/-! ## A history and an object -/

/-- What a history tells about a number is what the heap has there. -/
inductive Tells (log : List Entry) (o : ObjectId) : Option Obj → Prop
  /-- There is no object, and the history does not speak of one. -/
  | nothing (hlength : latest (Entry.length? o) log = none)
      (hwritten : ∀ field, latest (Entry.written? o field) log = none)
      (hstored : ∀ index, latest (Entry.stored? o index) log = none) : Tells log o none
  /-- The fields of a record are what they were last set to. -/
  | record {fields : List (String × Value)} (hlength : latest (Entry.length? o) log = none)
      (hfields : ∀ field, fieldOf? fields field = latest (Entry.written? o field) log) :
    Tells log o (some (.record fields))
  /-- The cells of an array are what they were last set to, or `null`. -/
  | array {cells : Array Value} (hlength : latest (Entry.length? o) log = some cells.size)
      (hcells : ∀ index i, checkedIndex index cells.size = .ok i →
        cells[i]? = some ((latest (Entry.stored? o index) log).getD .null)) :
    Tells log o (some (.array cells))

namespace Tells

variable {log : List Entry} {o : ObjectId} {object : Option Obj} {h h' : Heap} {r : Request}
  {answer : Except Fault Reply}

/-- An entry that says nothing about a number. -/
theorem same (htells : Tells log o object) {entry : Entry} (hlength : entry.length? o = none)
    (hwritten : ∀ field, entry.written? o field = none)
    (hstored : ∀ index, entry.stored? o index = none) : Tells (log ++ [entry]) o object := by
  cases htells with
  | nothing hno hnowhere hnever =>
    refine .nothing ?_ (fun field => ?_) (fun index => ?_)
    · rw [latest_append_none log hlength, hno]
    · rw [latest_append_none log (hwritten field), hnowhere]
    · rw [latest_append_none log (hstored index), hnever]
  | record hno hfields =>
    refine .record ?_ (fun field => ?_)
    · rw [latest_append_none log hlength, hno]
    · rw [latest_append_none log (hwritten field), hfields]
  | array hsize hcells =>
    refine .array ?_ (fun index i hindex => ?_)
    · rw [latest_append_none log hlength, hsize]
    · rw [latest_append_none log (hstored index), hcells index i hindex]

theorem allocRecord (htells : Tells log o none) : Tells log o (some (.record [])) := by
  cases htells with
  | nothing hlength hwritten hstored => exact .record hlength fun field => (hwritten field).symm

theorem allocArray (htells : Tells log o none) (length : Int64) (hasRoom : Bool) :
    Tells (log ++ [⟨.allocArray length hasRoom, .ok (.object o)⟩]) o
      (some (.array (Array.replicate length.toInt.toNat .null))) := by
  cases htells with
  | nothing hlength hwritten hstored =>
    refine .array ?_ (fun index i hindex => ?_)
    · rw [latest_append_some log (if_pos rfl), Array.size_replicate]
    · rw [latest_append_none log rfl, hstored, Array.getElem?_replicate, if_pos]
      · rfl
      · rw [Array.size_replicate] at hindex
        exact (checkedIndex_eq_ok.mp hindex).2

theorem setField {fields : List (String × Value)} (htells : Tells log o (some (.record fields)))
    (field : String) (v : Value) (reply : Reply) :
    Tells (log ++ [⟨.setField o field v, .ok reply⟩]) o
      (some (.record (withField fields field v))) := by
  cases htells with
  | record hlength hfields =>
    refine .record ?_ (fun name => ?_)
    · rw [latest_append_none log rfl, hlength]
    · rw [fieldOf?_withField]
      by_cases hname : name = field
      · rw [if_pos hname, latest_append_some log (if_pos ⟨rfl, hname.symm⟩)]
      · rw [if_neg hname, latest_append_none log (if_neg fun heq => hname heq.2.symm), hfields]

theorem setIndex {cells : Array Value} (htells : Tells log o (some (.array cells)))
    {index : Int64} {i : Nat} (hi : checkedIndex index cells.size = .ok i) (v : Value)
    (reply : Reply) :
    Tells (log ++ [⟨.setIndex o index v, .ok reply⟩]) o
      (some (.array (cells.setIfInBounds i v))) := by
  cases htells with
  | array hlength hcells =>
    refine .array ?_ (fun index' i' hi' => ?_)
    · rw [latest_append_none log rfl, hlength, Array.size_setIfInBounds]
    · rw [Array.size_setIfInBounds] at hi'
      rw [Array.getElem?_setIfInBounds]
      by_cases hindex : index' = index
      · subst hindex
        cases hi.symm.trans hi'
        rw [if_pos rfl, if_pos (checkedIndex_eq_ok.mp hi).2,
          latest_append_some log (if_pos ⟨rfl, rfl⟩)]
        rfl
      · have hne : i ≠ i' := fun heq => hindex (checkedIndex_inj hi' (heq ▸ hi))
        rw [if_neg hne, latest_append_none log (if_neg fun heq => hindex heq.2.symm),
          hcells index' i' hi']

/-- One more request. -/
theorem serve (htells : Tells log o (h.find? o)) (hserves : Serves h r answer h') :
    Tells (log ++ [⟨r, answer⟩]) o (h'.find? o) := by
  cases hserves with
  | allocRecord =>
    rw [find?_push]
    split
    · rename_i ho
      rw [ho, find?_nextObject, ← ho] at htells
      exact htells.allocRecord.same rfl (fun _ => rfl) (fun _ => rfl)
    · exact htells.same rfl (fun _ => rfl) (fun _ => rfl)
  | allocArray hfits =>
    rw [find?_push]
    split
    · rename_i ho
      rw [ho, find?_nextObject] at htells
      rw [ho]
      exact htells.allocArray _ _
    · rename_i ho
      exact htells.same (if_neg (Ne.symm ho)) (fun _ => rfl) (fun _ => rfl)
  | setField field v hold =>
    rw [find?_put hold]
    split
    · rename_i ho
      subst ho
      rw [hold] at htells
      exact htells.setField field v _
    · rename_i ho
      exact htells.same rfl (fun _ => if_neg fun heq => ho heq.1.symm) (fun _ => rfl)
  | setIndex v hold hi =>
    rw [find?_put hold]
    split
    · rename_i ho
      subst ho
      rw [hold] at htells
      exact htells.setIndex hi v _
    · rename_i ho
      exact htells.same rfl (fun _ => rfl) (fun _ => if_neg fun heq => ho heq.1.symm)
  | asks _ hr =>
    cases r with
    | allocRecord | setField | allocArray | setIndex => cases hr
    | getField | arrayLength | getIndex | isRecord | isArray | recordCount | arrayCount =>
      exact htells.same rfl (fun _ => rfl) (fun _ => rfl)
  | fails => cases r <;> exact htells.same rfl (fun _ => rfl) (fun _ => rfl)

end Tells

theorem tells_log (limit : Nat) (requests : List Request) (o : ObjectId) :
    Tells ((fresh limit).log requests) o (((fresh limit).after requests).find? o) :=
  log_induction (P := fun log h => Tells log o (h.find? o))
    (by
      rw [show (fresh limit).find? o = none by simp [fresh, find?]]
      exact .nothing rfl (fun _ => rfl) (fun _ => rfl))
    (fun _ h r ih => ih.serve (h.serves r)) requests

/-! ## The answers of a heap -/

section Answers

variable {log : List Entry} {h : Heap} {o : ObjectId} {index : Int64}

theorem nextIn_eq (hnum : Numbered log h) : nextIn log = h.nextObject := by
  rw [nextIn, hnum.inOrder, List.length_range', nextObject]

theorem isRecordIn_eq (hnum : Numbered log h) (o : ObjectId) :
    isRecordIn log o = h.isRecord o := by
  rw [Bool.eq_iff_iff, hnum.records o, isRecordIn, decide_eq_true_iff]

theorem isArrayIn_eq (hnum : Numbered log h) (o : ObjectId) : isArrayIn log o = h.isArray o := by
  rw [Bool.eq_iff_iff, hnum.arrays o, isArrayIn, decide_eq_true_iff]

/-- A history knows the length of what is an array. -/
theorem latest_length?_eq (htells : Tells log o (h.find? o)) :
    (∃ cells, h.find? o = some (.array cells) ∧
        latest (Entry.length? o) log = some cells.size) ∨
      h.isArray o = false ∧ latest (Entry.length? o) log = none := by
  rw [isArray_eq]
  generalize h.find? o = object at htells
  cases htells with
  | nothing hlength => exact .inr ⟨rfl, hlength⟩
  | record hlength => exact .inr ⟨rfl, hlength⟩
  | array hlength => exact .inl ⟨_, rfl, hlength⟩

theorem atCell_eq {length : Nat} (hlength : latest (Entry.length? o) log = some length)
    (reply : Reply) :
    atCell log o index reply = (checkedIndex index length).map fun _ => reply := by
  rw [atCell, hlength]
  dsimp only
  by_cases hindex : 0 ≤ index.toInt ∧ index.toInt < length
  · rw [if_pos hindex, checkedIndex_of_lt hindex]
    rfl
  · rw [if_neg hindex, checkedIndex_of_not_lt hindex]
    rfl

theorem atCell_unknown (hlength : latest (Entry.length? o) log = none) (reply : Reply) :
    atCell log o index reply = .error (.unknownObject o) := by
  rw [atCell, hlength]

theorem getField_eq_answer (limit : Nat) (field : String) (hnum : Numbered log h)
    (htells : Tells log o (h.find? o)) :
    (h.serve (.getField o field)).1 = answer limit log (.getField o field) := by
  rw [serve, answer, isRecordIn_eq hnum, isRecord_eq, getField]
  generalize h.find? o = object at htells
  cases htells with
  | nothing | array => rfl
  | record _ hfields =>
    simp only [Option.any_some, Obj.isRecord, if_true, hfields]
    cases latest (Entry.written? o field) log <;> rfl

theorem setField_eq_answer (limit : Nat) (field : String) (v : Value) (hnum : Numbered log h) :
    (h.serve (.setField o field v)).1 = answer limit log (.setField o field v) := by
  rw [serve, answer, isRecordIn_eq hnum]
  rcases h.setField_cases o field v with ⟨fields, hfind, heq⟩ | ⟨hrecord, heq⟩ <;> rw [heq]
  · rw [isRecord_iff.mpr ⟨fields, hfind⟩]
    rfl
  · rw [hrecord]
    rfl

theorem allocArray_eq_answer (length : Int64) (hasRoom : Bool) (hnum : Numbered log h) :
    (h.serve (.allocArray length hasRoom)).1 =
      answer h.maxArrayLength log (.allocArray length hasRoom) := by
  rw [serve, answer, nextIn_eq hnum, allocArrayIf, lengthFault?]
  by_cases hneg : length < 0
  · rw [if_pos hneg, if_pos hneg]
    rfl
  · rw [if_neg hneg, if_neg hneg]
    by_cases hlarge : h.maxArrayLength < length.toInt.toNat ∨ hasRoom = false
    · rw [if_pos hlarge, if_pos hlarge]
      rfl
    · rw [if_neg hlarge, if_neg hlarge]
      rfl

theorem arrayLength_eq_answer (limit : Nat) (htells : Tells log o (h.find? o)) :
    (h.serve (.arrayLength o)).1 = answer limit log (.arrayLength o) := by
  rw [serve, answer]
  rcases latest_length?_eq htells with ⟨cells, hfind, hlength⟩ | ⟨harray, hlength⟩
  · rw [arrayLength_eq hfind, hlength]
    rfl
  · rw [arrayLength_unknown harray, hlength]
    rfl

theorem getIndex_eq_answer (limit : Nat) (index : Int64) (htells : Tells log o (h.find? o)) :
    (h.serve (.getIndex o index)).1 = answer limit log (.getIndex o index) := by
  rw [serve, answer, getIndex]
  generalize h.find? o = object at htells
  cases htells with
  | nothing hlength => exact (atCell_unknown hlength _).symm
  | record hlength => exact (atCell_unknown hlength _).symm
  | @array cells hlength hcells =>
    rw [atCell_eq hlength]
    dsimp only
    cases hindex : checkedIndex index cells.size with
    | error e => rfl
    | ok i =>
      simp only [Except.map, hcells index i hindex, Option.getD_some]

theorem setIndex_eq_answer (limit : Nat) (index : Int64) (v : Value)
    (htells : Tells log o (h.find? o)) :
    (h.serve (.setIndex o index v)).1 = answer limit log (.setIndex o index v) := by
  rw [serve, answer, setIndex]
  rcases latest_length?_eq htells with ⟨cells, hfind, hlength⟩ | ⟨harray, hlength⟩
  · rw [arrayLength_eq hfind, atCell_eq hlength]
    dsimp only
    cases checkedIndex index cells.size <;> rfl
  · rw [arrayLength_unknown harray, atCell_unknown hlength]
    rfl

/-- A heap gives the answers that its history calls for. -/
theorem serve_eq_answer (hnum : Numbered log h) (htells : ∀ o, Tells log o (h.find? o))
    (r : Request) : (h.serve r).1 = answer h.maxArrayLength log r := by
  cases r with
  | allocRecord => rw [serve, answer, nextIn_eq hnum, allocRecord]
  | setField o field v => exact setField_eq_answer _ field v hnum
  | getField o field => exact getField_eq_answer _ field hnum (htells o)
  | allocArray length hasRoom => exact allocArray_eq_answer length hasRoom hnum
  | arrayLength o => exact arrayLength_eq_answer _ (htells o)
  | getIndex o index => exact getIndex_eq_answer _ index (htells o)
  | setIndex o index v => exact setIndex_eq_answer _ index v (htells o)
  | isRecord o => rw [serve, answer, isRecordIn_eq hnum]
  | isArray o => rw [serve, answer, isArrayIn_eq hnum]
  | recordCount => rw [serve, answer, hnum.recordCount]
  | arrayCount => rw [serve, answer, hnum.arrayCount]

end Answers

/-! ## Sets -/

/-- The field of a record or the cell of an array. -/
inductive Place
  /-- A field. -/
  | field (o : ObjectId) (name : String)
  /-- A cell. -/
  | cell (o : ObjectId) (index : Int64)

namespace Request

/-- The place that a request gets or sets. -/
def place? : Request → Option Place
  | .setField o field _ | .getField o field => some (.field o field)
  | .setIndex o index _ | .getIndex o index => some (.cell o index)
  | _ => none

/-- The request sets a field or a cell. -/
def isSet : Request → Bool
  | .setField .. | .setIndex .. => true
  | _ => false

variable {r : Request}

theorem record?_of_isSet (hr : r.isSet = true) (a : Except Fault Reply) :
    Entry.record? ⟨r, a⟩ = none := by
  cases r with
  | setField | setIndex => rfl
  | _ => cases hr

theorem array?_of_isSet (hr : r.isSet = true) (a : Except Fault Reply) :
    Entry.array? ⟨r, a⟩ = none := by
  cases r with
  | setField | setIndex => rfl
  | _ => cases hr

theorem length?_of_isSet (hr : r.isSet = true) (a : Except Fault Reply) (o : ObjectId) :
    Entry.length? o ⟨r, a⟩ = none := by
  cases r with
  | setField | setIndex => rfl
  | _ => cases hr

theorem written?_of_ne {o : ObjectId} {field : String}
    (hne : some (.field o field) ≠ r.place?) (a : Except Fault Reply) :
    Entry.written? o field ⟨r, a⟩ = none := by
  cases r with
  | setField o' field' v =>
    cases a with
    | error e => rfl
    | ok reply => exact if_neg fun ⟨ho, hfield⟩ => hne (by rw [place?, ho, hfield])
  | _ => rfl

theorem stored?_of_ne {o : ObjectId} {index : Int64}
    (hne : some (.cell o index) ≠ r.place?) (a : Except Fault Reply) :
    Entry.stored? o index ⟨r, a⟩ = none := by
  cases r with
  | setIndex o' index' v =>
    cases a with
    | error e => rfl
    | ok reply => exact if_neg fun ⟨ho, hindex⟩ => hne (by rw [place?, ho, hindex])
  | _ => rfl

end Request

/-- After a set a history calls for the same answers, unless what was set is asked for. -/
theorem answer_append_set (limit : Nat) (log : List Entry) {r q : Request}
    (a : Except Fault Reply) (hr : r.isSet = true) (hq : q.isQuestion = true)
    (hne : q.place? ≠ r.place?) : answer limit (log ++ [⟨r, a⟩]) q = answer limit log q := by
  have hrecords := filterMap_append_none log (Request.record?_of_isSet hr a)
  have harrays := filterMap_append_none log (Request.array?_of_isSet hr a)
  have hlength (o : ObjectId) := latest_append_none log (Request.length?_of_isSet hr a o)
  cases q with
  | allocRecord | setField | allocArray | setIndex => cases hq
  | getField o field =>
    rw [answer, answer, isRecordIn, isRecordIn, hrecords,
      latest_append_none log (Request.written?_of_ne hne a)]
  | arrayLength o => rw [answer, answer, hlength]
  | getIndex o index =>
    rw [answer, answer, atCell, atCell, hlength,
      latest_append_none log (Request.stored?_of_ne hne a)]
  | isRecord o => rw [answer, answer, isRecordIn, isRecordIn, hrecords]
  | isArray o => rw [answer, answer, isArrayIn, isArrayIn, harrays]
  | recordCount => rw [answer, answer, hrecords]
  | arrayCount => rw [answer, answer, harrays]

/-! ## Lengths -/

theorem arrayLength_eq_ok {h : Heap} {o : ObjectId} {n : Nat} :
    h.arrayLength o = .ok n ↔ ∃ cells, h.find? o = some (.array cells) ∧ cells.size = n := by
  constructor
  · intro hlength
    cases harray : h.isArray o with
    | false =>
      rw [arrayLength_unknown harray] at hlength
      cases hlength
    | true =>
      obtain ⟨cells, hfind⟩ := isArray_iff.mp harray
      rw [arrayLength_eq hfind] at hlength
      exact ⟨cells, hfind, Except.ok.inj hlength⟩
  · rintro ⟨cells, hfind, rfl⟩
    exact arrayLength_eq hfind

/-- An array keeps its length. -/
theorem Serves.arrayLength_eq {h h' : Heap} {r : Request} {a : Except Fault Reply} {o : ObjectId}
    {n : Nat} (hserves : Serves h r a h') (hlength : h.arrayLength o = .ok n) :
    h'.arrayLength o = .ok n := by
  rw [arrayLength_eq_ok] at hlength ⊢
  obtain ⟨cells, hfind, hsize⟩ := hlength
  cases hserves with
  | allocRecord | allocArray =>
    have hne : o ≠ h.nextObject := by
      rintro rfl
      cases (find?_nextObject h).symm.trans hfind
    exact ⟨cells, by rw [find?_push, if_neg hne, hfind], hsize⟩
  | setField field v hold =>
    rw [find?_put hold]
    split
    · rename_i ho
      cases (ho ▸ hold).symm.trans hfind
    · exact ⟨cells, hfind, hsize⟩
  | setIndex v hold =>
    rw [find?_put hold]
    split
    · rename_i ho
      cases (ho ▸ hold).symm.trans hfind
      exact ⟨_, rfl, by rw [Array.size_setIfInBounds, hsize]⟩
    · exact ⟨cells, hfind, hsize⟩
  | asks | fails => exact ⟨cells, hfind, hsize⟩

/-- A new array has the length that it was allocated with. -/
theorem Serves.arrayLength_of_length? {h h' : Heap} {r : Request} {a : Except Fault Reply}
    {o : ObjectId} {n : Nat} (hserves : Serves h r a h')
    (hn : Entry.length? o ⟨r, a⟩ = some n) : h'.arrayLength o = .ok n := by
  cases hserves with
  | @allocArray length =>
    rw [Entry.length?] at hn
    split at hn
    · rename_i ho
      cases hn
      rw [← ho, arrayLength_eq_ok]
      exact ⟨_, by rw [find?_push, if_pos rfl], Array.size_replicate⟩
    · cases hn
  | allocRecord | setField | setIndex => cases hn
  | asks _ hr =>
    cases r with
    | allocRecord | setField | allocArray | setIndex => cases hr
    | getField | arrayLength | getIndex | isRecord | isArray | recordCount | arrayCount => cases hn
  | fails => cases r <;> cases hn

theorem arrayLength_of_mem_log (limit : Nat) (requests : List Request) (o : ObjectId) (n : Nat) :
    ∀ entry ∈ (fresh limit).log requests, entry.length? o = some n →
      ((fresh limit).after requests).arrayLength o = .ok n := by
  refine log_induction
    (P := fun log h => ∀ entry ∈ log, entry.length? o = some n → h.arrayLength o = .ok n)
    (fun entry hnil => (by cases hnil)) (fun log h r ih entry hmem hn => ?_) requests
  rcases List.mem_append.mp hmem with hmem | hmem
  · exact (h.serves r).arrayLength_eq (ih entry hmem hn)
  · rw [List.mem_singleton.mp hmem] at hn
    exact (h.serves r).arrayLength_of_length? hn

/-! ## The heap and its history -/

theorem serve_after_eq_answer (limit : Nat) (requests : List Request) (r : Request) :
    (((fresh limit).after requests).serve r).1 =
      answer limit ((fresh limit).log requests) r := by
  have hanswer := serve_eq_answer (numbered_log limit requests) (tells_log limit requests) r
  rwa [maxArrayLength_after] at hanswer

/-- A set changes the answer to no question but the one for what it sets. -/
theorem serve_after_set (limit : Nat) (requests : List Request) {r q : Request}
    (hr : r.isSet = true) (hq : q.isQuestion = true) (hne : q.place? ≠ r.place?) :
    ((((fresh limit).after requests).serve r).2.serve q).1 =
      (((fresh limit).after requests).serve q).1 := by
  have hafter := serve_after_eq_answer limit (requests ++ [r]) q
  rw [after_append, log_append] at hafter
  rw [serve_after_eq_answer, ← answer_append_set limit _ _ hr hq hne]
  exact hafter

/-- **A heap is a summary of its history.**  Whatever was asked of a heap that began without
objects, it answers each request as its history calls for.  The length of an array is for ever the
one that it was allocated with.  Setting a field or a cell changes the answer to no question but
the one for this field or cell.  A request that fails leaves the heap as it is. -/
theorem answer_of_log (limit : Nat) (requests : List Request) :
    (∀ r, (((fresh limit).after requests).serve r).1 =
        answer limit ((fresh limit).log requests) r) ∧
      (∀ o n, ∀ entry ∈ (fresh limit).log requests, entry.length? o = some n →
        ((fresh limit).after requests).arrayLength o = .ok n) ∧
      (∀ r q : Request, r.isSet = true → q.isQuestion = true → q.place? ≠ r.place? →
        ((((fresh limit).after requests).serve r).2.serve q).1 =
          (((fresh limit).after requests).serve q).1) ∧
      ∀ r e, (((fresh limit).after requests).serve r).1 = .error e →
        (((fresh limit).after requests).serve r).2 = (fresh limit).after requests := by
  refine ⟨serve_after_eq_answer limit requests, arrayLength_of_mem_log limit requests,
    fun r q hr hq hne => serve_after_set limit requests hr hq hne, fun r e he => ?_⟩
  have hserves := serves ((fresh limit).after requests) r
  rw [he] at hserves
  exact hserves.eq_of_error

/-- A set that failed has set nothing, even if its number is handed out later. -/
example : (((fresh 8).after [.setField 2025 "x" .null, .allocRecord]).serve
    (.getField 2025 "x")).1 = .error (.unsetField "x") := rfl

end Heap
end Opstack
