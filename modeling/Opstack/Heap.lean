import Opstack.Config
import Opstack.Failure

/-!
# The heap

The heap holds the objects of a machine: records, whose fields come into being when they are set,
and arrays, whose length is fixed when they are allocated.  Objects are numbered from
`Heap.firstObject` on in the order of their allocation and are never given up, so the heap is just
the list of its objects.

Every operation answers and hands back the heap as it is afterwards; when the answer is a fault,
that is the heap as it was.
-/

set_option autoImplicit false

namespace Opstack

/-- An object of the heap. -/
inductive Obj
  /-- A record with the fields that were set, each name once. -/
  | record (fields : List (String × Value))
  /-- An array of cells. -/
  | array (cells : Array Value)

/-- The objects of a machine. -/
structure Heap where
  /-- The most cells that an array may have. -/
  maxArrayLength : Nat := ({} : Config).maxArrayLength
  /-- The most cells that the host has room for in one array. -/
  capacity : Nat := ({} : Host).capacity
  /-- The objects in the order of their allocation. -/
  objects : Array Obj := #[]
deriving Inhabited

/-- The value of a field. -/
def fieldOf? (fields : List (String × Value)) (field : String) : Option Value :=
  fields.lookup field

/-- The fields with one of them set. -/
def withField : List (String × Value) → String → Value → List (String × Value)
  | [], field, v => [(field, v)]
  | (name, old) :: rest, field, v =>
    if name = field then (name, v) :: rest else (name, old) :: withField rest field v

namespace Heap

/-- The number of the first object. -/
def firstObject : ObjectId := 2025

/-- The number of the next object to be allocated. -/
def nextObject (h : Heap) : ObjectId := firstObject + h.objects.size

/-- The object with a number. -/
def find? (h : Heap) (o : ObjectId) : Option Obj :=
  if o < firstObject then none else h.objects[o - firstObject]?

/-- The heap with one more object, which has the number `nextObject`. -/
def push (h : Heap) (object : Obj) : Heap := { h with objects := h.objects.push object }

/-- The heap with one object changed. -/
def modify (h : Heap) (o : ObjectId) (f : Obj → Obj) : Heap :=
  if o < firstObject then h else { h with objects := h.objects.modify (o - firstObject) f }

/-- The place in an array of a length that an index names. -/
def checkedIndex (index : Int64) (length : Nat) : Except Fault Nat :=
  if 0 ≤ index ∧ index.toInt.toNat < length then .ok index.toInt.toNat
  else .error (.indexOutOfBounds index length)

/-! ## Records -/

/-- Allocates a record without fields. -/
def allocRecord (h : Heap) : ObjectId × Heap := (h.nextObject, h.push (.record []))

/-- Sets a field of a record. -/
def setField (h : Heap) (o : ObjectId) (field : String) (v : Value) : Except Fault Unit × Heap :=
  match h.find? o with
  | some (.record _) =>
    (.ok (), h.modify o fun
      | .record fields => .record (withField fields field v)
      | object => object)
  | _ => (.error (.unknownObject o), h)

/-- Gets a field of a record. -/
def getField (h : Heap) (o : ObjectId) (field : String) : Except Fault Value :=
  match h.find? o with
  | some (.record fields) =>
    match fieldOf? fields field with
    | some v => .ok v
    | none => .error (.unsetField field)
  | _ => .error (.unknownObject o)

/-! ## Arrays -/

/-- Why an array of this length cannot be allocated, if it cannot: there is room for its cells in
the memory or not. -/
def lengthFault? (h : Heap) (length : Int64) (hasRoom : Bool) : Option Fault :=
  if length < 0 then some (.negativeLength length)
  else if h.maxArrayLength < length.toInt.toNat ∨ hasRoom = false then
    some (.arrayTooLarge length)
  else none

/-- Allocates an array of a length with `null` in every cell, if there is room for them. -/
def allocArrayIf (h : Heap) (length : Int64) (hasRoom : Bool) : Except Fault ObjectId × Heap :=
  match h.lengthFault? length hasRoom with
  | some e => (.error e, h)
  | none => (.ok h.nextObject, h.push (.array (Array.replicate length.toInt.toNat .null)))

/-- The host has room for so many cells. -/
def hasRoom (h : Heap) (length : Int64) : Bool := decide (length.toInt.toNat ≤ h.capacity)

/-- Allocates an array of a length with `null` in every cell. -/
def allocArray (h : Heap) (length : Int64) : Except Fault ObjectId × Heap :=
  h.allocArrayIf length (h.hasRoom length)

/-- The length of an array. -/
def arrayLength (h : Heap) (o : ObjectId) : Except Fault Nat :=
  match h.find? o with
  | some (.array cells) => .ok cells.size
  | _ => .error (.unknownObject o)

/-- Gets a cell of an array. -/
def getIndex (h : Heap) (o : ObjectId) (index : Int64) : Except Fault Value :=
  match h.find? o with
  | some (.array cells) => (checkedIndex index cells.size).map fun i => cells[i]?.getD .null
  | _ => .error (.unknownObject o)

/-- Sets a cell of an array. -/
def setIndex (h : Heap) (o : ObjectId) (index : Int64) (v : Value) : Except Fault Unit × Heap :=
  match h.arrayLength o with
  | .error e => (.error e, h)
  | .ok length =>
    match checkedIndex index length with
    | .error e => (.error e, h)
    | .ok i =>
      (.ok (), h.modify o fun
        | .array cells => .array (cells.setIfInBounds i v)
        | object => object)

/-! ## Counting -/

/-- The object with this number is a record. -/
def isRecord (h : Heap) (o : ObjectId) : Bool :=
  match h.find? o with
  | some (.record _) => true
  | _ => false

/-- The object with this number is an array. -/
def isArray (h : Heap) (o : ObjectId) : Bool :=
  match h.find? o with
  | some (.array _) => true
  | _ => false

/-- How many objects are records. -/
def recordCount (h : Heap) : Nat :=
  h.objects.toList.countP fun
    | .record _ => true
    | .array _ => false

/-- How many objects are arrays. -/
def arrayCount (h : Heap) : Nat :=
  h.objects.toList.countP fun
    | .record _ => false
    | .array _ => true

end Heap
end Opstack
