import Mathlib.Data.List.AList
import Opstack.Heap

/-!
# The heap in two tables

The objects of a machine as they are kept: the records are in one table and the arrays in another,
and both get their numbers from one counter.  The counter has sixty-four bits, so it begins again at
zero in the end, and whoever draws a number adds one to it.  An allocation draws its number last,
after everything has been looked at that can refuse it.

`Heap` has the objects of both tables in one list, where their numbers need not be kept.
-/

set_option autoImplicit false

namespace Opstack

/-- What there is under each of some numbers. -/
abbrev Table (α : Type) := AList fun _ : ObjectId => α

/-- The tables and the counter. -/
structure Tables where
  /-- The fields of the records. -/
  records : Table (List (String × Value)) := ∅
  /-- The cells of the arrays. -/
  arrays : Table (Array Value) := ∅
  /-- The number that is drawn next. -/
  next : UInt64 := 2025
  /-- The most cells that an array may have. -/
  maxArrayLength : Nat := ({} : Config).maxArrayLength

namespace Tables

/-- Draws a number. -/
def draw (t : Tables) : ObjectId × Tables := (t.next.toNat, { t with next := t.next + 1 })

/-! ## Records -/

/-- Allocates a record without fields. -/
def allocRecord (t : Tables) : ObjectId × Tables :=
  let (o, t) := t.draw
  (o, { t with records := t.records.insert o [] })

/-- Sets a field of a record. -/
def setField (t : Tables) (o : ObjectId) (field : String) (v : Value) :
    Except Fault Unit × Tables :=
  match t.records.lookup o with
  | some fields => (.ok (), { t with records := t.records.insert o (withField fields field v) })
  | none => (.error (.unknownObject o), t)

/-- Gets a field of a record. -/
def getField (t : Tables) (o : ObjectId) (field : String) : Except Fault Value :=
  match t.records.lookup o with
  | some fields =>
    match fieldOf? fields field with
    | some v => .ok v
    | none => .error (.unsetField field)
  | none => .error (.unknownObject o)

/-! ## Arrays -/

/-- Allocates an array of a length with `null` in every cell.  The memory has room for the cells or
not. -/
def allocArray (t : Tables) (length : Int64) (hasRoom : Bool) : Except Fault ObjectId × Tables :=
  if length < 0 then (.error (.negativeLength length), t)
  else if t.maxArrayLength < length.toInt.toNat then (.error (.arrayTooLarge length), t)
  else if hasRoom = false then (.error (.arrayTooLarge length), t)
  else
    let (o, t) := t.draw
    (.ok o, { t with arrays := t.arrays.insert o (Array.replicate length.toInt.toNat .null) })

/-- The length of an array. -/
def arrayLength (t : Tables) (o : ObjectId) : Except Fault Nat :=
  match t.arrays.lookup o with
  | some cells => .ok cells.size
  | none => .error (.unknownObject o)

/-- Gets a cell of an array. -/
def getIndex (t : Tables) (o : ObjectId) (index : Int64) : Except Fault Value :=
  match t.arrays.lookup o with
  | some cells => (Heap.checkedIndex index cells.size).map fun i => cells[i]?.getD .null
  | none => .error (.unknownObject o)

/-- Sets a cell of an array. -/
def setIndex (t : Tables) (o : ObjectId) (index : Int64) (v : Value) :
    Except Fault Unit × Tables :=
  match t.arrays.lookup o with
  | some cells =>
    match Heap.checkedIndex index cells.size with
    | .ok i => (.ok (), { t with arrays := t.arrays.insert o (cells.setIfInBounds i v) })
    | .error e => (.error e, t)
  | none => (.error (.unknownObject o), t)

/-! ## Counting -/

/-- There is a record with this number. -/
def isRecord (t : Tables) (o : ObjectId) : Bool := (t.records.lookup o).isSome

/-- There is an array with this number. -/
def isArray (t : Tables) (o : ObjectId) : Bool := (t.arrays.lookup o).isSome

/-- How many records there are. -/
def recordCount (t : Tables) : Nat := t.records.keys.length

/-- How many arrays there are. -/
def arrayCount (t : Tables) : Nat := t.arrays.keys.length

end Tables
end Opstack
