import Opstack.Proofs.Heap.History

/-!
# References in a heap

A reference is a number.  `Heap.Knows` says that a value is no reference, or one to an object of the
heap; since objects are never given up, a value that is known stays so.

* `Heap.HasOnly` says of any property that the values in the objects have it.  A request keeps it
  so, unless it sets a field or a cell to a value that has not (`Heap.HasOnly.serve`).
* `Heap.ServesOne` is what an instruction makes of the heap: it asks it at most once, with values
  that it has.
-/

set_option autoImplicit false

namespace Opstack

namespace Heap

/-- The value is no reference, or one to an object of the heap. -/
def Knows (h : Heap) (v : Value) : Prop := ∀ o, v = .ref o → (h.find? o).isSome = true

/-- The other heap has the same objects, and maybe more. -/
def Grows (h h' : Heap) : Prop := ∀ o, (h.find? o).isSome = true → (h'.find? o).isSome = true

variable {h h' : Heap} {v : Value} {o : ObjectId} {r : Request} {answer : Except Fault Reply}

theorem knows_of_asRef? (hv : v.asRef? = none) : h.Knows v := by
  rintro o rfl
  cases hv

theorem knows_null (h : Heap) : h.Knows .null := knows_of_asRef? rfl

theorem knows_ref (ho : (h.find? o).isSome = true) : h.Knows (.ref o) := by
  intro o' ho'
  cases ho'
  exact ho

theorem Knows.mono (hv : h.Knows v) (hgrows : h.Grows h') : h'.Knows v :=
  fun o ho => hgrows o (hv o ho)

theorem Grows.knows (hgrows : h.Grows h') : ∀ v, h.Knows v → h'.Knows v :=
  fun _ hv => hv.mono hgrows

theorem grows_after (h : Heap) (requests : List Request) : h.Grows (h.after requests) := by
  intro o ho
  rw [isSome_find?_iff] at ho ⊢
  exact ho.imp (isRecord_after · requests) (isArray_after · requests)

end Heap

/-! ## Values in objects -/

/-- The object has only values with a property. -/
def Obj.HasOnly (P : Value → Prop) : Obj → Prop
  | .record fields => ∀ field v, fieldOf? fields field = some v → P v
  | .array cells => ∀ (i : Nat) v, cells[i]? = some v → P v

theorem Obj.HasOnly.mono {P Q : Value → Prop} {object : Obj} (hobject : object.HasOnly P)
    (h : ∀ v, P v → Q v) : object.HasOnly Q := by
  cases object with
  | record fields => exact fun field v hv => h v (hobject field v hv)
  | array cells => exact fun i v hv => h v (hobject i v hv)

namespace Heap

/-- All objects of the heap have only values with a property. -/
def HasOnly (P : Value → Prop) (h : Heap) : Prop :=
  ∀ o object, h.find? o = some object → object.HasOnly P

/-- The value that a request sets a field or a cell to. -/
def Request.value? : Request → Option Value
  | .setField _ _ v | .setIndex _ _ v => some v
  | _ => none

variable {P Q : Value → Prop} {h h' : Heap} {v : Value} {o : ObjectId} {r : Request}
  {answer : Except Fault Reply}

theorem HasOnly.mono (hheap : h.HasOnly P) (hPQ : ∀ v, P v → Q v) : h.HasOnly Q :=
  fun o object hfind => (hheap o object hfind).mono hPQ

theorem HasOnly.push {object : Obj} (hheap : h.HasOnly P) (hobject : object.HasOnly P) :
    (h.push object).HasOnly P := by
  intro o old hfind
  rw [find?_push] at hfind
  split at hfind
  · cases hfind
    exact hobject
  · exact hheap o old hfind

theorem HasOnly.put {old object : Obj} (hheap : h.HasOnly P) (hold : h.find? o = some old)
    (hobject : object.HasOnly P) : (h.put o object).HasOnly P := by
  intro other another hfind
  rw [find?_put hold] at hfind
  split at hfind
  · cases hfind
    exact hobject
  · exact hheap other another hfind

/-- A request brings no other values into the heap than `null` and the one that it sets a field or a
cell to. -/
theorem HasOnly.serve (hheap : h.HasOnly P) (hnull : P .null) (hserves : Serves h r answer h')
    (hvalue : ∀ v, r.value? = some v → P v) : h'.HasOnly P := by
  cases hserves with
  | allocRecord => exact hheap.push fun field v hv => by cases hv
  | allocArray =>
    refine hheap.push fun i v hv => ?_
    rw [Array.getElem?_replicate] at hv
    split at hv <;> cases hv
    exact hnull
  | setField name w hold =>
    refine hheap.put hold fun field v hv => ?_
    rw [fieldOf?_withField] at hv
    split at hv
    · exact hvalue v hv
    · exact hheap _ _ hold field v hv
  | setIndex w hold =>
    refine hheap.put hold fun i v hv => ?_
    rw [Array.getElem?_setIfInBounds] at hv
    split at hv
    · split at hv <;> cases hv
      exact hvalue _ rfl
    · exact hheap _ _ hold i v hv
  | asks | fails => exact hheap

theorem HasOnly.getField (hheap : h.HasOnly P) {field : String}
    (hv : h.getField o field = .ok v) : P v := by
  obtain ⟨fields, hfind, hv⟩ := getField_eq_ok.mp hv
  exact hheap o _ hfind field v hv

theorem HasOnly.getIndex (hheap : h.HasOnly P) (hnull : P .null) {index : Int64}
    (hv : h.getIndex o index = .ok v) : P v := by
  rcases h.getIndex_cases o index with ⟨cells, i, hfind, -, heq⟩ | ⟨cells, e, -, -, heq⟩ |
    ⟨-, heq⟩ <;> cases heq.symm.trans hv
  cases hcell : cells[i]? with
  | none => exact hnull
  | some w => exact hheap o _ hfind i w hcell

end Heap

/-! ## One request -/

namespace Heap

variable {h h' : Heap}

/-- The heap stays as it is or serves one request, and sets a field or a cell to nothing but one of
the values. -/
def ServesOne (h : Heap) (values : List Value) (h' : Heap) : Prop :=
  h' = h ∨ ∃ r : Request, h' = (h.serve r).2 ∧ ∀ v, r.value? = some v → v ∈ values

theorem ServesOne.exists_requests {h h' : Heap} {values : List Value}
    (hserves : h.ServesOne values h') : ∃ requests, h' = h.after requests := by
  rcases hserves with rfl | ⟨r, rfl, -⟩
  · exact ⟨[], rfl⟩
  · exact ⟨[r], rfl⟩

theorem ServesOne.hasOnly {P : Value → Prop} {values : List Value}
    (hserves : h.ServesOne values h') (hheap : h.HasOnly P) (hnull : P .null)
    (hvalues : ∀ v ∈ values, P v) : h'.HasOnly P := by
  rcases hserves with rfl | ⟨r, rfl, hr⟩
  · exact hheap
  · exact hheap.serve hnull (h.serves r) fun v hv => hvalues v (hr v hv)

end Heap

end Opstack
