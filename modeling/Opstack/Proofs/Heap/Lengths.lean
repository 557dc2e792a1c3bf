import Opstack.Proofs.Heap.Contents

/-!
# Lengths of arrays

An array gets its cells when it is allocated, never more than the limit allows, and no request adds
a cell to it or takes one away: `Heap.arrayLength_after` and `Heap.Bounded.after`.  An array that is
there after a request was there before or is the one that the request asked for
(`Heap.Serves.length_cases`).
-/

set_option autoImplicit false

namespace Opstack
namespace Heap

variable {h h' : Heap} {o : ObjectId} {n : Nat} {length : Int64} {r : Request}
  {answer : Except Fault Reply}

/-- A length that can be allocated is a number of cells that the limit allows. -/
theorem exists_length_of_fits (hfits : h.lengthFault? length true = none) :
    length.toInt = length.toInt.toNat ∧ length.toInt.toNat ≤ h.maxArrayLength := by
  have hfault := mt (h.exists_lengthFault?_iff length true).mpr (by
    rintro ⟨e, he⟩
    cases hfits.symm.trans he)
  obtain ⟨hneg, hlarge⟩ := not_or.mp hfault
  rw [Int64.lt_iff_toInt_lt] at hneg
  exact ⟨(Int.toNat_of_nonneg (Int.not_lt.mp hneg)).symm, Nat.le_of_not_lt (not_or.mp hlarge).1⟩

/-- An array that there is after a request was there before, or it is the one that the request has
allocated. -/
theorem Serves.length_cases (hserves : Serves h r answer h') (hn : h'.arrayLength o = .ok n) :
    h.arrayLength o = .ok n ∨ o = h.nextObject ∧
      ∃ length : Int64, r = .allocArray length true ∧ length.toInt = n ∧ n ≤ h.maxArrayLength := by
  rw [arrayLength_eq_ok] at hn ⊢
  obtain ⟨cells, hfind, rfl⟩ := hn
  cases hserves with
  | allocRecord =>
    rw [find?_push] at hfind
    split at hfind
    · cases hfind
    · exact .inl ⟨cells, hfind, rfl⟩
  | @allocArray length hfits =>
    rw [find?_push] at hfind
    split at hfind
    · rename_i ho
      cases hfind
      obtain ⟨hlength, hle⟩ := exists_length_of_fits hfits
      rw [Array.size_replicate]
      exact .inr ⟨ho, length, rfl, hlength, hle⟩
    · exact .inl ⟨cells, hfind, rfl⟩
  | setField field v hold =>
    rw [find?_put hold] at hfind
    split at hfind
    · cases hfind
    · exact .inl ⟨cells, hfind, rfl⟩
  | setIndex v hold _ =>
    rw [find?_put hold] at hfind
    split at hfind
    · rename_i ho
      cases hfind
      exact .inl ⟨_, ho ▸ hold, Array.size_setIfInBounds.symm⟩
    · exact .inl ⟨cells, hfind, rfl⟩
  | asks | fails => exact .inl ⟨cells, hfind, rfl⟩

/-- No array has more cells than the limit allows. -/
def Bounded (h : Heap) : Prop := ∀ o n, h.arrayLength o = .ok n → n ≤ h.maxArrayLength

theorem Bounded.serve (hh : h.Bounded) (hserves : Serves h r answer h') : h'.Bounded := by
  intro o n hn
  rw [hserves.maxArrayLength_eq]
  rcases hserves.length_cases hn with hold | ⟨-, length, -, -, hle⟩
  · exact hh o n hold
  · exact hle

/-- **An array keeps its length**, whatever the heap is asked. -/
theorem arrayLength_after (hn : h.arrayLength o = .ok n) (requests : List Request) :
    (h.after requests).arrayLength o = .ok n :=
  log_induction (P := fun _ later => later.arrayLength o = .ok n) hn
    (fun _ later r ih => (later.serves r).arrayLength_eq ih) requests

/-- No history makes an array longer than the limit allows. -/
theorem Bounded.after (hh : h.Bounded) (requests : List Request) : (h.after requests).Bounded :=
  log_induction (P := fun _ later => later.Bounded) hh
    (fun _ later r ih => ih.serve (later.serves r)) requests

end Heap
end Opstack
