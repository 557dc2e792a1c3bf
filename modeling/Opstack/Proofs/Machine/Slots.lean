import Mathlib.Data.List.Induction
import Opstack.Proofs.Machine.Effects

/-!
# Slots

The slots of an activation are an array that grows with the stores to it.  A store to a slot in use
changes that slot; a store beyond those in use puts `null` into the slots between; a store at its
limit or above it is refused.

* `Frame.after` is a frame after a history of stores, granted or refused.
* `Frame.latest` and `Frame.inUse` are read off a history alone: the value that was last stored to a
  slot, and how many slots have come into use.
* `Frame.slots_of_history`: these two say everything that there is to say about a new frame with a
  history.
-/

set_option autoImplicit false

namespace Opstack

/-! ## Histories -/

namespace Frame

/-- A store that is asked of a frame: the slot, the value, and the limit at that time. -/
structure Store where
  /-- The slot. -/
  slot : Nat
  /-- The value. -/
  value : Value
  /-- The slots below it may be stored to. -/
  limit : Nat

/-- The frame after a store; a store that is refused leaves it as it is. -/
def put (f : Frame) (r : Store) : Frame :=
  match f.store r.slot r.value r.limit with
  | .ok f => f
  | .error _ => f

/-- The frame after several stores. -/
def after (f : Frame) (history : List Store) : Frame := history.foldl put f

/-- The stores of a history that are below their limits. -/
def granted (history : List Store) : List Store := history.filter fun r => r.slot < r.limit

/-- The value of the latest granted store to a slot. -/
def latest (history : List Store) (s : Nat) : Option Value :=
  (((granted history).filter fun r => r.slot = s).getLast?).map Store.value

/-- One more than the largest slot of a granted store, and zero if there is none. -/
def inUse (history : List Store) : Nat :=
  (((granted history).map Store.slot).max?.map fun slot => slot + 1).getD 0

section

variable {f : Frame} {r : Store} {history : List Store}

/-! ### A store that is refused -/

theorem store_of_le (h : r.limit ≤ r.slot) :
    f.store r.slot r.value r.limit = .error (.invalidStoreIndex r.slot) :=
  if_neg (Nat.not_lt.mpr h)

theorem put_of_le (h : r.limit ≤ r.slot) : f.put r = f := by
  rw [put, store_of_le h]

theorem granted_concat_of_le (h : r.limit ≤ r.slot) :
    granted (history ++ [r]) = granted history := by
  simp [granted, Nat.not_lt.mpr h]

/-! ### A store that is granted -/

theorem store_of_lt (h : r.slot < r.limit) :
    f.store r.slot r.value r.limit = .ok { f with slots := storeSlot f.slots r.slot r.value } :=
  if_pos h

theorem put_of_lt (h : r.slot < r.limit) :
    f.put r = { f with slots := storeSlot f.slots r.slot r.value } := by
  rw [put, store_of_lt h]

theorem granted_concat_of_lt (h : r.slot < r.limit) :
    granted (history ++ [r]) = granted history ++ [r] := by
  simp [granted, h]

theorem latest_concat (h : r.slot < r.limit) (s : Nat) :
    latest (history ++ [r]) s = if s = r.slot then some r.value else latest history s := by
  rw [latest, granted_concat_of_lt h, List.filter_append]
  by_cases hs : s = r.slot
  · rw [if_pos hs, hs]
    simp
  · rw [if_neg hs]
    simp [latest, Ne.symm hs]

theorem inUse_concat (h : r.slot < r.limit) :
    inUse (history ++ [r]) = max (inUse history) (r.slot + 1) := by
  rw [inUse, inUse, granted_concat_of_lt h, List.map_append, List.map_singleton]
  generalize (granted history).map Store.slot = slots
  cases slots with
  | nil => simp
  | cons slot slots =>
    rw [List.cons_append, List.max?_cons', List.max?_cons', List.foldl_append, List.foldl_cons,
      List.foldl_nil]
    simp only [Option.map_some, Option.getD_some]
    omega

/-! ### All stores -/

theorem after_concat (f : Frame) (history : List Store) (r : Store) :
    f.after (history ++ [r]) = (f.after history).put r := List.foldl_append

/-- **The slots of a new frame with a history**, one by one. -/
theorem getElem?_after (routine : Routine) (history : List Store) (s : Nat) :
    (after { routine } history).slots[s]? =
      (latest history s).or (if s < inUse history then some .null else none) := by
  induction history using List.reverseRecOn with
  | nil => rfl
  | append_singleton history r ih =>
    rw [after_concat]
    rcases Nat.lt_or_ge r.slot r.limit with hlt | hle
    · rw [put_of_lt hlt, getElem?_storeSlot, latest_concat hlt, inUse_concat hlt, ih]
      by_cases hs : s = r.slot
      · rw [if_pos hs, if_pos hs, Option.some_or]
      · rw [if_neg hs, if_neg hs, Option.or_assoc]
        by_cases hin : s < inUse history
        · rw [if_pos hin, Option.some_or, if_pos (by omega)]
        · rw [if_neg hin, Option.none_or]
          by_cases hlt : s < r.slot
          · rw [if_pos hlt, if_pos (by omega)]
          · rw [if_neg hlt, if_neg (by omega)]
    · rw [put_of_le hle, latest, inUse, granted_concat_of_le hle]
      exact ih

/-- A new frame with a history has as many slots as the history has brought into use. -/
theorem size_after (routine : Routine) (history : List Store) :
    (after { routine } history).slots.size = inUse history := by
  induction history using List.reverseRecOn with
  | nil => rfl
  | append_singleton history r ih =>
    rw [after_concat]
    rcases Nat.lt_or_ge r.slot r.limit with hlt | hle
    · rw [put_of_lt hlt, size_storeSlot, ih, inUse_concat hlt]
    · rw [put_of_le hle, ih, inUse, inUse, granted_concat_of_le hle]

end

/-! ## What a history says -/

/-- What a history calls for when a slot is loaded: the latest value stored to it, `null` if it has
come into use without one, and a fault otherwise. -/
def expected (history : List Store) (s : Nat) : Except Fault Value :=
  match latest history s with
  | some v => .ok v
  | none => if s < inUse history then .ok .null else .error (.uninitializedSlot s)

/-- The frame of a routine that has seen nothing but these stores is what they call for, and will
take the next store accordingly. -/
structure Reflects (routine : Routine) (history : List Store) : Prop where
  /-- There are as many slots as have come into use. -/
  size : (after { routine } history).slots.size = inUse history
  /-- Every slot is loaded as the history calls for. -/
  load : ∀ s, (after { routine } history).load s = expected history s
  /-- The next store fails exactly if it is not below its limit, and names its slot. -/
  fails : ∀ (r : Store) (e : Fault), (after { routine } history).store r.slot r.value r.limit =
    .error e ↔ r.limit ≤ r.slot ∧ e = .invalidStoreIndex r.slot
  /-- A store that fails changes nothing. -/
  spares : ∀ r : Store, r.limit ≤ r.slot →
    after { routine } (history ++ [r]) = after { routine } history
  /-- Any other store gives the frame of the longer history. -/
  stores : ∀ r : Store, r.slot < r.limit →
    (after { routine } history).store r.slot r.value r.limit =
      .ok (after { routine } (history ++ [r]))
  /-- No store changes another slot in use. -/
  others : ∀ (r : Store) (s : Nat), s ≠ r.slot → s < inUse history →
    (after { routine } (history ++ [r])).load s = (after { routine } history).load s

/-- **A new frame with a history of stores is what the history says**: an array bounded by the
limits, with `null` in its gaps. -/
theorem slots_of_history (routine : Routine) (history : List Store) :
    Reflects routine history := by
  have hload : ∀ history s, (after { routine } history).load s = expected history s := by
    intro history s
    rw [Frame.load, getElem?_after, expected]
    cases latest history s with
    | some v => rfl
    | none =>
      by_cases hs : s < inUse history
      · simp [hs]
      · simp [hs]
  constructor
  case size => exact size_after routine history
  case load => exact hload history
  case fails =>
    intro r e
    rcases Nat.lt_or_ge r.slot r.limit with hlt | hle
    · rw [store_of_lt hlt]
      exact ⟨fun h => (by cases h), fun h => absurd h.1 (Nat.not_le.mpr hlt)⟩
    · rw [store_of_le hle]
      exact ⟨fun h => ⟨hle, (Except.error.inj h).symm⟩, fun h => by rw [h.2]⟩
  case spares =>
    intro r hle
    rw [after_concat, put_of_le hle]
  case stores =>
    intro r hlt
    rw [store_of_lt hlt, after_concat, put_of_lt hlt]
  case others =>
    intro r s hs hin
    rcases Nat.lt_or_ge r.slot r.limit with hlt | hle
    · rw [hload, hload, expected, expected, latest_concat hlt, if_neg hs, inUse_concat hlt,
        if_pos hin, if_pos (by omega)]
    · rw [after_concat, put_of_le hle]

/-- Stores out of order, one of them refused: the slots between hold `null`. -/
example : (List.range 5).map (expected [⟨3, .int 7, 16⟩, ⟨16, .bool true, 16⟩, ⟨1, .str "a", 2⟩]) =
    [.ok .null, .ok (.str "a"), .ok .null, .ok (.int 7), .error (.uninitializedSlot 4)] := by
  rfl

end Frame
end Opstack
