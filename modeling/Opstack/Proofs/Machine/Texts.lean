import Mathlib.Algebra.Group.Nat.Defs
import Opstack.Proofs.Machine.Operands

/-!
# Lengths and characters of texts

`LEN`, `GETC` and `ADD` count characters, all three in the same way: a text of `n` characters has
the characters `0` to `n - 1`, a sum has those of both parts one after the other, and nothing else
is a character of it.

* `Value.charAt?_of_toInt`: the character at an index, if the index is not negative, is that of the
  list of characters.
* `Value.gather_eq`: the characters of a text added up again are the text.
* `texts_agree`: the laws of the three instructions.
-/

set_option autoImplicit false

namespace Opstack

/-! ## Characters -/

namespace Value

section

variable {i : Int64} {k : Nat}

theorem charAt?_of_toInt (h : i.toInt = k) (s : String) : charAt? s i = s.toList[k]? := by
  have hnot : ¬ i < 0 := by
    rw [Int64.lt_iff_toInt_lt, h]
    exact Int.not_lt.mpr (Int.natCast_nonneg k)
  rw [charAt?, if_neg hnot, h, Int.toNat_natCast]

theorem exists_char {s : String} (h : k < s.length) : ∃ c, s.toList[k]? = some c :=
  ⟨_, List.getElem?_eq_getElem (by rwa [String.length_toList])⟩

theorem charAt?_of_neg (h : i.toInt < 0) (s : String) : charAt? s i = none :=
  if_pos (Int64.lt_iff_toInt_lt.mpr h)

/-- The text of one character, or the fault, that stands at an index. -/
theorem binary_getc (s : String) (i : Int64) :
    binary .getc (.str s) (.int i) = match charAt? s i with
      | some c => .ok (.str (String.ofList [c]))
      | none => .error (.indexOutOfBounds i s.length) := rfl

/-- There are characters at the indices below the length. -/
theorem binary_getc_of_some {s : String} {c : Char} (h : i.toInt = k)
    (hc : s.toList[k]? = some c) :
    binary .getc (.str s) (.int i) = .ok (.str (String.ofList [c])) := by
  rw [binary_getc, charAt?_of_toInt h, hc]

/-- There are no others. -/
theorem binary_getc_outside {s : String} (h : ¬ (0 ≤ i.toInt ∧ i.toInt < s.length)) :
    binary .getc (.str s) (.int i) = .error (.indexOutOfBounds i s.length) := by
  have hnone : charAt? s i = none := by
    rcases Int.lt_or_le i.toInt 0 with hneg | hnonneg
    · exact charAt?_of_neg hneg s
    · obtain ⟨k, hk⟩ := Int.eq_ofNat_of_zero_le hnonneg
      rw [charAt?_of_toInt hk, List.getElem?_eq_none_iff, String.length_toList]
      omega
  rw [binary_getc, hnone]

/-- What stands at an index is a text of one character. -/
theorem binary_getc_single {s : String} {v : Value}
    (h : binary .getc (.str s) (.int i) = .ok v) : ∃ c : Char, v = .str (String.ofList [c]) := by
  rw [binary_getc] at h
  cases hc : charAt? s i with
  | some c =>
    rw [hc] at h
    cases h
    exact ⟨c, rfl⟩
  | none =>
    rw [hc] at h
    cases h

end

/-! ## Adding characters up -/

/-- The first characters of a text, each got at its index and added to the sum of those before it,
from the empty text on. -/
def gather (s : String) (count : Nat) : Except Fault Value :=
  (List.range count).foldlM
    (fun sum k => do
      let c ← binary .getc (.str s) (.int (Int64.ofNat k))
      binary .add sum c)
    (.str "")

theorem gather_succ (s : String) (count : Nat) :
    gather s (count + 1) = (do
      let sum ← gather s count
      let c ← binary .getc (.str s) (.int (Int64.ofNat count))
      binary .add sum c) := by
  rw [gather, List.range_succ, List.foldlM_append]
  simp only [List.foldlM_cons, List.foldlM_nil, bind_pure]
  rfl

/-- **The first characters add up to the beginning of the text.** -/
theorem gather_eq {s : String} (hs : s.length < 2 ^ 63) {count : Nat} (h : count ≤ s.length) :
    gather s count = .ok (.str (String.ofList (s.toList.take count))) := by
  induction count with
  | zero => rfl
  | succ k ih =>
    have hindex : (Int64.ofNat k).toInt = k := Int64.toInt_ofNat_of_lt (Nat.lt_trans h hs)
    obtain ⟨c, hc⟩ := exists_char h
    rw [gather_succ, ih (Nat.le_of_succ_le h), binary_getc_of_some hindex hc, List.take_add_one,
      hc, Option.toList_some, String.ofList_append]
    rfl

end Value

/-! ## The three instructions together -/

/-- The instruction `LEN` makes this number of a text. -/
def HasLength (s : String) (n : Int64) : Prop := Opcode.len.Makes [.str s] (.ok (.int n))

/-- The instruction `GETC` makes this of a text and an index. -/
def Gets (s : String) (i : Int64) (result : Except Fault Value) : Prop :=
  (Opcode.binary .getc).Makes [.int i, .str s] result

theorem hasLength_singleton (c : Char) : HasLength (String.ofList [c]) 1 := by
  have h := Opcode.makes_len (String.ofList [c])
  rwa [String.length_ofList] at h

theorem gets_iff {s : String} {i : Int64} {result : Except Fault Value} :
    Gets s i result ↔ Value.binary .getc (.str s) (.int i) = result :=
  Opcode.makes_binary_iff

/-- The laws of two texts, their sum and the lengths of the three. -/
structure TextsAgree (s t sum : String) (m n k : Int64) : Prop where
  /-- The length of the sum is the sum of the lengths. -/
  length : k.toInt = m.toInt + n.toInt
  /-- At an index below the length of the first text the sum has its character. -/
  left : ∀ i : Int64, 0 ≤ i.toInt → i.toInt < m.toInt →
    ∃ c, Gets sum i (.ok (.str c)) ∧ Gets s i (.ok (.str c))
  /-- From there on it has the characters of the second text. -/
  right : ∀ i : Int64, m.toInt ≤ i.toInt → i.toInt < m.toInt + n.toInt →
    ∃ c, Gets sum i (.ok (.str c)) ∧ Gets t (i - m) (.ok (.str c))
  /-- Any other index is refused, and named together with the length. -/
  outside : ∀ i : Int64, ¬ (0 ≤ i.toInt ∧ i.toInt < m.toInt + n.toInt) →
    Gets sum i (.error (.indexOutOfBounds i (m.toInt + n.toInt).toNat))
  /-- What is got is a text of length one. -/
  single : ∀ i v, Gets s i (.ok v) → ∃ c, v = .str c ∧ HasLength c 1
  /-- All characters of the first text, got in order and added up, are the text. -/
  gathered : Value.gather s m.toInt.toNat = .ok (.str s)

/-- **Lengths, indices and concatenation of texts agree**, as long as the lengths fit into a signed
integer. -/
theorem texts_agree (s t : String) (h : s.length + t.length < 2 ^ 63) :
    ∃ sum m n k, (Opcode.binary .add).Makes [.str t, .str s] (.ok (.str sum)) ∧
      HasLength s m ∧ HasLength t n ∧ HasLength sum k ∧ TextsAgree s t sum m n k := by
  have hm : (Int64.ofNat s.length).toInt = s.length := Int64.toInt_ofNat_of_lt (by omega)
  have hn : (Int64.ofNat t.length).toInt = t.length := Int64.toInt_ofNat_of_lt (by omega)
  have hk : (Int64.ofNat (s ++ t).length).toInt = (s ++ t).length :=
    Int64.toInt_ofNat_of_lt (by rw [String.length_append]; exact h)
  have hlength : (s ++ t).length = s.length + t.length := String.length_append s t
  have hlist : (s ++ t).toList = s.toList ++ t.toList := String.toList_append
  refine ⟨s ++ t, _, _, _, Opcode.makes_binary .add (.str s) (.str t), Opcode.makes_len s,
    Opcode.makes_len t, Opcode.makes_len (s ++ t), ?_⟩
  constructor
  case length =>
    rw [hm, hn, hk, hlength]
    exact Int.natCast_add _ _
  case left =>
    intro i hi hlt
    obtain ⟨j, hj⟩ := Int.eq_ofNat_of_zero_le hi
    have hjs : j < s.length := by omega
    obtain ⟨c, hc⟩ := Value.exists_char hjs
    have hsum : (s ++ t).toList[j]? = some c := by
      rw [hlist, List.getElem?_append_left (by rwa [String.length_toList]), hc]
    exact ⟨String.ofList [c], gets_iff.mpr (Value.binary_getc_of_some hj hsum),
      gets_iff.mpr (Value.binary_getc_of_some hj hc)⟩
  case right =>
    intro i hi hlt
    rw [hm] at hi hlt
    rw [hn] at hlt
    obtain ⟨j, hj⟩ : ∃ j : Nat, i.toInt = (s.length + j : Nat) :=
      ⟨(i.toInt - s.length).toNat, by omega⟩
    have hback : (i - Int64.ofNat s.length).toInt = j := by
      rw [Int64.toInt_sub, hm, Int.bmod_eq_of_le (by omega) (by omega)]
      omega
    obtain ⟨c, hc⟩ := Value.exists_char (show j < t.length by omega)
    have hsum : (s ++ t).toList[s.length + j]? = some c := by
      rw [hlist, List.getElem?_append_right (by rw [String.length_toList]; omega),
        String.length_toList, Nat.add_sub_cancel_left, hc]
    exact ⟨String.ofList [c], gets_iff.mpr (Value.binary_getc_of_some hj hsum),
      gets_iff.mpr (Value.binary_getc_of_some hback hc)⟩
  case outside =>
    intro i hi
    rw [hm, hn, ← Int.natCast_add, ← hlength] at hi ⊢
    exact gets_iff.mpr (Value.binary_getc_outside hi)
  case single =>
    intro i v hv
    obtain ⟨c, rfl⟩ := Value.binary_getc_single (gets_iff.mp hv)
    exact ⟨String.ofList [c], rfl, hasLength_singleton c⟩
  case gathered =>
    rw [hm, Int.toNat_natCast, Value.gather_eq (by omega) (Nat.le_refl _), ← String.length_toList,
      List.take_length, String.ofList_toList]

/-- Two texts with characters of one to four bytes. -/
theorem texts_agree_accents : "añ€".length + "😀b".length < 2 ^ 63 ∧
    ∃ sum m n k, (Opcode.binary .add).Makes [.str "😀b", .str "añ€"] (.ok (.str sum)) ∧
      HasLength "añ€" m ∧ HasLength "😀b" n ∧ HasLength sum k ∧ TextsAgree "añ€" "😀b" sum m n k :=
  ⟨by decide, texts_agree "añ€" "😀b" (by decide)⟩

end Opstack
