import Mathlib.Data.Int.ModEq
import Opstack.Proofs.Machine.Operands

/-!
# Arithmetic of integers

`ADD`, `SUB` and `MUL` make of two integers the exact sum, difference and product modulo 2 ^ 64, so
the laws of a ring hold although the results wrap around.  `DIV` divides exactly and drops the
fraction; the one quotient that does not fit wraps around, and a divisor of zero is the only pair of
integers that is refused.

* `IsResidue` says that an integer of sixty-four bits is the only one that is congruent to an exact
  number, and `isResidue_of_toInt` that wrapping around gives it.
* `IsQuotient` is division toward zero, said by a remainder; `isQuotient_iff`: there is exactly one
  such quotient.
* `arithmetic_exact`: the laws of the four instructions.
-/

set_option autoImplicit false

namespace Opstack

/-! ## Instructions and two integers -/

/-- The instruction makes an integer of two integers, of which the second is on top. -/
def BinaryOp.Gives (op : BinaryOp) (a b n : Int64) : Prop :=
  (Opcode.binary op).Makes [.int b, .int a] (.ok (.int n))

/-- The instruction refuses two integers, of which the second is on top. -/
def BinaryOp.Refuses (op : BinaryOp) (a b : Int64) (e : Fault) : Prop :=
  (Opcode.binary op).Makes [.int b, .int a] (.error e)

namespace BinaryOp

section

variable {a b n : Int64} {e : Fault}

theorem gives_add : add.Gives a b n ↔ a + b = n :=
  Opcode.makes_binary_iff.trans (by simp [Value.binary, Value.add])

theorem gives_sub : sub.Gives a b n ↔ a - b = n :=
  Opcode.makes_binary_iff.trans (by simp [Value.binary, Value.sub])

theorem gives_mul : mul.Gives a b n ↔ a * b = n :=
  Opcode.makes_binary_iff.trans (by simp [Value.binary, Value.mul])

theorem gives_div : div.Gives a b n ↔ b ≠ 0 ∧ a / b = n := by
  refine Opcode.makes_binary_iff.trans ?_
  by_cases hb : b = 0
  · simp [Value.binary, Value.div, hb]
  · simp [Value.binary, Value.div, hb]

theorem refuses_div : div.Refuses a b e ↔ b = 0 ∧ e = .divisionByZero := by
  refine Opcode.makes_binary_iff.trans ?_
  by_cases hb : b = 0
  · simp [Value.binary, Value.div, hb, eq_comm]
  · simp [Value.binary, Value.div, hb]

end

end BinaryOp

/-! ## Exact numbers and their residues -/

/-- The integer of sixty-four bits is the only one that is congruent to the exact number. -/
def IsResidue (z : Int) (n : Int64) : Prop := ∀ m : Int64, m.toInt ≡ z [ZMOD 2 ^ 64] ↔ m = n

theorem toInt_modEq_iff {m n : Int64} : m.toInt ≡ n.toInt [ZMOD 2 ^ 64] ↔ m = n := by
  constructor
  · intro h
    have hemod : m.toInt % 2 ^ 64 = n.toInt % 2 ^ 64 := h
    have hm := m.le_toInt
    have hm' := m.toInt_lt
    have hn := n.le_toInt
    have hn' := n.toInt_lt
    rw [← Int64.toInt_inj]
    omega
  · rintro rfl
    rfl

/-- An exact number that wraps around becomes its residue. -/
theorem isResidue_of_toInt {z : Int} {n : Int64} (h : n.toInt = z.bmod (2 ^ 64)) :
    IsResidue z n := by
  have hn : n.toInt ≡ z [ZMOD 2 ^ 64] := by
    rw [h]
    exact Int.bmod_emod
  exact fun m => ⟨fun hm => toInt_modEq_iff.mp (hm.trans hn.symm), fun hm => hm ▸ hn⟩

/-! ## Division toward zero -/

/-- The exact quotient without its fraction: what it leaves of the dividend is less than the
divisor, and has the sign of the dividend if it is not zero. -/
def IsQuotient (a b q : Int) : Prop := ∃ r, a = q * b + r ∧ |r| < |b| ∧ (r = 0 ∨ r.sign = a.sign)

theorem isQuotient_tdiv (a : Int) {b : Int} (hb : b ≠ 0) : IsQuotient a b (a.tdiv b) := by
  refine ⟨a.tmod b, ?_, ?_, ?_⟩
  · rw [Int.mul_comm, Int.mul_tdiv_add_tmod]
  · rw [Int.abs_eq_natAbs, Int.abs_eq_natAbs, Int.natAbs_tmod]
    exact Int.ofNat_lt.mpr (Nat.mod_lt _ (Int.natAbs_pos.mpr hb))
  · rw [Int.sign_tmod]
    split
    · rename_i hdvd
      exact .inl (Int.tmod_eq_zero_of_dvd hdvd)
    · exact .inr rfl

theorem IsQuotient.eq_tdiv {a b q : Int} (hb : b ≠ 0) (h : IsQuotient a b q) : q = a.tdiv b := by
  obtain ⟨r, ha, hr, hsign⟩ := h
  rw [Int.abs_eq_natAbs, Int.abs_eq_natAbs] at hr
  have hsum : r + b * q = a := by rw [ha, Int.mul_comm, Int.add_comm]
  rcases Int.le_total 0 a with hnonneg | hnonpos
  · have hr0 : 0 ≤ r := by
      rcases hsign with hzero | hsign
      · exact Int.le_of_eq hzero.symm
      · rwa [← Int.sign_nonneg_iff, hsign, Int.sign_nonneg_iff]
    exact ((Int.tdiv_tmod_unique hnonneg hb).mpr ⟨hsum, hr0, by omega⟩).1.symm
  · have hr0 : r ≤ 0 := by
      rcases hsign with hzero | hsign
      · exact Int.le_of_eq hzero
      · rwa [← Int.sign_nonpos_iff, hsign, Int.sign_nonpos_iff]
    exact ((Int.tdiv_tmod_unique' hnonpos hb).mpr ⟨hsum, by omega, hr0⟩).1.symm

/-- **There is one quotient toward zero.** -/
theorem isQuotient_iff {a b q : Int} (hb : b ≠ 0) : IsQuotient a b q ↔ q = a.tdiv b :=
  ⟨fun h => h.eq_tdiv hb, fun h => h ▸ isQuotient_tdiv a hb⟩

/-- A quotient of integers of sixty-four bits has sixty-four bits, but for one pair. -/
theorem toInt_div_eq_tdiv {a b : Int64} (h : ¬ (a = Int64.minValue ∧ b = -1)) :
    (a / b).toInt = a.toInt.tdiv b.toInt := by
  by_cases ha : a = Int64.minValue
  · exact Int64.toInt_div_of_ne_right a b fun hb => h ⟨ha, hb⟩
  · exact Int64.toInt_div_of_ne_left a b ha

/-! ## The laws -/

/-- What the four instructions make of integers. -/
structure ArithmeticExact (a b c : Int64) : Prop where
  /-- The sum is the exact sum modulo `2 ^ 64`. -/
  add : ∃ n, IsResidue (a.toInt + b.toInt) n ∧ BinaryOp.add.Gives a b n
  /-- The difference is the exact difference modulo `2 ^ 64`. -/
  sub : ∃ n, IsResidue (a.toInt - b.toInt) n ∧ BinaryOp.sub.Gives a b n
  /-- The product is the exact product modulo `2 ^ 64`. -/
  mul : ∃ n, IsResidue (a.toInt * b.toInt) n ∧ BinaryOp.mul.Gives a b n
  /-- Subtraction undoes addition, also of a sum that has wrapped around. -/
  add_sub : ∀ sum, BinaryOp.add.Gives a b sum → BinaryOp.sub.Gives sum b a
  /-- Multiplication distributes over addition, also of results that have wrapped around. -/
  mul_add : ∀ sum product product', BinaryOp.add.Gives b c sum → BinaryOp.mul.Gives a b product →
    BinaryOp.mul.Gives a c product' →
    ∃ n, BinaryOp.mul.Gives a sum n ∧ BinaryOp.add.Gives product product' n
  /-- Division is refused exactly if the divisor is zero, and never in another way. -/
  div_refuses : ∀ e, BinaryOp.div.Refuses a b e ↔ b = 0 ∧ e = .divisionByZero
  /-- The quotient that does not fit wraps around. -/
  div_overflow : a = Int64.minValue → b = -1 → BinaryOp.div.Gives a b Int64.minValue
  /-- Any other division by something else than zero gives the one quotient toward zero. -/
  div : b ≠ 0 → ¬ (a = Int64.minValue ∧ b = -1) →
    ∃ q : Int64, (∀ z, IsQuotient a.toInt b.toInt z ↔ z = q.toInt) ∧ BinaryOp.div.Gives a b q
  /-- No instruction does anything else with two integers. -/
  total : ∀ op ∈ [BinaryOp.add, .sub, .mul, .div],
    (∃ n, op.Gives a b n) ∨ op = .div ∧ b = 0 ∧ op.Refuses a b .divisionByZero

/-- **Integer arithmetic is exact modulo `2 ^ 64`, and division drops the fraction.** -/
theorem arithmetic_exact (a b c : Int64) : ArithmeticExact a b c := by
  constructor
  case add => exact ⟨a + b, isResidue_of_toInt (Int64.toInt_add a b), BinaryOp.gives_add.mpr rfl⟩
  case sub => exact ⟨a - b, isResidue_of_toInt (Int64.toInt_sub a b), BinaryOp.gives_sub.mpr rfl⟩
  case mul => exact ⟨a * b, isResidue_of_toInt (Int64.toInt_mul a b), BinaryOp.gives_mul.mpr rfl⟩
  case add_sub =>
    intro sum hsum
    rw [BinaryOp.gives_sub, ← BinaryOp.gives_add.mp hsum, Int64.add_sub_cancel]
  case mul_add =>
    intro sum product product' hsum hproduct hproduct'
    refine ⟨a * sum, BinaryOp.gives_mul.mpr rfl, BinaryOp.gives_add.mpr ?_⟩
    rw [← BinaryOp.gives_add.mp hsum, ← BinaryOp.gives_mul.mp hproduct,
      ← BinaryOp.gives_mul.mp hproduct', Int64.mul_add]
  case div_refuses => exact fun e => BinaryOp.refuses_div
  case div_overflow =>
    rintro rfl rfl
    exact BinaryOp.gives_div.mpr ⟨by decide, by decide⟩
  case div =>
    intro hb hfits
    have hb' : b.toInt ≠ 0 := fun h => hb (Int64.toInt_inj.mp h)
    refine ⟨a / b, fun z => ?_, BinaryOp.gives_div.mpr ⟨hb, rfl⟩⟩
    rw [toInt_div_eq_tdiv hfits]
    exact isQuotient_iff hb'
  case total =>
    intro op hop
    simp only [List.mem_cons, List.not_mem_nil, or_false] at hop
    rcases hop with rfl | rfl | rfl | rfl
    · exact .inl ⟨_, BinaryOp.gives_add.mpr rfl⟩
    · exact .inl ⟨_, BinaryOp.gives_sub.mpr rfl⟩
    · exact .inl ⟨_, BinaryOp.gives_mul.mpr rfl⟩
    · by_cases hb : b = 0
      · exact .inr ⟨rfl, hb, BinaryOp.refuses_div.mpr ⟨hb, rfl⟩⟩
      · exact .inl ⟨_, BinaryOp.gives_div.mpr ⟨hb, rfl⟩⟩

end Opstack
