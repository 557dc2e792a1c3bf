import Mathlib.Data.List.Induction
import Mathlib.Data.Nat.Digits.Defs
import Opstack.Lowering.Expr
import Opstack.Value.Operations

/-!
# Numerals of integers

A numeral is an optional sign and one or more ASCII digits, with any number of leading zeros.

* `Text.Denotes` is the grammar of numerals together with the integers that they stand for; the
  value of the digits is `Nat.ofDigits 10` of them, the least significant first.
* `Text.readInt?_eq_some_iff` and `Text.readInt64?_eq_some_iff`: what is read is exactly what the
  grammar has, and of sixty-four bits exactly the range of these integers.
* `Text.readInt64?_intText`: what is written is read back.
* `Value.integerTexts_exact`: the same of the conversions of values and of literals in programs.
-/

set_option autoImplicit false

namespace Opstack
namespace Text

/-! ## Digits -/

/-- The number that one decimal digit stands for. -/
def digitValue (c : Char) : Nat := c.toNat - '0'.toNat

theorem natOfDigits_eq (ds : List Char) : natOfDigits ds = Nat.ofDigitChars 10 ds 0 := by
  simp only [natOfDigits, Nat.ofDigitChars_eq_foldl, Nat.mul_comm]

theorem natOfDigits_append (as bs : List Char) :
    natOfDigits (as ++ bs) = natOfDigits as * 10 ^ bs.length + natOfDigits bs := by
  rw [natOfDigits_eq, natOfDigits_eq, natOfDigits_eq, Nat.ofDigitChars_append,
    Nat.ofDigitChars_eq_ofDigitChars_zero, Nat.mul_comm]

theorem natOfDigits_replicate_zero (n : Nat) : natOfDigits (List.replicate n '0') = 0 := by
  rw [natOfDigits_eq, Nat.ofDigitChars_replicate_zero, Nat.mul_zero]

/-- Reading the digits of a number gives the number. -/
theorem natOfDigits_digits (n : Nat) : natOfDigits (digits n) = n := by
  rw [natOfDigits_eq, digits, Nat.ofDigitChars_ten_toDigits]

theorem digits_ne_nil (n : Nat) : digits n ≠ [] := Nat.toDigits_ne_nil

theorem length_digits_pos (n : Nat) : 0 < (digits n).length :=
  List.length_pos_iff.mpr (digits_ne_nil n)

theorem lt_pow_length_digits (n : Nat) : n < 10 ^ (digits n).length :=
  (Nat.length_toDigits_le_iff (by decide) (length_digits_pos n)).mp (Nat.le_refl _)

/-- The first digit is not a zero. -/
theorem pow_length_digits_le {n : Nat} (hn : n ≠ 0) : 10 ^ ((digits n).length - 1) ≤ n := by
  rcases Nat.eq_zero_or_pos ((digits n).length - 1) with hzero | hpos
  · rw [hzero]
    exact Nat.pos_of_ne_zero hn
  · rw [← Nat.not_lt, ← Nat.length_toDigits_le_iff (by decide) hpos]
    change ¬ (digits n).length ≤ (digits n).length - 1
    omega

/-- Zeros behind the digits of a number multiply it by powers of ten. -/
theorem digits_append_replicate {n : Nat} (hn : n ≠ 0) (k : Nat) :
    digits n ++ List.replicate k '0' = digits (n * 10 ^ k) := by
  induction k with
  | zero => rw [Nat.pow_zero, Nat.mul_one, List.replicate_zero, List.append_nil]
  | succ k ih =>
    have hpos : 0 < n * 10 ^ k := Nat.mul_pos (Nat.pos_of_ne_zero hn) (Nat.pow_pos (by decide))
    rw [List.replicate_succ', ← List.append_assoc, ih, Nat.pow_succ, ← Nat.mul_assoc,
      Nat.mul_comm _ 10]
    exact Nat.toDigits_append_toDigits (b := 10) (d := 0) (by decide) hpos (by decide)

theorem isDigit_of_mem_digits {n : Nat} : ∀ c ∈ digits n, c.isDigit = true := fun _ =>
  Nat.isDigit_of_mem_toDigits (by decide) (by decide)

/-- The digits count powers of ten, from the last one on. -/
theorem natOfDigits_eq_ofDigits (ds : List Char) :
    natOfDigits ds = Nat.ofDigits 10 (ds.reverse.map digitValue) := by
  induction ds using List.reverseRecOn with
  | nil => rfl
  | append_singleton ds c ih =>
    rw [natOfDigits_append, ih, List.reverse_append, List.reverse_singleton, List.singleton_append,
      List.map_cons, Nat.ofDigits_cons, List.length_singleton]
    change Nat.ofDigits 10 _ * 10 ^ 1 + (0 * 10 + digitValue c) = _
    omega

/-! ## Numerals with a sign -/

/-- The text is an optional sign and one or more ASCII digits, and the integer is what it stands
for. -/
inductive Denotes : List Char → Int → Prop
  /-- Digits without a sign. -/
  | unsigned {ds : List Char} (hne : ds ≠ []) (hds : ∀ c ∈ ds, c.isDigit = true) :
      Denotes ds (Nat.ofDigits 10 (ds.reverse.map digitValue) : Nat)
  /-- Digits behind a plus sign. -/
  | plus {ds : List Char} (hne : ds ≠ []) (hds : ∀ c ∈ ds, c.isDigit = true) :
      Denotes ('+' :: ds) (Nat.ofDigits 10 (ds.reverse.map digitValue) : Nat)
  /-- Digits behind a minus sign. -/
  | minus {ds : List Char} (hne : ds ≠ []) (hds : ∀ c ∈ ds, c.isDigit = true) :
      Denotes ('-' :: ds) (-(Nat.ofDigits 10 (ds.reverse.map digitValue) : Nat))

theorem readNat?_eq_some_iff {cs : List Char} {n : Nat} :
    readNat? cs = some n ↔ cs ≠ [] ∧ (∀ c ∈ cs, c.isDigit = true) ∧
      Nat.ofDigits 10 (cs.reverse.map digitValue) = n := by
  rw [readNat?, natOfDigits_eq_ofDigits]
  by_cases hne : cs = []
  · simp [hne]
  · simp [hne]

/-- A sign decides, and any other text is read as digits. -/
theorem readInt?_cases (cs : List Char) :
    (∃ ds, cs = '-' :: ds ∧ readInt? cs = (readNat? ds).map fun n : Nat => -(n : Int)) ∨
      (∃ ds, cs = '+' :: ds ∧ readInt? cs = (readNat? ds).map Int.ofNat) ∨
      ((∀ ds, cs ≠ '-' :: ds) ∧ (∀ ds, cs ≠ '+' :: ds) ∧
        readInt? cs = (readNat? cs).map Int.ofNat) := by
  unfold readInt?
  split
  case h_1 ds => exact .inl ⟨ds, rfl, by cases readNat? ds <;> rfl⟩
  case h_2 ds => exact .inr (.inl ⟨ds, rfl, by cases readNat? ds <;> rfl⟩)
  case h_3 hminus hplus =>
    exact .inr (.inr ⟨hminus, hplus, by cases readNat? cs <;> rfl⟩)

/-- **Exactly the numerals are read**, and as the integers that they stand for. -/
theorem readInt?_eq_some_iff {cs : List Char} {z : Int} :
    readInt? cs = some z ↔ Denotes cs z := by
  constructor
  · intro h
    rcases readInt?_cases cs with ⟨ds, rfl, heq⟩ | ⟨ds, rfl, heq⟩ | ⟨-, -, heq⟩ <;>
      rw [heq] at h <;>
      obtain ⟨n, hn, rfl⟩ := Option.map_eq_some_iff.mp h <;>
      obtain ⟨hne, hds, rfl⟩ := readNat?_eq_some_iff.mp hn
    · exact .minus hne hds
    · exact .plus hne hds
    · exact .unsigned hne hds
  · rintro (⟨hne, hds⟩ | ⟨hne, hds⟩ | ⟨hne, hds⟩)
    case unsigned =>
      -- A digit is no sign.
      rcases readInt?_cases cs with ⟨ds, rfl, -⟩ | ⟨ds, rfl, -⟩ | ⟨-, -, heq⟩
      · exact absurd (hds '-' List.mem_cons_self) (by decide)
      · exact absurd (hds '+' List.mem_cons_self) (by decide)
      · rw [heq, readNat?_eq_some_iff.mpr ⟨hne, hds, rfl⟩]
        rfl
    case plus =>
      rw [readInt?, readNat?_eq_some_iff.mpr ⟨hne, hds, rfl⟩]
      rfl
    case minus =>
      rw [readInt?, readNat?_eq_some_iff.mpr ⟨hne, hds, rfl⟩]
      rfl

/-- A text is the numeral of at most one integer. -/
theorem Denotes.unique {cs : List Char} {z z' : Int} (h : Denotes cs z) (h' : Denotes cs z') :
    z = z' :=
  Option.some.inj ((readInt?_eq_some_iff.mpr h).symm.trans (readInt?_eq_some_iff.mpr h'))

theorem Denotes.isDigit_or_sign {cs : List Char} {z : Int} (h : Denotes cs z) {c : Char}
    (hc : c ∈ cs) : c.isDigit = true ∨ c = '+' ∨ c = '-' := by
  cases h with
  | unsigned hne hds => exact .inl (hds c hc)
  | plus hne hds =>
    rcases List.mem_cons.mp hc with rfl | hmem
    · exact .inr (.inl rfl)
    · exact .inl (hds c hmem)
  | minus hne hds =>
    rcases List.mem_cons.mp hc with rfl | hmem
    · exact .inr (.inr rfl)
    · exact .inl (hds c hmem)

/-- What is written is a numeral of the integer. -/
theorem denotes_intText (z : Int) : Denotes (intText z).toList z := by
  rw [intText]
  have hread := natOfDigits_eq_ofDigits (digits z.natAbs)
  rw [natOfDigits_digits] at hread
  have hne := digits_ne_nil z.natAbs
  split
  case isTrue hneg =>
    have hz : z = -((Nat.ofDigits 10 ((digits z.natAbs).reverse.map digitValue) : Nat) : Int) := by
      omega
    rw [String.toList_ofList]
    conv => rhs; rw [hz]
    exact .minus hne isDigit_of_mem_digits
  case isFalse hneg =>
    have hz : z = ((Nat.ofDigits 10 ((digits z.natAbs).reverse.map digitValue) : Nat) : Int) := by
      omega
    rw [natText, String.toList_ofList]
    conv => rhs; rw [hz]
    exact .unsigned hne isDigit_of_mem_digits

/-! ## Sixty-four bits -/

/-- The integer is one of those of sixty-four bits. -/
def FitsInt64 (z : Int) : Prop := -2 ^ 63 ≤ z ∧ z ≤ 2 ^ 63 - 1

theorem fitsInt64_toInt (n : Int64) : FitsInt64 n.toInt :=
  ⟨n.le_toInt, Int.le_sub_one_of_lt n.toInt_lt⟩

theorem toInt_ofInt_of_fits {z : Int} (h : FitsInt64 z) : (Int64.ofInt z).toInt = z :=
  Int64.toInt_ofInt_of_le h.1 (Int.lt_of_le_sub_one h.2)

theorem readInt64?_eq_some_iff {s : String} {n : Int64} :
    readInt64? s = some n ↔ Denotes s.toList n.toInt := by
  rw [readInt64?, ← readInt?_eq_some_iff]
  cases readInt? s.toList with
  | none => exact iff_of_false (fun h => by cases h) fun h => by cases h
  | some z =>
    rw [Option.some.injEq]
    by_cases hfits : Int64.minValue.toInt ≤ z ∧ z ≤ Int64.maxValue.toInt
    · dsimp only
      rw [if_pos hfits, Option.some.injEq]
      constructor
      · rintro rfl
        exact (toInt_ofInt_of_fits hfits).symm
      · rintro rfl
        exact Int64.ofInt_toInt n
    · refine iff_of_false (fun h => ?_) fun hz => hfits (hz ▸ fitsInt64_toInt n)
      dsimp only at h
      rw [if_neg hfits] at h
      cases h

/-- No numeral that fits is refused. -/
theorem readInt64?_eq_none_iff {s : String} :
    readInt64? s = none ↔ ¬ ∃ z, Denotes s.toList z ∧ FitsInt64 z := by
  rw [Option.eq_none_iff_forall_ne_some]
  constructor
  · rintro h ⟨z, hz, hfits⟩
    refine h (Int64.ofInt z) (readInt64?_eq_some_iff.mpr ?_)
    rwa [toInt_ofInt_of_fits hfits]
  · intro h n hn
    exact h ⟨n.toInt, readInt64?_eq_some_iff.mp hn, fitsInt64_toInt n⟩

/-- **What is written is read back**, also at the two ends of the range. -/
theorem readInt64?_intText (n : Int64) : readInt64? (intText n.toInt) = some n :=
  readInt64?_eq_some_iff.mpr (denotes_intText n.toInt)

end Text

/-! ## Conversions and literals -/

namespace Value

/-- What the conversions between integers and texts do, and integer literals in programs. -/
structure IntegerTextsExact : Prop where
  /-- A text becomes an integer exactly if it is a numeral of an integer that fits in sixty-four
  bits, and becomes that one. -/
  reads : ∀ s v, (Value.str s).toInt = .ok v ↔
    ∃ z, Text.Denotes s.toList z ∧ Text.FitsInt64 z ∧ ∃ n : Int64, n.toInt = z ∧ v = .int n
  /-- Any other text is refused, and named in the fault. -/
  refuses : ∀ s e, (Value.str s).toInt = .error e ↔
    (¬ ∃ z, Text.Denotes s.toList z ∧ Text.FitsInt64 z) ∧ e = .invalidConversion "int" s
  /-- An integer written as a text and read again is the same. -/
  readsBack : ∀ n, (Value.int n).toText.bind Value.toInt = .ok (.int n)
  /-- The literal of an integer is lowered to the instruction that pushes it. -/
  literal : ∀ table scope n, lowerExpr table scope (.ofInt n) = .ok [.push (.int n)]

theorem toInt_str (s : String) :
    (Value.str s).toInt = match Text.readInt64? s with
      | some n => .ok (.int n)
      | none => .error (.invalidConversion "int" s) := rfl

theorem toInt_text (n : Int64) : (Value.str (Value.int n).text).toInt = .ok (.int n) := by
  rw [toInt_str, text, Text.readInt64?_intText]

/-- **Texts are read as integers exactly if they are numerals in range, integers are read back as
they are written, and literals of integers stand for themselves.** -/
theorem integerTexts_exact : IntegerTextsExact where
  reads := by
    intro s v
    rw [toInt_str]
    constructor
    · intro h
      cases hs : Text.readInt64? s with
      | none =>
        rw [hs] at h
        cases h
      | some n =>
        rw [hs] at h
        cases h
        exact ⟨n.toInt, Text.readInt64?_eq_some_iff.mp hs, Text.fitsInt64_toInt n, n, rfl, rfl⟩
    · rintro ⟨z, hz, -, n, rfl, rfl⟩
      rw [Text.readInt64?_eq_some_iff.mpr hz]
  refuses := by
    intro s e
    rw [toInt_str, ← Text.readInt64?_eq_none_iff]
    cases Text.readInt64? s with
    | none => exact ⟨fun h => ⟨rfl, (Except.error.inj h).symm⟩, fun h => congrArg _ h.2.symm⟩
    | some n => exact iff_of_false (fun h => by cases h) fun h => by cases h.1
  readsBack := toInt_text
  literal := by
    intro table scope n
    rw [Expr.ofInt, lowerExpr, Token.value, Text.readInt64?_intText]
    rfl

end Value
end Opstack
