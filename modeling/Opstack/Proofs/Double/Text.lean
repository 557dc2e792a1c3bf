import Mathlib.Data.List.TakeWhile
import Opstack.Double.Text
import Opstack.Proofs.Double.Shortest
import Opstack.Value.Operations

/-!
# Doubles written as text and read again

Between the writer and the reader stands the decimal that the characters spell.

* `Double.Spells` is the grammar of what is written of a finite double: digits, with a point among
  them or not, and the decimal that they stand for.
* `Double.finiteText_spells`: what is written spells `Double.written`, and that decimal lies in the
  interval of the double.
* `Double.readDecimal?_of_spells`: what spells a decimal is read as the double nearest to it.
* `Double.ofText?_text`: every double but a NaN is read back, also the two zeros and the two
  infinities.
* `Value.toDouble_toText`: the same of the conversions of values.
-/

set_option autoImplicit false

namespace Opstack
namespace Double

/-! ## What the characters stand for -/

/-- The characters are digits with or without a point among them, and the decimal is what they
stand for. -/
inductive Spells : List Char → Decimal → Prop
  /-- Digits without a point. -/
  | whole {ds : List Char} (hne : ds ≠ []) (hds : ∀ c ∈ ds, c.isDigit = true) :
      Spells ds ⟨Text.natOfDigits ds, 0⟩
  /-- Digits on both sides of a point; those behind it count down from the tenths. -/
  | point {ds ps : List Char} (hds : ds ≠ []) (hps : ps ≠ [])
      (hdigits : ∀ c ∈ ds ++ ps, c.isDigit = true) :
      Spells (ds ++ '.' :: ps) ⟨Text.natOfDigits (ds ++ ps), -(ps.length : Int)⟩

/-- What spells a decimal begins with a digit. -/
theorem Spells.exists_cons {cs : List Char} {x : Decimal} (h : Spells cs x) :
    ∃ c rest, cs = c :: rest ∧ c.isDigit = true := by
  cases h with
  | whole hne hds =>
    obtain ⟨c, rest, rfl⟩ := List.exists_cons_of_ne_nil hne
    exact ⟨c, rest, rfl, hds c List.mem_cons_self⟩
  | point hne _ hdigits =>
    obtain ⟨c, rest, rfl⟩ := List.exists_cons_of_ne_nil hne
    exact ⟨c, _, rfl, hdigits c List.mem_cons_self⟩

/-! ## Writing -/

theorem isDigit_of_mem_zeros {n : Nat} : ∀ c ∈ List.replicate n '0', c.isDigit = true := by
  intro c hc
  rw [List.eq_of_mem_replicate hc]
  decide

namespace Decimal

variable {x : Decimal}

/-- Zeros behind the digits of a number multiply it by powers of ten. -/
theorem positional_spells_of_nonneg (h : 0 ≤ x.exponent) :
    Spells x.positional ⟨x.digits * 10 ^ x.exponent.toNat, 0⟩ := by
  have hpositional : x.positional =
      Text.digits x.digits ++ List.replicate x.exponent.toNat '0' := if_pos h
  have hdigits : ∀ c ∈ Text.digits x.digits ++ List.replicate x.exponent.toNat '0',
      c.isDigit = true :=
    List.forall_mem_append.mpr ⟨Text.isDigit_of_mem_digits, isDigit_of_mem_zeros⟩
  have hspells := Spells.whole
    (List.append_ne_nil_of_left_ne_nil (Text.digits_ne_nil _) _) hdigits
  rwa [Text.natOfDigits_append, Text.natOfDigits_digits, Text.natOfDigits_replicate_zero,
    List.length_replicate, Nat.add_zero, ← hpositional] at hspells

/-- The point stands in front of as many digits as the decimal has places. -/
theorem positional_spells_of_neg (h : x.exponent < 0) : Spells x.positional x := by
  obtain ⟨places, hplaces⟩ : ∃ n : Nat, (-x.exponent).toNat = n := ⟨_, rfl⟩
  have hexponent : x.exponent = -(places : Int) := by omega
  simp only [positional, if_neg (not_le.mpr h), hplaces]
  generalize hds : Text.digits x.digits = ds
  have hdigits : ∀ c ∈ ds, c.isDigit = true := hds ▸ Text.isDigit_of_mem_digits
  have hnumber : Text.natOfDigits ds = x.digits := hds ▸ Text.natOfDigits_digits _
  split
  case isTrue hinside =>
    have hsplit := List.take_append_drop (ds.length - places) ds
    have hlength : (ds.drop (ds.length - places)).length = places := by
      rw [List.length_drop]
      omega
    have hfront : ds.take (ds.length - places) ≠ [] :=
      List.ne_nil_of_length_pos (by rw [List.length_take]; omega)
    have hbehind : ds.drop (ds.length - places) ≠ [] := List.ne_nil_of_length_pos (by omega)
    have hspells := Spells.point hfront hbehind (by rwa [hsplit])
    rwa [hsplit, hlength, hnumber, ← hexponent] at hspells
  case isFalse hbefore =>
    have hlength : (List.replicate (places - ds.length) '0' ++ ds).length = places := by
      rw [List.length_append, List.length_replicate]
      omega
    have hbehind : List.replicate (places - ds.length) '0' ++ ds ≠ [] :=
      List.ne_nil_of_length_pos (by omega)
    have hspells := Spells.point (List.cons_ne_nil '0' []) hbehind
      (List.forall_mem_append.mpr ⟨isDigit_of_mem_zeros (n := 1),
        List.forall_mem_append.mpr ⟨isDigit_of_mem_zeros, hdigits⟩⟩)
    have hzero : Text.natOfDigits ['0'] = 0 := rfl
    rwa [hlength, Text.natOfDigits_append, Text.natOfDigits_append, hnumber, hzero,
      Text.natOfDigits_replicate_zero, Nat.zero_mul, Nat.zero_mul, Nat.zero_add, Nat.zero_add,
      ← hexponent] at hspells

end Decimal

section

variable (d : Double)

/-- The decimal that the text of a finite double spells, but for its sign. -/
def written : Decimal :=
  if d.isWhole ∧ d.wholePart < wholeTextLimit then ⟨d.wholePart * 10, -1⟩
  else if 0 ≤ d.shortest.exponent then
    ⟨d.shortest.digits * 10 ^ d.shortest.exponent.toNat, 0⟩
  else d.shortest

/-- **The characters written of a finite double spell a decimal.** -/
theorem finiteText_spells : Spells d.finiteText d.written := by
  rw [finiteText, written]
  split
  case isTrue =>
    have h := Spells.point (Text.digits_ne_nil d.wholePart) (List.cons_ne_nil '0' [])
      (List.forall_mem_append.mpr ⟨Text.isDigit_of_mem_digits, isDigit_of_mem_zeros (n := 1)⟩)
    rwa [Text.natOfDigits_append, Text.natOfDigits_digits] at h
  case isFalse =>
    split
    case isTrue hnonneg => exact Decimal.positional_spells_of_nonneg hnonneg
    case isFalse hneg => exact Decimal.positional_spells_of_neg (not_le.mp hneg)

variable {d}

theorem value_written_of_small (h : d.isWhole ∧ d.wholePart < wholeTextLimit) :
    d.written.value = d.absValue := by
  rw [written, if_pos h, Decimal.value, ← wholePart_of_isWhole h.1]
  push_cast
  rw [zpow_neg_one]
  field_simp

theorem value_written_of_not_small (h : ¬ (d.isWhole ∧ d.wholePart < wholeTextLimit)) :
    d.written.value = d.shortest.value := by
  rw [written, if_neg h]
  split
  case isTrue hnonneg =>
    rw [Decimal.value, Decimal.value, zpow_zero, mul_one]
    push_cast
    rw [← zpow_natCast, Int.toNat_of_nonneg hnonneg]
  case isFalse => rfl

/-- **The decimal written lies in the interval of the double.** -/
theorem contains_written (hm : d.mantissa ≠ 0) : d.readBack.Contains d.written.value := by
  by_cases h : d.isWhole ∧ d.wholePart < wholeTextLimit
  · rw [value_written_of_small h]
    exact contains_absValue hm
  · rw [value_written_of_not_small h]
    exact contains_shortest hm

theorem digits_written_of_mantissa_eq_zero (hm : d.mantissa = 0) : d.written.digits = 0 := by
  have hwhole : d.isWhole = true := by rw [isWhole, hm, Nat.zero_mod]; rfl
  have hpart : d.wholePart = 0 := by rw [wholePart, hm, Nat.zero_mul, Nat.zero_div]
  rw [written, if_pos ⟨hwhole, by rw [hpart]; decide⟩, hpart]

end

/-! ## Reading -/

section

variable {cs : List Char} {x : Decimal} {d : Double}

/-- **What spells a decimal is read as the double nearest to it.** -/
theorem readDecimal?_of_spells (negative : Bool) (h : Spells cs x) :
    readDecimal? negative cs = some (ofDecimal negative x.digits x.exponent) := by
  cases h with
  | whole hne hds =>
    have htake : cs.takeWhile Char.isDigit = cs := List.takeWhile_eq_self_iff.mpr hds
    have hdrop : cs.dropWhile Char.isDigit = [] := List.dropWhile_eq_nil_iff.mpr hds
    simp only [readDecimal?, htake, hdrop, List.append_nil, List.isEmpty_eq_false_iff.mpr hne]
    rfl
  | @point ds ps hne hpne hdigits =>
    obtain ⟨hds, hps⟩ := List.forall_mem_append.mp hdigits
    have htake : (ds ++ '.' :: ps).takeWhile Char.isDigit = ds := by
      rw [List.takeWhile_append_of_pos hds, List.takeWhile_cons_of_neg (by decide),
        List.append_nil]
    have hdrop : (ds ++ '.' :: ps).dropWhile Char.isDigit = '.' :: ps := by
      rw [List.dropWhile_append_of_pos hds, List.dropWhile_cons_of_neg (by decide)]
    have htakeBehind : ps.takeWhile Char.isDigit = ps := List.takeWhile_eq_self_iff.mpr hps
    have hdropBehind : ps.dropWhile Char.isDigit = [] := List.dropWhile_eq_nil_iff.mpr hps
    simp only [readDecimal?, htake, hdrop, htakeBehind, hdropBehind,
      List.isEmpty_eq_false_iff.mpr (List.append_ne_nil_of_left_ne_nil hne _)]
    simp [readExponent?]

theorem toLower_of_isDigit {c : Char} (h : c.isDigit = true) : c.toLower = c := by
  rw [Char.isDigit, Bool.and_eq_true, decide_eq_true_eq, decide_eq_true_eq] at h
  refine dif_neg fun hupper => ?_
  have hle : 'A'.val ≤ '9'.val := UInt32.le_trans hupper.1 h.2
  exact absurd hle (by decide)

/-- No word begins with a digit. -/
theorem readWord?_of_spells (negative : Bool) (h : Spells cs x) :
    readWord? negative cs = none := by
  obtain ⟨c, rest, rfl, hc⟩ := h.exists_cons
  have hne : ∀ (a : Char) (as : List Char), a.isDigit = false →
      (c :: rest).map Char.toLower ≠ a :: as := by
    rintro a as ha heq
    rw [List.map_cons, toLower_of_isDigit hc, List.cons.injEq] at heq
    rw [heq.1, ha] at hc
    cases hc
  refine (if_neg (not_or.mpr ⟨?_, ?_⟩)).trans (if_neg ?_)
  · exact hne 'i' ['n', 'f'] (by decide)
  · exact hne 'i' "nfinity".toList (by decide)
  · exact hne 'n' ['a', 'n'] (by decide)

/-- The sign of a double is split off what is written. -/
theorem splitSign_signText {c : Char} (rest : List Char) (hplus : c ≠ '+') (hminus : c ≠ '-') :
    splitSign (d.signText ++ c :: rest) = (d.isNegative, c :: rest) := by
  rw [signText]
  cases d.isNegative with
  | true => rfl
  | false =>
    unfold splitSign
    split
    case h_1 heq => exact absurd (List.cons.inj heq).1 hminus
    case h_2 heq => exact absurd (List.cons.inj heq).1 hplus
    case h_3 => rfl

theorem text_of_isFinite (h : d.IsFinite) :
    d.text = String.ofList (d.signText ++ d.finiteText) := by
  obtain ⟨hnan, hinfinite⟩ := d.isFinite_iff.mp h
  simp [text, hnan, hinfinite]

theorem ofText?_text_of_isFinite (h : d.IsFinite) : ofText? d.text = some d := by
  have hspells := d.finiteText_spells
  obtain ⟨c, rest, hcons, hc⟩ := hspells.exists_cons
  have hsplit := splitSign_signText (d := d) (c := c) rest
    (by rintro rfl; cases hc) (by rintro rfl; cases hc)
  rw [← hcons] at hsplit
  simp only [ofText?, text_of_isFinite h, String.toList_ofList, hsplit,
    readWord?_of_spells _ hspells, readDecimal?_of_spells _ hspells]
  by_cases hm : d.mantissa = 0
  · have hzero : d.magnitude = 0 := (mantissa_eq_zero_iff d).mp hm
    rw [ofDecimal, digits_written_of_mantissa_eq_zero hm]
    simp only [true_or, if_true]
    rw [zero, ← hzero, ofMagnitude_magnitude]
  · rw [ofDecimal_of_contains h hm (contains_written hm)]

theorem ofText?_text_of_isInfinite (h : d.isInfinite = true) : ofText? d.text = some d := by
  have hmagnitude : d.magnitude = infinityBits := beq_iff_eq.mp h
  have hnan : d.isNaN = false := by
    rw [isNaN, hmagnitude]
    decide
  have hsplit := splitSign_signText (d := d) (c := 'I') "nfinity".toList (by decide) (by decide)
  have htext : d.text = String.ofList (d.signText ++ 'I' :: "nfinity".toList) := by
    rw [text, hnan, h]
    rfl
  have hword : readWord? d.isNegative ('I' :: "nfinity".toList) = some (infinity d.isNegative) := by
    cases d.isNegative <;> rfl
  simp only [ofText?, htext, String.toList_ofList, hsplit, hword]
  rw [infinity, ← hmagnitude, ofMagnitude_magnitude]

/-- **Every double but a NaN is read back as it is written**, with all its bits. -/
theorem ofText?_text (h : d.isNaN = false) : ofText? d.text = some d := by
  cases hinfinite : d.isInfinite with
  | true => exact ofText?_text_of_isInfinite hinfinite
  | false => exact ofText?_text_of_isFinite (d.isFinite_iff.mpr ⟨h, hinfinite⟩)

/-- A NaN is read back as a NaN. -/
theorem ofText?_text_of_isNaN (h : d.isNaN = true) : ofText? d.text = some nan := by
  rw [text, if_pos h]
  decide

end

end Double

namespace Value

/-- A text that names a double becomes it. -/
theorem toDouble_str {s : String} {d : Double} (h : Double.ofText? s = some d) :
    (Value.str s).toDouble = .ok (.double d) := by
  rw [toDouble, h]

/-- **A double that is written as a text and read again has the same bits**, unless it is a NaN,
and then it is a NaN again. -/
theorem toDouble_toText (d : Double) :
    ∃ e, (Value.double d).toText.bind Value.toDouble = .ok (.double e) ∧
      if d.isNaN then e.isNaN = true else e = d := by
  cases h : d.isNaN with
  | true => exact ⟨Double.nan, toDouble_str (Double.ofText?_text_of_isNaN h), rfl⟩
  | false => exact ⟨d, toDouble_str (Double.ofText?_text h), rfl⟩

end Value
end Opstack
