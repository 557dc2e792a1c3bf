import Mathlib.Data.Int.Order.Basic
import Mathlib.Data.List.Lex
import Mathlib.Order.Compare
import Mathlib.Order.Lattice
import Opstack.Lowering.Expr
import Opstack.Proofs.Machine.Operands
import Opstack.Proofs.Text.Utf8

/-!
# Comparisons

Six operators compare two values, with four instructions: `>` and `>=` are `<` and `<=` with the
operands the other way round.  On integers and on texts the six are about one linear order: that of
the exact integers, and the lexicographic one of code points.

* `Comparison.Answers` is what the instruction of a comparison answers about the values of its left
  and right operand, and `Comparison.verdict` what it should answer.
* `Value.Comparable`: two integers, two doubles or two texts.  Every other pair is refused by the
  four comparisons that need an order (`Comparison.fails_iff`).
* `Orders` says that the six comparisons follow a linear order of keys, and `orders_of_verdicts`
  that this is so as soon as `<`, `<=` and `==` do.  The keys of texts are their `codePoints`.
* `comparisons_agree`: the laws of the six comparisons.
-/

set_option autoImplicit false

namespace Opstack

/-! ## The six comparisons -/

/-- The operators that compare two values. -/
inductive Comparison
  /-- Equality, `==`. -/
  | eq
  /-- Inequality, `!=`. -/
  | ne
  /-- Less than, `<`. -/
  | lt
  /-- Less than or equal, `<=`. -/
  | le
  /-- Greater than, `>`. -/
  | gt
  /-- Greater than or equal, `>=`. -/
  | ge
deriving DecidableEq

namespace Comparison

/-- The comparison as an operator of the language. -/
def operator : Comparison → Operator
  | .eq => .eq
  | .ne => .ne
  | .lt => .lt
  | .le => .le
  | .gt => .gt
  | .ge => .ge

/-- The comparison goes by an order, and not only by equality. -/
def needsOrder : Comparison → Bool
  | .eq | .ne => false
  | _ => true

/-- What a comparison says of two things that stand like this. -/
def admits : Comparison → Ordering → Bool
  | .eq, o => o.isEq
  | .ne, o => o.isNe
  | .lt, o => o.isLT
  | .le, o => o.isLE
  | .gt, o => o.isGT
  | .ge, o => o.isGE

/-- What a comparison makes of the values of its left and right operand. -/
def verdict : Comparison → Value → Value → Except Fault Bool
  | .eq, a, b => .ok (a.same b)
  | .ne, a, b => .ok (!a.same b)
  | .lt, a, b => a.less? b
  | .le, a, b => a.lessEq? b
  | .gt, a, b => b.less? a
  | .ge, a, b => b.lessEq? a

/-- The instruction of a comparison answers this about the values of the left and the right operand.
The code of the right one comes last and leaves its value on top, or that of the left one if the
comparison is made the other way round. -/
def Answers (c : Comparison) (a b : Value) (r : Except Fault Bool) : Prop :=
  (Opcode.binary c.operator.operation).Makes (if c.operator.isSwapped then [a, b] else [b, a])
    (r.map .bool)

/-- The comparison is true of the two values. -/
def Holds (c : Comparison) (a b : Value) : Prop := c.Answers a b (.ok true)

/-- The comparison of the two values is a fault. -/
def Fails (c : Comparison) (a b : Value) : Prop := ∃ e, c.Answers a b (.error e)

section

variable {c : Comparison} {a b : Value}

theorem map_bool_inj {r r' : Except Fault Bool} :
    r.map Value.bool = r'.map Value.bool ↔ r = r' := by
  cases r <;> cases r' <;> simp [Except.map]

/-- **An instruction answers what the comparison should.** -/
theorem answers_iff {r : Except Fault Bool} : c.Answers a b r ↔ c.verdict a b = r := by
  rw [← map_bool_inj]
  cases c <;> exact Opcode.makes_binary_iff

theorem holds_iff : c.Holds a b ↔ c.verdict a b = .ok true := answers_iff

theorem fails_iff_exists : c.Fails a b ↔ ∃ e, c.verdict a b = .error e :=
  exists_congr fun _ => answers_iff

end

end Comparison

/-! ## Values that have an order -/

namespace Value

/-- Two integers, two doubles or two texts. -/
inductive Comparable : Value → Value → Prop
  /-- Two integers. -/
  | ints (a b : Int64) : Comparable (.int a) (.int b)
  /-- Two doubles. -/
  | doubles (a b : Double) : Comparable (.double a) (.double b)
  /-- Two texts. -/
  | texts (s t : String) : Comparable (.str s) (.str t)

section

variable {a b : Value}

theorem Comparable.symm (h : a.Comparable b) : b.Comparable a := by
  cases h with
  | ints a b => exact .ints b a
  | doubles a b => exact .doubles b a
  | texts s t => exact .texts t s

theorem comparable_comm : a.Comparable b ↔ b.Comparable a := ⟨.symm, .symm⟩

theorem less?_fails_iff : (∃ e, a.less? b = .error e) ↔ ¬ a.Comparable b := by
  constructor
  · rintro ⟨e, he⟩ h
    cases h <;> cases he
  · intro h
    cases a <;> cases b <;> first | exact ⟨_, rfl⟩ | exact absurd (by constructor) h

theorem lessEq?_fails_iff : (∃ e, a.lessEq? b = .error e) ↔ ¬ a.Comparable b := by
  constructor
  · rintro ⟨e, he⟩ h
    cases h <;> cases he
  · intro h
    cases a <;> cases b <;> first | exact ⟨_, rfl⟩ | exact absurd (by constructor) h

end

end Value

/-- **A comparison that needs an order fails exactly if there is none.** -/
theorem Comparison.fails_iff {c : Comparison} (hc : c.needsOrder = true) {a b : Value} :
    c.Fails a b ↔ ¬ a.Comparable b := by
  rw [fails_iff_exists]
  cases c with
  | lt => exact Value.less?_fails_iff
  | le => exact Value.lessEq?_fails_iff
  | gt => exact Value.less?_fails_iff.trans (not_congr Value.comparable_comm)
  | ge => exact Value.lessEq?_fails_iff.trans (not_congr Value.comparable_comm)
  | eq | ne => cases hc

/-! ## Orders of keys -/

section

variable {α κ : Type} [LinearOrder κ]

/-- The six comparisons of some values go by a linear order of their keys, so they never contradict
one another. -/
structure Orders (value : α → Value) (key : α → κ) : Prop where
  /-- Each comparison answers as the keys stand. -/
  answers : ∀ (c : Comparison) a b,
    c.Answers (value a) (value b) (.ok (c.admits (cmp (key a) (key b))))
  /-- Nothing is less than itself. -/
  irrefl : ∀ a, ¬ Comparison.lt.Holds (value a) (value a)
  /-- What is less than something that is less is less. -/
  trans : ∀ a b c, Comparison.lt.Holds (value a) (value b) →
    Comparison.lt.Holds (value b) (value c) → Comparison.lt.Holds (value a) (value c)
  /-- Of two values one is less or they are equal, and only one of this is so. -/
  trichotomy : ∀ a b, ∃ o : Ordering, (Comparison.lt.Holds (value a) (value b) ↔ o = .lt) ∧
    (Comparison.eq.Holds (value a) (value b) ↔ o = .eq) ∧
    (Comparison.lt.Holds (value b) (value a) ↔ o = .gt)
  /-- Equal values are the same. -/
  eq_iff : ∀ a b, Comparison.eq.Holds (value a) (value b) ↔ a = b
  /-- Unequal are those that are not equal. -/
  ne_iff : ∀ a b, Comparison.ne.Holds (value a) (value b) ↔
    ¬ Comparison.eq.Holds (value a) (value b)
  /-- Less or equal is what is less or equal. -/
  le_iff : ∀ a b, Comparison.le.Holds (value a) (value b) ↔
    Comparison.lt.Holds (value a) (value b) ∨ Comparison.eq.Holds (value a) (value b)
  /-- Less or equal is what is not greater. -/
  le_iff_not : ∀ a b, Comparison.le.Holds (value a) (value b) ↔
    ¬ Comparison.lt.Holds (value b) (value a)
  /-- Greater is less the other way round. -/
  gt_iff : ∀ a b, Comparison.gt.Holds (value a) (value b) ↔
    Comparison.lt.Holds (value b) (value a)
  /-- Greater or equal is less or equal the other way round. -/
  ge_iff : ∀ a b, Comparison.ge.Holds (value a) (value b) ↔
    Comparison.le.Holds (value b) (value a)

variable {value : α → Value} {key : α → κ}

/-- If `<`, `<=` and `==` answer as the keys stand, then all six comparisons do. -/
theorem verdict_eq_admits (hless : ∀ a b, (value a).less? (value b) = .ok (decide (key a < key b)))
    (hlessEq : ∀ a b, (value a).lessEq? (value b) = .ok (decide (key a ≤ key b)))
    (hsame : ∀ a b, (value a).same (value b) = decide (key a = key b)) (c : Comparison) (a b : α) :
    c.verdict (value a) (value b) = .ok (c.admits (cmp (key a) (key b))) := by
  rcases lt_trichotomy (key a) (key b) with h | h | h
  · rw [h.cmp_eq_lt]
    cases c <;> simp [Comparison.verdict, Comparison.admits, hless, hlessEq, hsame, h, h.le, h.ne,
      h.not_gt, h.not_ge]
  · rw [h, cmp_self_eq_eq]
    cases c <;> simp [Comparison.verdict, Comparison.admits, hless, hlessEq, hsame, h]
  · rw [h.cmp_eq_gt]
    cases c <;> simp [Comparison.verdict, Comparison.admits, hless, hlessEq, hsame, h, h.le, h.ne',
      h.not_gt, h.not_ge]

/-- **Comparisons that go by keys follow the order of the keys.** -/
theorem orders_of_verdicts (hkey : Function.Injective key)
    (h : ∀ c a b, Comparison.verdict c (value a) (value b) =
      .ok (c.admits (cmp (key a) (key b)))) : Orders value key := by
  have hholds : ∀ (c : Comparison) a b, c.Holds (value a) (value b) ↔
      c.admits (cmp (key a) (key b)) = true := by
    intro c a b
    rw [Comparison.holds_iff, h, Except.ok.injEq]
  have hlt : ∀ a b, Comparison.lt.Holds (value a) (value b) ↔ key a < key b := by
    intro a b
    rw [hholds, Comparison.admits, Ordering.isLT_iff_eq_lt, cmp_eq_lt_iff]
  have hle : ∀ a b, Comparison.le.Holds (value a) (value b) ↔ key a ≤ key b := by
    intro a b
    rw [hholds, Comparison.admits, Ordering.isLE_iff_ne_gt, cmp_eq_gt_iff, not_lt]
  have heq : ∀ a b, Comparison.eq.Holds (value a) (value b) ↔ key a = key b := by
    intro a b
    rw [hholds, Comparison.admits, Ordering.isEq_iff_eq_eq, cmp_eq_eq_iff]
  constructor
  case answers => exact fun c a b => Comparison.answers_iff.mpr (h c a b)
  case irrefl => exact fun a => (hlt a a).not.mpr (lt_irrefl _)
  case trans =>
    intro a b c hab hbc
    rw [hlt] at hab hbc ⊢
    exact hab.trans hbc
  case trichotomy =>
    intro a b
    refine ⟨cmp (key a) (key b), ?_⟩
    rw [hlt, heq, hlt, cmp_eq_lt_iff, cmp_eq_eq_iff, cmp_eq_gt_iff]
    exact ⟨Iff.rfl, Iff.rfl, Iff.rfl⟩
  case eq_iff => exact fun a b => (heq a b).trans hkey.eq_iff
  case ne_iff =>
    intro a b
    rw [hholds, heq, Comparison.admits, Ordering.isNe_iff_ne_eq, cmp_eq_eq_iff]
  case le_iff =>
    intro a b
    rw [hle, hlt, heq, le_iff_lt_or_eq]
  case le_iff_not =>
    intro a b
    rw [hle, hlt, not_lt]
  case gt_iff => exact fun a b => Iff.rfl
  case ge_iff => exact fun a b => Iff.rfl

end

/-! ## Texts as code points -/

section

variable {s t : String}

/-- The code points of a text, from its first character to its last. -/
def codePoints (s : String) : List Nat := s.toList.map Char.toNat

theorem toNat_injective : Function.Injective Char.toNat :=
  fun _ _ => Char.toNat_inj.mp

theorem codePoints_injective : Function.Injective codePoints :=
  fun _ _ h => String.toList_injective (List.map_injective_iff.mpr toNat_injective h)

theorem codePoints_append : codePoints (s ++ t) = codePoints s ++ codePoints t := by
  rw [codePoints, String.toList_append, List.map_append, codePoints, codePoints]

theorem map_toNat_lt_map_toNat_iff {l l' : List Char} :
    l.map Char.toNat < l'.map Char.toNat ↔ l < l' := by
  induction l generalizing l' with
  | nil => cases l' <;> simp
  | cons c l ih =>
    cases l' with
    | nil => simp
    | cons c' l' =>
      rw [List.map_cons, List.map_cons, List.cons_lt_cons_iff, List.cons_lt_cons_iff, ih,
        toNat_injective.eq_iff]
      exact Iff.rfl

/-- Texts are compared by code points. -/
theorem codePoints_lt_codePoints_iff : codePoints s < codePoints t ↔ s < t :=
  map_toNat_lt_map_toNat_iff

/-- A text is less than any that it begins and that goes on. -/
theorem codePoints_lt_codePoints_append (ht : t ≠ "") : codePoints s < codePoints (s ++ t) := by
  cases hpoints : codePoints t with
  | nil => exact absurd (codePoints_injective (hpoints.trans rfl)) ht
  | cons n rest =>
    calc codePoints s = codePoints s ++ [] := (List.append_nil _).symm
      _ < codePoints s ++ n :: rest := List.append_left_lt (List.nil_lt_cons n rest)
      _ = codePoints (s ++ t) := by rw [codePoints_append, hpoints]

end

/-! ## Integers and texts -/

theorem orders_int : Orders Value.int Int64.toInt := by
  refine orders_of_verdicts (fun _ _ => Int64.toInt_inj.mp) (verdict_eq_admits ?_ ?_ ?_)
  · exact fun a b => congrArg Except.ok (decide_eq_decide.mpr Int64.lt_iff_toInt_lt)
  · exact fun a b => congrArg Except.ok (decide_eq_decide.mpr Int64.le_iff_toInt_le)
  · exact fun a b => decide_eq_decide.mpr Int64.toInt_inj.symm

theorem orders_str : Orders Value.str codePoints := by
  refine orders_of_verdicts codePoints_injective (verdict_eq_admits ?_ ?_ ?_)
  · exact fun s t => congrArg Except.ok (decide_eq_decide.mpr codePoints_lt_codePoints_iff.symm)
  · intro s t
    have hle : codePoints s ≤ codePoints t ↔ ¬ t < s := by
      rw [← not_lt, codePoints_lt_codePoints_iff]
    exact congrArg Except.ok (decide_not.symm.trans (decide_eq_decide.mpr hle.symm))
  · exact fun s t => decide_eq_decide.mpr codePoints_injective.eq_iff.symm

/-! ## The laws -/

/-- What the comparisons answer, for integers, for texts, and for all values. -/
structure ComparisonsAgree : Prop where
  /-- Integers are compared as exact integers. -/
  ints : Orders Value.int Int64.toInt
  /-- Texts are compared by code points, lexicographically. -/
  texts : Orders Value.str codePoints
  /-- The order of texts is also that of their bytes. -/
  bytes : ∀ s t : String, Comparison.lt.Holds (.str s) (.str t) ↔ Utf8.encode s < Utf8.encode t
  /-- A text is less than any that it begins and that goes on. -/
  extension : ∀ s t : String, t ≠ "" → Comparison.lt.Holds (.str s) (.str (s ++ t))
  /-- A comparison that needs an order fails exactly if an operand is null, or the operands are
  not both integers, both doubles or both texts. -/
  fails : ∀ c : Comparison, c.needsOrder = true → ∀ a b : Value,
    c.Fails a b ↔ a = .null ∨ b = .null ∨ ¬ a.Comparable b
  /-- So the comparisons that need an order fail together, either way round. -/
  fails_alike : ∀ c c' : Comparison, c.needsOrder = true → c'.needsOrder = true →
    ∀ a b : Value, (c.Fails a b ↔ c'.Fails a b) ∧ (c.Fails a b ↔ c'.Fails b a)
  /-- What does not fail answers one truth value. -/
  total : ∀ (c : Comparison) (a b : Value),
    ¬ c.Fails a b → ∃ t, ∀ r, c.Answers a b r ↔ r = .ok t
  /-- Equality and inequality never fail, and never agree. -/
  equality : ∀ a b : Value, ∃ t,
    Comparison.eq.Answers a b (.ok t) ∧ Comparison.ne.Answers a b (.ok !t)
  /-- Greater is written as less, the other way round. -/
  greater : ∀ table scope l r,
    lowerExpr table scope (.binary .gt l r) = lowerExpr table scope (.binary .lt r l)
  /-- Greater or equal is written as less or equal, the other way round. -/
  greaterEq : ∀ table scope l r,
    lowerExpr table scope (.binary .ge l r) = lowerExpr table scope (.binary .le r l)

/-- **The comparisons make one consistent order.** -/
theorem comparisons_agree : ComparisonsAgree := by
  constructor
  case ints => exact orders_int
  case texts => exact orders_str
  case bytes =>
    intro s t
    rw [Comparison.holds_iff, Utf8.encode_lt_encode_iff]
    exact (Except.ok.injEq (decide (s < t)) true).to_iff.trans decide_eq_true_iff
  case extension =>
    intro s t ht
    have h := orders_str.answers .lt s (s ++ t)
    rwa [(codePoints_lt_codePoints_append ht).cmp_eq_lt] at h
  case fails =>
    intro c hc a b
    rw [Comparison.fails_iff hc]
    refine ⟨fun h => .inr (.inr h), ?_⟩
    rintro (rfl | rfl | h) hab
    · cases hab
    · cases hab
    · exact h hab
  case fails_alike =>
    intro c c' hc hc' a b
    rw [Comparison.fails_iff hc, Comparison.fails_iff hc', Comparison.fails_iff hc',
      Value.comparable_comm (b := a)]
    exact ⟨Iff.rfl, Iff.rfl⟩
  case total =>
    intro c a b hfails
    rw [Comparison.fails_iff_exists] at hfails
    cases hverdict : c.verdict a b with
    | error e => exact absurd ⟨e, hverdict⟩ hfails
    | ok t =>
      refine ⟨t, fun r => ?_⟩
      rw [Comparison.answers_iff, hverdict, eq_comm]
  case equality =>
    exact fun a b => ⟨a.same b, Comparison.answers_iff.mpr rfl, Comparison.answers_iff.mpr rfl⟩
  case greater =>
    intro table scope l r
    simp only [lowerExpr, Operator.isSwapped, Operator.operation, if_true]
    rfl
  case greaterEq =>
    intro table scope l r
    simp only [lowerExpr, Operator.isSwapped, Operator.operation, if_true]
    rfl

end Opstack
