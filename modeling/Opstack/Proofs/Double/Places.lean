import Opstack.Proofs.Double.Text
import Opstack.Proofs.Machine.Texts

/-!
# Doubles written without a point

A whole double from `10 ^ 16` on is written without a point, and every other finite double with
digits on both sides of one.

* `Double.IsBare` says which doubles these are, and `Double.exponent_written_nonneg_iff` that their
  decimal has no places.
* `Double.text_of_isBare`: such a text is the numeral of an integer, as an integer is written.
* `Double.digits_written_lt_iff`: it is that of an integer of sixty-four bits exactly if the double
  is below `2 ^ 63`.  The double `2 ^ 63` itself is written as a number above it.
* `Double.textsOfFinite`: what this means for the instructions that take doubles and texts.
-/

set_option autoImplicit false

namespace Opstack

/-- The text has a point with a digit behind it. -/
def Text.HasPlaces (s : String) : Prop :=
  ∃ before c behind, s.toList = before ++ '.' :: c :: behind ∧ c.isDigit = true

namespace Double

/-- The double is a whole number that is not written with a point. -/
def IsBare (d : Double) : Prop := d.isWhole = true ∧ wholeTextLimit ≤ d.wholePart

section

variable {d : Double}

theorem IsBare.not_small (h : d.IsBare) : ¬ (d.isWhole ∧ d.wholePart < wholeTextLimit) :=
  fun hsmall => absurd hsmall.2 (not_lt.mpr h.2)

/-! ## Which decimals have places -/

theorem exponent_written_nonneg_iff (d : Double) : 0 ≤ d.written.exponent ↔ d.IsBare := by
  rw [written, IsBare]
  split
  case isTrue hsmall =>
    exact iff_of_false (show ¬ (0 : Int) ≤ -1 by decide) fun h => IsBare.not_small h hsmall
  case isFalse hother =>
    split
    case isTrue hnonneg =>
      have hwhole := (exponent_shortest_nonneg_iff d).mp hnonneg
      exact iff_of_true (Int.le_refl 0) ⟨hwhole, not_lt.mp fun h => hother ⟨hwhole, h⟩⟩
    case isFalse hneg =>
      exact iff_of_false hneg fun h => hneg ((exponent_shortest_nonneg_iff d).mpr h.1)

/-- Behind a sign or none there is a point with a digit behind it exactly if the decimal has
places. -/
theorem Spells.hasPlaces_iff {sign cs : List Char} {x : Decimal} (h : Spells cs x)
    (hsign : '.' ∉ sign) :
    Text.HasPlaces (String.ofList (sign ++ cs)) ↔ x.exponent < 0 := by
  rw [Text.HasPlaces, String.toList_ofList]
  cases h with
  | whole hne hds =>
    refine iff_of_false ?_ (Int.lt_irrefl 0)
    rintro ⟨before, c, behind, heq, -⟩
    have hpoint : '.' ∈ sign ++ cs := heq ▸ List.mem_append_right _ List.mem_cons_self
    rcases List.mem_append.mp hpoint with hmem | hmem
    · exact hsign hmem
    · exact absurd (hds _ hmem) (by decide)
  | @point ds ps hne hpne hdigits =>
    obtain ⟨c, behind, rfl⟩ := List.exists_cons_of_ne_nil hpne
    refine iff_of_true ⟨sign ++ ds, c, behind, by rw [List.append_assoc], hdigits c ?_⟩ ?_
    · exact List.mem_append_right _ List.mem_cons_self
    · simp only [List.length_cons]
      omega

theorem point_not_mem_signText (d : Double) : '.' ∉ d.signText := by
  rw [signText]
  split <;> decide

/-- **A finite double is written with a point and a digit behind it exactly if it is not bare.** -/
theorem hasPlaces_text_iff (h : d.IsFinite) : Text.HasPlaces d.text ↔ ¬ d.IsBare := by
  rw [text_of_isFinite h, d.finiteText_spells.hasPlaces_iff d.point_not_mem_signText,
    ← exponent_written_nonneg_iff, not_le]

/-! ## The integer that a text without a point names -/

theorem mantissa_ne_zero_of_isBare (h : d.IsBare) : d.mantissa ≠ 0 := by
  intro hm
  have hpart : d.wholePart = 0 := by rw [wholePart, hm, Nat.zero_mul, Nat.zero_div]
  exact absurd h.2 (by rw [hpart]; decide)

theorem written_of_isBare (h : d.IsBare) :
    d.written = ⟨d.shortest.digits * 10 ^ d.shortest.exponent.toNat, 0⟩ := by
  rw [written, if_neg h.not_small,
    if_pos ((exponent_shortest_nonneg_iff d).mpr h.1)]

theorem digits_shortest_ne_zero (hm : d.mantissa ≠ 0) : d.shortest.digits ≠ 0 := by
  intro hzero
  have hpos := two_zpow_le_of_contains hm (contains_shortest hm)
  rw [Decimal.value, hzero, Nat.cast_zero, zero_mul] at hpos
  exact absurd hpos (not_le.mpr (by positivity))

/-- The integer that a bare double is written as. -/
def signedDigits (d : Double) : Int :=
  if d.isNegative then -(d.written.digits : Int) else d.written.digits

/-- **A bare double is written as an integer is.** -/
theorem text_of_isBare (hfinite : d.IsFinite) (h : d.IsBare) :
    d.text = Text.intText d.signedDigits := by
  have hdigits := digits_shortest_ne_zero (mantissa_ne_zero_of_isBare h)
  have hfiniteText : d.finiteText = Text.digits d.written.digits := by
    rw [finiteText, if_neg h.not_small, written_of_isBare h,
      ← Text.digits_append_replicate hdigits]
    exact if_pos ((exponent_shortest_nonneg_iff d).mpr h.1)
  have hpos : 0 < d.written.digits := by
    rw [written_of_isBare h]
    exact Nat.mul_pos (Nat.pos_of_ne_zero hdigits) (Nat.pow_pos (by decide))
  rw [text_of_isFinite hfinite, hfiniteText, signText, signedDigits, Text.intText]
  cases d.isNegative with
  | true =>
    simp only [if_true]
    rw [if_pos (by omega), Int.natAbs_neg, Int.natAbs_natCast]
    rfl
  | false =>
    simp only [Bool.false_eq_true, if_false]
    rw [if_neg (by omega), Int.natAbs_natCast]
    rfl

/-! ## Sixty-four bits -/

/-- The doubles from `2 ^ 63` on are those with a large exponent. -/
theorem absValue_lt_iff (d : Double) : d.absValue < 2 ^ 63 ↔ d.exponent ≤ 10 := by
  constructor
  · intro h
    by_contra hlarge
    have hlead : ((2 ^ 52 : Nat) : ℚ) ≤ d.mantissa :=
      Nat.cast_le.mpr (le_mantissa_of_lt_exponent (by omega))
    refine absurd h (not_lt.mpr ?_)
    calc (2 : ℚ) ^ 63 = (2 ^ 52 : Nat) * 2 ^ (11 : Int) := by norm_num
      _ ≤ d.absValue := by
        rw [absValue]
        gcongr
        · norm_num
        · omega
  · intro h
    have hmantissa : (d.mantissa : ℚ) < 2 ^ 53 := by exact_mod_cast d.mantissa_lt
    calc d.absValue < 2 ^ 53 * 2 ^ d.exponent := by
          rw [absValue]
          gcongr
      _ ≤ 2 ^ 53 * 2 ^ (10 : Int) := by
        gcongr
        norm_num
      _ = 2 ^ 63 := by norm_num

/-- Below `2 ^ 63` there is room for half the distance to the next double. -/
theorem value_shortest_lt (hm : d.mantissa ≠ 0) (h : d.absValue < 2 ^ 63) :
    d.shortest.value < 2 ^ 63 := by
  have hpos : (0 : ℚ) < 2 ^ d.exponent := by positivity
  have hexponent := (absValue_lt_iff d).mp h
  have hlt := div_lt_of_contains hm (contains_shortest hm)
  rw [div_lt_iff₀ hpos] at hlt
  calc d.shortest.value < 2 ^ 53 * 2 ^ d.exponent := hlt
    _ ≤ 2 ^ 53 * 2 ^ (10 : Int) := by
      gcongr
      norm_num
    _ = 2 ^ 63 := by norm_num

/-- The shortest decimal of `2 ^ 63` is greater than it. -/
theorem shortest_two_pow (negative : Bool) :
    (ofMagnitude negative 0x43e0000000000000).shortest = ⟨9223372036854776, 3⟩ := by
  cases negative <;> decide +kernel

/-- From `2 ^ 63` on the decimal lies above it. -/
theorem lt_value_shortest (h : 2 ^ 63 ≤ d.absValue) : 2 ^ 63 < d.shortest.value := by
  have hpos : (0 : ℚ) < 2 ^ d.exponent := by positivity
  have hexponent : 11 ≤ d.exponent := by
    have := mt (absValue_lt_iff d).mpr (not_lt.mpr h)
    omega
  have hlead := le_mantissa_of_lt_exponent (d := d) (by omega)
  have hlow := (roundsTo_of_contains (by omega) (contains_shortest (d := d) (by omega))).1.1
  rw [le_div_iff₀ hpos] at hlow
  rcases eq_or_lt_of_le hexponent with heq | hlt
  · rcases Nat.eq_or_lt_of_le hlead with hleast | hmore
    · -- The double is `2 ^ 63` but for its sign.
      have hmagnitude : d.magnitude = 0x43e0000000000000 := by
        have := d.magnitude_eq
        omega
      rw [← d.ofMagnitude_magnitude, hmagnitude, shortest_two_pow, Decimal.value]
      norm_num
    · have hcast : ((2 ^ 52 + 1 : Nat) : ℚ) ≤ d.mantissa := Nat.cast_le.mpr hmore
      push_cast at hcast
      refine lt_of_lt_of_le ?_ hlow
      rw [← heq]
      calc (2 : ℚ) ^ 63 < (2 ^ 52 + 1 / 2 : ℚ) * 2 ^ (11 : Int) := by norm_num
        _ ≤ ((d.mantissa : ℚ) - 1 / 2) * 2 ^ (11 : Int) := by
          gcongr
          linarith
  · have hcast : ((2 ^ 52 : Nat) : ℚ) ≤ d.mantissa := Nat.cast_le.mpr hlead
    push_cast at hcast
    have hhalf : (0 : ℚ) ≤ d.mantissa - 1 / 2 := by linarith
    refine lt_of_lt_of_le ?_ hlow
    calc (2 : ℚ) ^ 63 < (2 ^ 52 - 1 / 2 : ℚ) * 2 ^ (12 : Int) := by norm_num
      _ ≤ ((d.mantissa : ℚ) - 1 / 2) * 2 ^ (12 : Int) := by
        gcongr
        linarith
      _ ≤ ((d.mantissa : ℚ) - 1 / 2) * 2 ^ d.exponent := by
        gcongr
        · norm_num
        · exact hlt

/-- **The integer that a bare double is written as fits in sixty-four bits exactly if the double is
below `2 ^ 63`**, whatever its sign. -/
theorem fitsInt64_signedDigits_iff (h : d.IsBare) :
    Text.FitsInt64 d.signedDigits ↔ d.wholePart < 2 ^ 63 := by
  have hm := mantissa_ne_zero_of_isBare h
  have hvalue : (d.written.digits : ℚ) = d.shortest.value := by
    rw [← value_written_of_not_small h.not_small, Decimal.value, written_of_isBare h, zpow_zero,
      mul_one]
  have hwhole := wholePart_of_isWhole h.1
  rw [Text.FitsInt64, signedDigits]
  rcases Nat.lt_or_ge d.wholePart (2 ^ 63) with hlt | hge
  · have hsmall : d.written.digits < 2 ^ 63 := by
      have := value_shortest_lt hm (by rw [← hwhole]; exact_mod_cast hlt)
      rw [← hvalue] at this
      exact_mod_cast this
    split <;> omega
  · have hlarge : 2 ^ 63 < d.written.digits := by
      have := lt_value_shortest (d := d) (by rw [← hwhole]; exact_mod_cast hge)
      rw [← hvalue] at this
      exact_mod_cast this
    split <;> omega

/-! ## Integers with the same text -/

/-- A text with a point is no numeral. -/
theorem not_denotes_of_hasPlaces {s : String} {z : Int} (h : Text.HasPlaces s) :
    ¬ Text.Denotes s.toList z := by
  obtain ⟨before, c, behind, heq, -⟩ := h
  have hpoint : '.' ∈ s.toList := heq ▸ List.mem_append_right _ List.mem_cons_self
  exact fun hdenotes => absurd (hdenotes.isDigit_or_sign hpoint) (by decide)

/-- **The text of a finite double is a numeral of sixty-four bits exactly if the double is bare and
below `2 ^ 63`.** -/
theorem exists_denotes_text_iff (hfinite : d.IsFinite) :
    (∃ z, Text.Denotes d.text.toList z ∧ Text.FitsInt64 z) ↔ d.IsBare ∧ d.wholePart < 2 ^ 63 := by
  by_cases hbare : d.IsBare
  · rw [text_of_isBare hfinite hbare, ← fitsInt64_signedDigits_iff hbare, and_iff_right hbare]
    have hdenotes := Text.denotes_intText d.signedDigits
    constructor
    · rintro ⟨z, hz, hfits⟩
      rwa [hdenotes.unique hz]
    · exact fun hfits => ⟨_, hdenotes, hfits⟩
  · have hplaces := (hasPlaces_text_iff hfinite).mpr hbare
    exact iff_of_false (fun ⟨_, hz, _⟩ => not_denotes_of_hasPlaces hplaces hz)
      fun h => hbare h.1

/-- An integer has the text exactly if the text is such a numeral: neither has leading zeros. -/
theorem exists_intText_iff (hfinite : d.IsFinite) :
    (∃ n : Int64, Text.intText n.toInt = d.text) ↔ d.IsBare ∧ d.wholePart < 2 ^ 63 := by
  rw [← exists_denotes_text_iff hfinite]
  constructor
  · rintro ⟨n, hn⟩
    exact ⟨n.toInt, hn ▸ Text.denotes_intText n.toInt, Text.fitsInt64_toInt n⟩
  · intro h
    obtain ⟨hbare, hsmall⟩ := (exists_denotes_text_iff hfinite).mp h
    refine ⟨Int64.ofInt d.signedDigits, ?_⟩
    rw [Text.toInt_ofInt_of_fits ((fitsInt64_signedDigits_iff hbare).mpr hsmall),
      text_of_isBare hfinite hbare]

end

/-! ## The instructions -/

/-- What instructions make of a finite double as a text, and of that text. -/
structure TextShown (d : Double) : Prop where
  /-- The instruction `TOSTR` makes the text of it. -/
  tostr : (Opcode.unary .tostr).Makes [.double d] (.ok (.str (Value.double d).text))
  /-- The instruction `WRITE` sends the same text to the output. -/
  write : ∀ (s : Shared) (x : Execution) (i : Instr), i.op = .write →
    perform s { x with operands := .double d :: x.operands } i = onConsole s fun c =>
      (((c.write (Value.double d).text).1.mapError .io).map fun _ => x,
        (c.write (Value.double d).text).2)
  /-- The text has a point and a digit behind it unless the double is bare. -/
  places : Text.HasPlaces (Value.double d).text ↔ ¬ d.IsBare
  /-- An integer has the same text exactly if the double is bare and below `2 ^ 63`. -/
  likeInt : (∃ n : Int64, (Value.int n).text = (Value.double d).text) ↔
    d.IsBare ∧ d.wholePart < 2 ^ 63
  /-- The instruction `TOINT` refuses the text, and names it, unless it is that of an integer. -/
  toint : (Opcode.unary .toint).Makes [.str (Value.double d).text]
      (.error (.invalidConversion "int" (Value.double d).text)) ↔
    ¬ (d.IsBare ∧ d.wholePart < 2 ^ 63)

/-- **A finite double shows a digit behind a point, is not written like an integer and is not read
as one, unless it is a whole number from `10 ^ 16` on.** -/
theorem textShown (d : Double) (h : d.IsFinite) : d.TextShown where
  tostr := Opcode.makes_unary .tostr (.double d)
  write := by
    intro s x i hi
    rw [perform, hi]
    change onConsole s (Execution.write { x with operands := .double d :: x.operands }) = _
    congr 1
    funext c
    simp only [Execution.write, Execution.pop]
    rcases c.write (Value.double d).text with ⟨_ | _, _⟩ <;> rfl
  places := hasPlaces_text_iff h
  likeInt := exists_intText_iff h
  toint := by
    have hmakes := Opcode.makes_unary .toint (.str (Value.double d).text)
    rw [← exists_denotes_text_iff h, ← Text.readInt64?_eq_none_iff]
    have hunary : Value.unary .toint (.str (Value.double d).text) =
        (Value.str (Value.double d).text).toInt := rfl
    rw [hunary, Value.toInt_str, Value.text] at hmakes
    cases hread : Text.readInt64? d.text with
    | none =>
      rw [hread] at hmakes
      exact iff_of_true hmakes rfl
    | some n =>
      rw [hread] at hmakes
      exact iff_of_false (fun hrefuses => by cases hrefuses.unique hmakes) fun h => by cases h

/-- The largest double that has places, and the next one, which is written like an integer. -/
theorem textShown_tenToSixteen :
    (IsFinite ⟨0x4341c37937e07fff⟩ ∧ TextShown ⟨0x4341c37937e07fff⟩) ∧
      IsFinite ⟨0x4341c37937e08000⟩ ∧ TextShown ⟨0x4341c37937e08000⟩ :=
  ⟨⟨by decide, textShown _ (by decide)⟩, by decide, textShown _ (by decide)⟩

/-- The double `10 ^ 16` is written without a point, as the integer `10 ^ 16` is, and its text is
read as that integer. -/
theorem not_hasPlaces_tenToSixteen :
    IsFinite ⟨0x4341c37937e08000⟩ ∧
      (Value.double ⟨0x4341c37937e08000⟩).text = "10000000000000000" ∧
      ¬ Text.HasPlaces (Value.double ⟨0x4341c37937e08000⟩).text ∧
      (Value.int 10000000000000000).text = (Value.double ⟨0x4341c37937e08000⟩).text ∧
      (Value.str (Value.double ⟨0x4341c37937e08000⟩).text).toInt =
        .ok (.int 10000000000000000) := by
  have htext : (Value.double ⟨0x4341c37937e08000⟩).text = "10000000000000000" := by decide +kernel
  have hint : (Value.int 10000000000000000).text = "10000000000000000" := by decide +kernel
  refine ⟨by decide, htext, ?_, hint.trans htext.symm, ?_⟩
  · rintro ⟨before, c, behind, heq, -⟩
    have hpoint : '.' ∈ "10000000000000000".toList :=
      htext ▸ heq ▸ List.mem_append_right _ List.mem_cons_self
    exact absurd hpoint (by decide)
  · rw [htext, ← hint]
    exact Value.toInt_text _

end Double
end Opstack
