import Mathlib.Data.List.Basic
import Opstack.Text.Utf8

/-!
# Texts from their bytes

The bytes of a text are those of its characters, one character after the other (`encode_eq`), and
reading them gives the text back (`strictText?_encode`).  A character below U+0080 is one byte, and
no byte of any other character is below `0x80`, so such a byte is in the bytes of a text only where
the character is in the text (`mem_encode_iff`, `getLast?_of_encode`).

Comparing texts by their bytes is comparing them by their characters (`encode_lt_encode_iff`).

`decodeFrom_utf8EncodeChar` reads one character: its first byte begins it with the bits that the
others do not have, each further byte adds six bits, and the range that the first byte allows for
the second one has in it the second byte of every character.
-/

set_option autoImplicit false

namespace Opstack
namespace Utf8

/-! ## The bytes of a text -/

theorem toList_loop (bytes : ByteArray) (i : Nat) (r : List UInt8) :
    ByteArray.toList.loop bytes i r = r.reverse ++ bytes.data.toList.drop i := by
  fun_induction ByteArray.toList.loop bytes i r with
  | case1 i r h ih =>
    have hi : i < bytes.data.toList.length := h
    rw [ih, List.drop_eq_getElem_cons hi]
    simp [ByteArray.get!, h]
  | case2 i r h =>
    rw [List.drop_eq_nil_of_le (Nat.le_of_not_lt h), List.append_nil]

/-- **The bytes of a text are those of its characters**, in the same order. -/
theorem encode_eq (s : String) : encode s = s.toList.flatMap String.utf8EncodeChar := by
  have hbytes : s.toByteArray = (s.toList.flatMap String.utf8EncodeChar).toByteArray :=
    String.utf8Encode_toList.symm
  rw [encode, String.toUTF8_eq_toByteArray, ByteArray.toList, toList_loop, hbytes,
    List.toList_data_toByteArray]
  rfl

theorem encode_append (s t : String) : encode (s ++ t) = encode s ++ encode t := by
  rw [encode_eq, String.toList_append, List.flatMap_append, ← encode_eq, ← encode_eq]

/-- A number that fits into a byte is the number of the byte. -/
theorem toNat_ofNat {n : Nat} (h : n < 256) : (UInt8.ofNat n).toNat = n := by
  rw [UInt8.toNat_ofNat', Nat.mod_eq_of_lt h]

theorem utf8EncodeChar_of_lt {c : Char} (h : c.toNat < 0x80) :
    String.utf8EncodeChar c = [UInt8.ofNat c.toNat] := by
  rw [String.utf8EncodeChar]
  exact if_pos (Nat.le_of_lt_succ h)

/-- The byte that gives the last six bits of a number. -/
def trail (n : Nat) : UInt8 := UInt8.ofNat (n % 64 + 0x80)

theorem toNat_trail (n : Nat) : (trail n).toNat = n % 64 + 0x80 := toNat_ofNat (by omega)

/-- The bytes of a character of one to four bytes. -/
theorem utf8EncodeChar_cases (c : Char) :
    (c.toNat < 0x80 ∧ String.utf8EncodeChar c = [UInt8.ofNat c.toNat]) ∨
    (0x80 ≤ c.toNat ∧ c.toNat < 0x800 ∧
      String.utf8EncodeChar c = [UInt8.ofNat (c.toNat / 64 + 0xc0), trail c.toNat]) ∨
    (0x800 ≤ c.toNat ∧ c.toNat < 0x10000 ∧ String.utf8EncodeChar c =
      [UInt8.ofNat (c.toNat / 4096 + 0xe0), trail (c.toNat / 64), trail c.toNat]) ∨
    (0x10000 ≤ c.toNat ∧ c.toNat < 0x110000 ∧ String.utf8EncodeChar c =
      [UInt8.ofNat (c.toNat / 262144 + 0xf0), trail (c.toNat / 4096), trail (c.toNat / 64),
        trail c.toNat]) := by
  have hvalid : c.toNat < 0xd800 ∨ 0xdfff < c.toNat ∧ c.toNat < 0x110000 := c.valid
  have hlead : ∀ {k m n : Nat}, k < m → UInt8.ofNat (k % m + n) = UInt8.ofNat (k + n) :=
    fun h => by rw [Nat.mod_eq_of_lt h]
  fun_cases String.utf8EncodeChar c with
  | case1 n h1 =>
    change c.toNat ≤ 0x7f at h1
    exact .inl ⟨by omega, rfl⟩
  | case2 n h1 h2 =>
    change ¬ c.toNat ≤ 0x7f at h1
    change c.toNat ≤ 0x7ff at h2
    have hfirst : c.toNat / 64 < 0x20 := by omega
    exact .inr (.inl ⟨by omega, by omega, congrArg (· :: _) (hlead hfirst)⟩)
  | case3 n h1 h2 h3 =>
    change ¬ c.toNat ≤ 0x7ff at h2
    change c.toNat ≤ 0xffff at h3
    have hfirst : c.toNat / 4096 < 0x10 := by omega
    exact .inr (.inr (.inl ⟨by omega, by omega, congrArg (· :: _) (hlead hfirst)⟩))
  | case4 n h1 h2 h3 =>
    change ¬ c.toNat ≤ 0xffff at h3
    have hfirst : c.toNat / 262144 < 0x08 := by omega
    exact .inr (.inr (.inr ⟨by omega, by omega, congrArg (· :: _) (hlead hfirst)⟩))

/-- No byte of a character of several bytes could be a character of one. -/
theorem le_of_mem_utf8EncodeChar {c : Char} (h : 0x80 ≤ c.toNat) :
    ∀ b ∈ String.utf8EncodeChar c, 0x80 ≤ b.toNat := by
  have htrail : ∀ n, 0x80 ≤ (trail n).toNat := fun n => by
    rw [toNat_trail]
    omega
  have hlead : ∀ {n}, 0x80 ≤ n → n < 256 → 0x80 ≤ (UInt8.ofNat n).toNat := fun hn hlt => by
    rwa [toNat_ofNat hlt]
  rcases utf8EncodeChar_cases c with ⟨hlt, -⟩ | ⟨-, hlt, hbytes⟩ | ⟨-, hlt, hbytes⟩ |
    ⟨-, hlt, hbytes⟩
  · omega
  all_goals
    rw [hbytes, List.forall_mem_cons]
    exact ⟨hlead (by omega) (by omega), by simp [htrail]⟩

/-! ## Reading a character -/

section

variable {b : UInt8} {rest : List UInt8} {owed low high : Nat}

theorem decodeFrom_begins {state : Begun} (h : lead b.toNat = .begins state) :
    decodeFrom none (b :: rest) = decodeFrom (some state) rest := by
  rw [decodeFrom, h]

/-- A byte that is allowed adds six bits. -/
theorem decodeFrom_trail {n : Nat} (hlow : low ≤ n % 64 + 0x80) (hhigh : n % 64 + 0x80 ≤ high) :
    decodeFrom (some ⟨owed + 2, low, high, n / 64⟩) (trail n :: rest) =
      decodeFrom (some ⟨owed + 1, 0x80, 0xbf, n⟩) rest := by
  have hbits : n / 64 * 64 + (n % 64 + 0x80 - 0x80) = n := by omega
  rw [decodeFrom]
  simp only [toNat_trail, hbits]
  rw [if_pos ⟨hlow, hhigh⟩, if_neg (by omega)]
  rfl

/-- The last byte completes the character. -/
theorem decodeFrom_last {n : Nat} (hlow : low ≤ n % 64 + 0x80) (hhigh : n % 64 + 0x80 ≤ high) :
    decodeFrom (some ⟨1, low, high, n / 64⟩) (trail n :: rest) =
      some (Char.ofNat n) :: decodeFrom none rest := by
  have hbits : n / 64 * 64 + (n % 64 + 0x80 - 0x80) = n := by omega
  rw [decodeFrom]
  simp only [toNat_trail, hbits]
  rw [if_pos ⟨hlow, hhigh⟩, if_pos (Nat.le_refl 1)]

end

/-- The first byte of a character of two bytes. -/
theorem lead_two {n : Nat} (h : 0x80 ≤ n) (hlt : n < 0x800) :
    lead (n / 64 + 0xc0) = .begins ⟨1, 0x80, 0xbf, n / 64⟩ := by
  rw [lead, if_neg (by omega), if_pos (by omega), Nat.add_sub_cancel]

/-- The first byte of a character of three bytes allows its second byte. -/
theorem lead_three {n : Nat} (h : 0x800 ≤ n) (hlt : n < 0x10000) (hchar : n < 0xd800 ∨ 0xdfff < n) :
    ∃ low high, lead (n / 4096 + 0xe0) = .begins ⟨2, low, high, n / 4096⟩ ∧
      low ≤ n / 64 % 64 + 0x80 ∧ n / 64 % 64 + 0x80 ≤ high := by
  rw [lead, if_neg (by omega), if_neg (by omega)]
  by_cases hfirst : n / 4096 = 0
  · exact ⟨0xa0, 0xbf, by rw [hfirst]; rfl, by omega, by omega⟩
  rw [if_neg (by omega)]
  by_cases hsurrogate : n / 4096 = 0xd
  · exact ⟨0x80, 0x9f, by rw [hsurrogate]; rfl, by omega, by omega⟩
  rw [if_neg (by omega), if_pos (by omega), Nat.add_sub_cancel]
  exact ⟨0x80, 0xbf, rfl, by omega, by omega⟩

/-- The first byte of a character of four bytes allows its second byte. -/
theorem lead_four {n : Nat} (h : 0x10000 ≤ n) (hlt : n < 0x110000) :
    ∃ low high, lead (n / 262144 + 0xf0) = .begins ⟨3, low, high, n / 262144⟩ ∧
      low ≤ n / 4096 % 64 + 0x80 ∧ n / 4096 % 64 + 0x80 ≤ high := by
  rw [lead, if_neg (by omega), if_neg (by omega), if_neg (by omega), if_neg (by omega),
    if_neg (by omega)]
  by_cases hfirst : n / 262144 = 0
  · exact ⟨0x90, 0xbf, by rw [hfirst]; rfl, by omega, by omega⟩
  rw [if_neg (by omega)]
  by_cases hlast : n / 262144 = 4
  · exact ⟨0x80, 0x8f, by rw [hlast]; rfl, by omega, by omega⟩
  rw [if_pos (by omega), Nat.add_sub_cancel]
  exact ⟨0x80, 0xbf, rfl, by omega, by omega⟩

/-- **A character is read from its bytes**, and what follows them is left. -/
theorem decodeFrom_utf8EncodeChar (c : Char) (rest : List UInt8) :
    decodeFrom none (String.utf8EncodeChar c ++ rest) = some c :: decodeFrom none rest := by
  have hvalid : c.toNat < 0xd800 ∨ 0xdfff < c.toNat ∧ c.toNat < 0x110000 := c.valid
  rcases utf8EncodeChar_cases c with ⟨hlt, hbytes⟩ | ⟨hle, hlt, hbytes⟩ | ⟨hle, hlt, hbytes⟩ |
    ⟨hle, hlt, hbytes⟩
  · rw [hbytes, List.singleton_append, decodeFrom, toNat_ofNat (by omega), lead, if_pos hlt,
      Char.ofNat_toNat]
  · have hlead := lead_two hle hlt
    rw [← toNat_ofNat (show c.toNat / 64 + 0xc0 < 256 by omega)] at hlead
    rw [hbytes, List.cons_append, decodeFrom_begins hlead, List.singleton_append,
      decodeFrom_last (by omega) (by omega), Char.ofNat_toNat]
  · obtain ⟨low, high, hlead, hlow, hhigh⟩ := lead_three hle hlt (by omega)
    have hbits : c.toNat / 4096 = c.toNat / 64 / 64 := by omega
    rw [hbits] at hlead hbytes
    rw [← toNat_ofNat (show c.toNat / 64 / 64 + 0xe0 < 256 by omega)] at hlead
    rw [hbytes, List.cons_append, decodeFrom_begins hlead, List.cons_append,
      decodeFrom_trail hlow hhigh, List.singleton_append, decodeFrom_last (by omega) (by omega),
      Char.ofNat_toNat]
  · obtain ⟨low, high, hlead, hlow, hhigh⟩ := lead_four hle hlt
    have hbits : c.toNat / 262144 = c.toNat / 64 / 64 / 64 := by omega
    have hbits' : c.toNat / 4096 = c.toNat / 64 / 64 := by omega
    rw [hbits] at hlead hbytes
    rw [hbits'] at hlow hhigh hbytes
    rw [← toNat_ofNat (show c.toNat / 64 / 64 / 64 + 0xf0 < 256 by omega)] at hlead
    rw [hbytes, List.cons_append, decodeFrom_begins hlead, List.cons_append,
      decodeFrom_trail hlow hhigh, List.cons_append, decodeFrom_trail (by omega) (by omega),
      List.singleton_append, decodeFrom_last (by omega) (by omega), Char.ofNat_toNat]

/-! ## Reading a text -/

theorem decode_encode (s : String) : decode (encode s) = s.toList.map some := by
  rw [encode_eq, decode]
  induction s.toList with
  | nil => rfl
  | cons c cs ih => rw [List.flatMap_cons, decodeFrom_utf8EncodeChar, ih, List.map_cons]

theorem mapM_id_map_some (cs : List Char) : (cs.map some).mapM id = some cs := by
  induction cs with
  | nil => rfl
  | cons c cs ih =>
    rw [List.map_cons, List.mapM_cons, ih]
    rfl

/-- **A text is read from its bytes.** -/
theorem strictText?_encode (s : String) : strictText? (encode s) = some s := by
  rw [strictText?, decode_encode, mapM_id_map_some, Option.map_some, String.ofList_toList]

theorem encode_eq_nil_iff {s : String} : encode s = [] ↔ s = "" := by
  constructor
  · intro h
    have hdecode := decode_encode s
    rw [h] at hdecode
    exact String.toList_eq_nil_iff.mp (List.map_eq_nil_iff.mp hdecode.symm)
  · rintro rfl
    exact encode_eq ""

/-! ## Characters of one byte in the bytes of a text -/

section

variable {b : UInt8} {s : String}

theorem mem_utf8EncodeChar_iff (hb : b.toNat < 0x80) {c : Char} :
    b ∈ String.utf8EncodeChar c ↔ c = Char.ofNat b.toNat := by
  constructor
  · intro hmem
    by_cases hc : c.toNat < 0x80
    · rw [utf8EncodeChar_of_lt hc, List.mem_singleton] at hmem
      rw [hmem, toNat_ofNat (by omega), Char.ofNat_toNat]
    · have hle := le_of_mem_utf8EncodeChar (Nat.le_of_not_lt hc) b hmem
      omega
  · rintro rfl
    have hchar : (Char.ofNat b.toNat).toNat = b.toNat := by
      rw [Char.ofNat, dif_pos (.inl (by omega))]
      rfl
    rw [utf8EncodeChar_of_lt (by omega), hchar, List.mem_singleton, UInt8.ofNat_toNat]

/-- A byte below `0x80` is in the bytes of a text exactly if its character is in the text. -/
theorem mem_encode_iff (hb : b.toNat < 0x80) :
    b ∈ encode s ↔ Char.ofNat b.toNat ∈ s.toList := by
  simp only [encode_eq, List.mem_flatMap, mem_utf8EncodeChar_iff hb, exists_eq_right]

/-- If the last byte of a text is below `0x80`, its character is the last one. -/
theorem getLast?_of_encode (hb : b.toNat < 0x80) (h : (encode s).getLast? = some b) :
    s.toList.getLast? = some (Char.ofNat b.toNat) := by
  rw [encode_eq] at h
  cases hlast : s.toList.getLast? with
  | none =>
    rw [List.getLast?_eq_none_iff.mp hlast] at h
    cases h
  | some c =>
    obtain ⟨before, hbefore⟩ := List.getLast?_eq_some_iff.mp hlast
    rw [hbefore, List.flatMap_append, List.flatMap_singleton,
      List.getLast?_append_of_ne_nil _ String.utf8EncodeChar_ne_nil] at h
    rw [(mem_utf8EncodeChar_iff hb).mp (List.mem_of_getLast? h)]

end

/-! ## Order -/

/-- The bytes of two characters stand as the characters do, whatever follows them. -/
theorem utf8EncodeChar_lt {c c' : Char} (h : c.toNat < c'.toNat) (rest rest' : List UInt8) :
    String.utf8EncodeChar c ++ rest < String.utf8EncodeChar c' ++ rest' := by
  rcases utf8EncodeChar_cases c with ⟨hlt, hb⟩ | ⟨hle, hlt, hb⟩ | ⟨hle, hlt, hb⟩ |
      ⟨hle, hlt, hb⟩ <;>
    rcases utf8EncodeChar_cases c' with ⟨hlt', hb'⟩ | ⟨hle', hlt', hb'⟩ | ⟨hle', hlt', hb'⟩ |
      ⟨hle', hlt', hb'⟩
  -- The greater character cannot have fewer bytes.
  all_goals try omega
  -- With more bytes its first byte is greater, and with as many the first that differs is.
  all_goals
    rw [hb, hb']
    simp only [List.cons_append, List.nil_append, List.cons_lt_cons_iff, UInt8.lt_iff_toNat_lt,
      ← UInt8.toNat_inj, toNat_trail]
    simp (disch := omega) only [toNat_ofNat]
    omega

theorem append_lt_append_left_iff (bytes : List UInt8) {rest rest' : List UInt8} :
    bytes ++ rest < bytes ++ rest' ↔ rest < rest' := by
  induction bytes with
  | nil => exact Iff.rfl
  | cons b bytes ih =>
    rw [List.cons_append, List.cons_append, List.cons_lt_cons_iff, ih]
    simp

theorem flatMap_lt_flatMap_iff {cs cs' : List Char} :
    cs.flatMap String.utf8EncodeChar < cs'.flatMap String.utf8EncodeChar ↔ cs < cs' := by
  induction cs generalizing cs' with
  | nil =>
    cases cs' with
    | nil => simp
    | cons c' cs' =>
      have hpos : [] < String.utf8EncodeChar c' ++ cs'.flatMap String.utf8EncodeChar := by
        cases hbytes : String.utf8EncodeChar c' with
        | nil => exact absurd hbytes String.utf8EncodeChar_ne_nil
        | cons b bytes => exact List.nil_lt_cons _ _
      exact iff_of_true hpos (List.nil_lt_cons _ _)
  | cons c cs ih =>
    cases cs' with
    | nil => simp
    | cons c' cs' =>
      rw [List.flatMap_cons, List.flatMap_cons, List.cons_lt_cons_iff]
      rcases Nat.lt_trichotomy c.toNat c'.toNat with h | h | h
      · exact iff_of_true (utf8EncodeChar_lt h _ _) (.inl h)
      · obtain rfl : c = c' := Char.toNat_inj.mp h
        rw [append_lt_append_left_iff, ih]
        simp
      · refine iff_of_false (List.lt_asymm (utf8EncodeChar_lt h _ _)) ?_
        rintro (hlt | ⟨rfl, -⟩)
        · exact Nat.lt_asymm h hlt
        · exact Nat.lt_irrefl _ h

/-- **Texts stand in the order of their bytes.** -/
theorem encode_lt_encode_iff {s t : String} : encode s < encode t ↔ s < t := by
  rw [encode_eq, encode_eq, flatMap_lt_flatMap_iff]
  exact Iff.rfl

end Utf8
end Opstack
