/-!
# Texts from bytes

`decode` reads bytes as UTF-8 and answers with one item for each character and `none` for each
part that is not UTF-8: the longest run of bytes that begins a character but does not finish it,
or a single byte that begins none.  The two readings of a byte sequence as a text follow from it:

* `strictText?` wants every part to be a character;
* `lossyText` puts the replacement character U+FFFD where a part is none.

The ranges allowed after the first byte exclude overlong forms, surrogates and everything above
U+10FFFF, so no number outside the range of characters is ever built.
-/

set_option autoImplicit false

namespace Opstack
namespace Utf8

/-- A character that has begun: how many bytes are owed, the least and the greatest byte that may
come next, and the bits read so far. -/
structure Begun where
  /-- Bytes still owed, at least one. -/
  owed : Nat
  /-- The least byte that may come next. -/
  low : Nat
  /-- The greatest byte that may come next. -/
  high : Nat
  /-- The number made of the bits read so far. -/
  bits : Nat
deriving DecidableEq

/-- What a byte means between two characters. -/
inductive Lead
  /-- A character of one byte. -/
  | single (c : Char)
  /-- The first byte of a longer character. -/
  | begins (state : Begun)
  /-- No character begins with this byte. -/
  | invalid
deriving DecidableEq

/-- What a byte means between two characters. -/
def lead (b : Nat) : Lead :=
  if b < 0x80 then .single (Char.ofNat b)
  else if 0xc2 ≤ b ∧ b ≤ 0xdf then .begins ⟨1, 0x80, 0xbf, b - 0xc0⟩
  else if b = 0xe0 then .begins ⟨2, 0xa0, 0xbf, 0⟩
  else if b = 0xed then .begins ⟨2, 0x80, 0x9f, 0xd⟩
  else if 0xe1 ≤ b ∧ b ≤ 0xef then .begins ⟨2, 0x80, 0xbf, b - 0xe0⟩
  else if b = 0xf0 then .begins ⟨3, 0x90, 0xbf, 0⟩
  else if 0xf1 ≤ b ∧ b ≤ 0xf3 then .begins ⟨3, 0x80, 0xbf, b - 0xf0⟩
  else if b = 0xf4 then .begins ⟨3, 0x80, 0x8f, 4⟩
  else .invalid

/-- Reads on from the middle of a character, or from between two characters. -/
def decodeFrom : Option Begun → List UInt8 → List (Option Char)
  | none, [] => []
  | some _, [] => [none]
  | none, b :: rest =>
    match lead b.toNat with
    | .single c => some c :: decodeFrom none rest
    | .begins state => decodeFrom (some state) rest
    | .invalid => none :: decodeFrom none rest
  | some state, b :: rest =>
    if state.low ≤ b.toNat ∧ b.toNat ≤ state.high then
      let bits := state.bits * 64 + (b.toNat - 0x80)
      if state.owed ≤ 1 then some (Char.ofNat bits) :: decodeFrom none rest
      else decodeFrom (some ⟨state.owed - 1, 0x80, 0xbf, bits⟩) rest
    else
      match lead b.toNat with
      | .single c => none :: some c :: decodeFrom none rest
      | .begins next => none :: decodeFrom (some next) rest
      | .invalid => none :: none :: decodeFrom none rest

/-- The characters of a byte sequence in order, with `none` for each part that is not UTF-8. -/
def decode (bytes : List UInt8) : List (Option Char) := decodeFrom none bytes

/-- The text that the bytes encode, if they are UTF-8 throughout. -/
def strictText? (bytes : List UInt8) : Option String :=
  ((decode bytes).mapM id).map String.ofList

/-- The text of the bytes, with U+FFFD in place of each part that is not UTF-8. -/
def lossyText (bytes : List UInt8) : String :=
  String.ofList ((decode bytes).map fun c => c.getD '\uFFFD')

/-- The bytes that encode a text. -/
def encode (s : String) : List UInt8 := s.toUTF8.toList

end Utf8
end Opstack
