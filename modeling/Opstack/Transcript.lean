import Opstack.Text.Utf8

/-!
# Transcripts

A transcript keeps the bytes written to it, in order, and shows them as a text in which every part
that is not UTF-8 is replaced by U+FFFD.  Bytes may come in any portions: a character may be begun
by one write and finished by the next.
-/

set_option autoImplicit false

namespace Opstack

/-- The bytes written so far. -/
structure Transcript where
  /-- The bytes in the order of writing. -/
  bytes : List UInt8 := []
deriving DecidableEq, Inhabited

namespace Transcript

/-- Appends bytes. -/
def write (t : Transcript) (bytes : List UInt8) : Transcript := ⟨t.bytes ++ bytes⟩

/-- Forgets everything. -/
def clear (_ : Transcript) : Transcript := ⟨[]⟩

/-- The bytes as text. -/
def contents (t : Transcript) : String := Utf8.lossyText t.bytes

end Transcript
end Opstack
