import Opstack.Text.Combining

/-!
# Quoted texts

`quoted s` writes a text between double quotes so that every character can be seen: the quote and
the backslash are escaped, tab, line feed, carriage return and NUL have names of two characters,
and any other character without a glyph of its own is written as its code point in hexadecimal.
-/

set_option autoImplicit false

namespace Opstack
namespace Text

/-- The code point of a character between braces, in lower-case hexadecimal without leading
zeros. -/
def escapedCodePoint (c : Char) : List Char :=
  '\\' :: 'u' :: '\x7b' :: Nat.toDigits 16 c.toNat ++ ['\x7d']

/-- How one character is written inside a quoted text. -/
def quotedChar (c : Char) : List Char :=
  match c with
  | '\x00' => ['\\', '0']
  | '\t' => ['\\', 't']
  | '\n' => ['\\', 'n']
  | '\r' => ['\\', 'r']
  | '"' => ['\\', '"']
  | '\\' => ['\\', '\\']
  | c => if extendsGrapheme c || !isGraphic c then escapedCodePoint c else [c]

/-- The text between double quotes, with every character made visible. -/
def quoted (s : String) : String :=
  String.ofList ('"' :: s.toList.flatMap quotedChar ++ ['"'])

end Text
end Opstack
