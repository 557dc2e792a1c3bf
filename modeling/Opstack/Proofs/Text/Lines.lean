import Mathlib.Data.List.TakeWhile
import Opstack.Console
import Opstack.Proofs.Text.Utf8
import Opstack.Value.Basic

/-!
# Lines of the input

An input is a text in lines.  Each `Line` ends with a line feed or with a carriage return and a
line feed, and what follows the last of them is a line as well unless it is empty.  Carriage
returns elsewhere are characters like others; only a line that ends with a line feed alone has none
at its end, since the two would be the other ending.

* `Input.text` is the input as one text, `Input.texts` are its lines without their endings, and
  `Input.answer` is what reading gives the `n`-th time.
* `Console.Offers`: a console has this input left, and ends where it ends.
* `Console.readLine_of_flush`: one line is read and the others are left.
* `Console.readLine_of_refusal`: if the output cannot be flushed, nothing is read.
-/

set_option autoImplicit false

namespace Opstack

/-- A line and how it ends. -/
structure Line where
  /-- The characters of the line, without its ending. -/
  text : String
  /-- A carriage return stands before the line feed. -/
  isReturned : Bool
  /-- The line does not go on after a line feed. -/
  noFeed : '\n' ∉ text.toList
  /-- A carriage return before the line feed is part of the ending. -/
  noReturn : isReturned = false → text.toList.getLast? ≠ some '\r'

/-- A text in lines. -/
structure Input where
  /-- The lines that end. -/
  lines : List Line
  /-- What follows the last line feed. -/
  last : String
  /-- Nothing of it is a line that ends. -/
  noFeed : '\n' ∉ last.toList

/-! ## Inputs -/

/-- The line with its ending. -/
def Line.written (l : Line) : String := l.text ++ if l.isReturned then "\r\n" else "\n"

namespace Input

/-- The input as one text. -/
def text (t : Input) : String := t.lines.foldr (fun l rest => l.written ++ rest) t.last

/-- The lines without their endings. -/
def texts (t : Input) : List String :=
  t.lines.map Line.text ++ if t.last = "" then [] else [t.last]

/-- What is read the `n`-th time, counted from zero: a line, or `null` after the last one. -/
def answer (t : Input) (n : Nat) : Value := (t.texts[n]?.map .str).getD .null

/-- The input without its first line. -/
def rest : Input → Input
  | ⟨_ :: lines, last, h⟩ => ⟨lines, last, h⟩
  | ⟨[], _, _⟩ => ⟨[], "", by decide⟩

/-- The input without its first `n` lines. -/
def after (t : Input) : Nat → Input
  | 0 => t
  | n + 1 => t.rest.after n

theorem texts_rest (t : Input) : t.rest.texts = t.texts.tail := by
  obtain ⟨_ | ⟨l, lines⟩, last, h⟩ := t
  · by_cases hlast : last = "" <;> simp [rest, texts, hlast]
  · rfl

theorem answer_zero (t : Input) : t.answer 0 = (t.texts.head?.map .str).getD .null := by
  rw [answer, List.head?_eq_getElem?]

/-- Without the first line everything is read one time earlier. -/
theorem answer_rest (t : Input) (n : Nat) : t.rest.answer n = t.answer (n + 1) := by
  rw [answer, texts_rest, List.getElem?_tail, answer]

theorem answer_after (t : Input) (n : Nat) : (t.after n).answer 0 = t.answer n := by
  induction n generalizing t with
  | zero => rfl
  | succ n ih => rw [after, ih, answer_rest]

end Input

/-! ## Bytes of lines -/

section

open Console Utf8

theorem lineFeed_not_mem {s : String} (h : '\n' ∉ s.toList) : lineFeed ∉ encode s :=
  (mem_encode_iff (by decide)).not.mpr h

theorem ne_lineFeed {line : List UInt8} (h : lineFeed ∉ line) :
    ∀ b ∈ line, (b != lineFeed) = true :=
  fun _ hb => bne_iff_ne.mpr fun heq => h (heq ▸ hb)

/-- The bytes of a line before its line feed. -/
def Line.bytes (l : Line) : List UInt8 :=
  encode l.text ++ if l.isReturned then [carriageReturn] else []

theorem Line.encode_written (l : Line) : encode l.written = l.bytes ++ [lineFeed] := by
  have hfeed : encode "\n" = [lineFeed] := (encode_eq _).trans (by decide)
  have hreturn : encode "\r\n" = [carriageReturn, lineFeed] := (encode_eq _).trans (by decide)
  rw [written, bytes, encode_append, List.append_assoc]
  cases l.isReturned with
  | false => rw [if_neg Bool.false_ne_true, if_neg Bool.false_ne_true, hfeed, List.nil_append]
  | true => rw [if_pos rfl, if_pos rfl, hreturn, List.singleton_append]

theorem Line.lineFeed_not_mem_bytes (l : Line) : lineFeed ∉ l.bytes := by
  rw [bytes, List.mem_append, not_or]
  refine ⟨lineFeed_not_mem l.noFeed, ?_⟩
  split <;> decide

/-- What counts of a line are its own characters. -/
theorem Line.dropReturn_bytes (l : Line) : dropReturn l.bytes = encode l.text := by
  rw [bytes, dropReturn]
  cases hreturned : l.isReturned with
  | false =>
    rw [if_neg Bool.false_ne_true, List.append_nil]
    exact if_neg fun h => l.noReturn hreturned (getLast?_of_encode (by decide) h)
  | true => rw [if_pos rfl, List.getLast?_concat, if_pos rfl, List.dropLast_concat]

theorem lineText_encode (s : String) : lineText (encode s) = .ok (some s) := by
  rw [lineText, strictText?_encode]

end

namespace Console

/-- The input of the console is this one, and it ends without a failure. -/
structure Offers (c : Console) (t : Input) : Prop where
  /-- The bytes that have not been read are those of the input. -/
  input : c.input = Utf8.encode t.text
  /-- Reading on finds the end. -/
  ends : c.inputFailure = none

variable {c : Console} {t : Input}

/-- A line ends at the first line feed. -/
theorem takeLine_of_lineFeed {line rest : List UInt8} (hline : lineFeed ∉ line)
    (hinput : c.input = line ++ lineFeed :: rest) :
    c.takeLine = (lineText (dropReturn line), { c with input := rest }) := by
  have htake : c.input.takeWhile (· != lineFeed) = line := by
    rw [hinput, List.takeWhile_append_of_pos (ne_lineFeed hline),
      List.takeWhile_cons_of_neg (by decide), List.append_nil]
  have hdrop : c.input.dropWhile (· != lineFeed) = lineFeed :: rest := by
    rw [hinput, List.dropWhile_append_of_pos (ne_lineFeed hline),
      List.dropWhile_cons_of_neg (by decide)]
  rw [takeLine, htake, hdrop]

/-- Without a line feed what is left is the last line, unless it is empty. -/
theorem takeLine_of_not_mem (hline : lineFeed ∉ c.input) (hends : c.inputFailure = none) :
    c.takeLine =
      if c.input.isEmpty then (.ok none, c) else (lineText c.input, { c with input := [] }) := by
  have htake : c.input.takeWhile (· != lineFeed) = c.input :=
    List.takeWhile_eq_self_iff.mpr (ne_lineFeed hline)
  have hdrop : c.input.dropWhile (· != lineFeed) = [] :=
    List.dropWhile_eq_nil_iff.mpr (ne_lineFeed hline)
  rw [takeLine, htake, hdrop, hends]

/-- **Taking a line leaves the others.** -/
theorem takeLine_of_offers (h : c.Offers t) :
    c.takeLine = (.ok t.texts.head?, { c with input := Utf8.encode t.rest.text }) := by
  obtain ⟨_ | ⟨l, lines⟩, last, hfeed⟩ := t
  · have hinput : c.input = Utf8.encode last := h.input
    have htake := takeLine_of_not_mem (hinput ▸ lineFeed_not_mem hfeed) h.ends
    rw [htake, Input.texts, Input.rest, Input.text, List.map_nil, List.nil_append, List.foldr_nil]
    by_cases hlast : last = ""
    · have hnil : c.input = [] := hinput.trans (Utf8.encode_eq_nil_iff.mpr hlast)
      rw [if_pos (List.isEmpty_iff.mpr hnil), if_pos hlast, Utf8.encode_eq_nil_iff.mpr rfl, ← hnil]
      rfl
    · have hne : c.input ≠ [] := fun hnil => hlast (Utf8.encode_eq_nil_iff.mp (hinput ▸ hnil))
      rw [if_neg (List.isEmpty_iff.not.mpr hne), if_neg hlast, hinput, lineText_encode,
        Utf8.encode_eq_nil_iff.mpr rfl]
      rfl
  · have hinput : c.input =
        l.bytes ++ lineFeed :: Utf8.encode (Input.mk lines last hfeed).text := by
      rw [h.input, Input.text, List.foldr_cons, Utf8.encode_append, l.encode_written,
        List.append_assoc, List.singleton_append]
      rfl
    rw [takeLine_of_lineFeed l.lineFeed_not_mem_bytes hinput, l.dropReturn_bytes, lineText_encode]
    rfl

theorem snd_flush (c : Console) : c.flush.2 = { c with flushes := c.flushes + 1 } := by
  rw [flush]
  split <;> rfl

/-- **A line is read once the output has been flushed**, and the others are left. -/
theorem readLine_of_flush (h : c.Offers t) (hflush : c.flush.1 = .ok ()) :
    ∃ c', c.readLine = (.ok t.texts.head?, c') ∧ c'.Offers t.rest := by
  have hflushed : c.flush = (.ok (), { c with flushes := c.flushes + 1 }) :=
    Prod.ext hflush c.snd_flush
  have hoffers : Offers { c with flushes := c.flushes + 1 } t := ⟨h.input, h.ends⟩
  refine ⟨{ c with flushes := c.flushes + 1, input := Utf8.encode t.rest.text }, ?_, rfl, h.ends⟩
  rw [readLine, hflushed]
  exact takeLine_of_offers hoffers

/-- **If the output cannot be flushed, nothing is read.** -/
theorem readLine_of_refusal {reason : String} (hflush : c.flush.1 = .error reason) :
    c.readLine = (.error reason, { c with flushes := c.flushes + 1 }) := by
  have hflushed : c.flush = (.error reason, { c with flushes := c.flushes + 1 }) :=
    Prod.ext hflush c.snd_flush
  rw [readLine, hflushed]

end Console
end Opstack
