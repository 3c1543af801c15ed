import Typeahead.Text.Printable

/-!
# Quoted texts

A quoted text stands between two quotes of one kind. Inside, that quote and the backslash are
written after a backslash, three controls have letters of their own, and every other character
that is not printable is written by its code point, in the shortest of three widths.
-/

namespace Typeahead.Text

/-- Single quotes, unless the text holds one and no double quote. -/
def quoteFor (t : Text) : CodePoint :=
  if .scalar '\x27' ∈ t ∧ .scalar '"' ∉ t then '"' else '\x27'

def escapeCodePoint (n : Nat) : Text :=
  if n < 0x100 then '\\' :: 'x' :: hex 2 n
  else if n < 0x10000 then '\\' :: 'u' :: hex 4 n
  else '\\' :: 'U' :: hex 8 n

def escape (quote c : CodePoint) : Text :=
  if c = quote ∨ c = '\\' then ['\\', c]
  else if isPrintable c then [c]
  else if c = '\n' then ['\\', 'n']
  else if c = '\r' then ['\\', 'r']
  else if c = '\t' then ['\\', 't']
  else escapeCodePoint c.toNat

def quoted (t : Text) : Text :=
  quoteFor t :: t.flatMap (escape (quoteFor t)) ++ [quoteFor t]

theorem quoteFor_eq (t : Text) : quoteFor t = '\x27' ∨ quoteFor t = '"' := by
  unfold quoteFor; split <;> simp

end Typeahead.Text
