import Typeahead.Json.Basic
import Typeahead.Number.Decimal

/-!
# Writing JSON

A value is written over several lines, two spaces deeper at each level, in ASCII. A code point
outside of ASCII is written by its UTF-16 code units. What stands in brackets is put together from its
end, so that it is copied only once for each level that it is in.
-/

namespace Typeahead.Json

open Number

/-! ## Strings -/

def escapeUnit (n : Nat) : Text := '\\' :: 'u' :: Text.hex 4 n

/-- The escapes of a code point's UTF-16 code units; a surrogate is one by itself. -/
def escapeUnits (c : CodePoint) : Text :=
  let n := c.toNat
  if n < 0x10000 then escapeUnit n
  else
    escapeUnit (0xd800 + (n - 0x10000) / 0x400) ++ escapeUnit (0xdc00 + (n - 0x10000) % 0x400)

def writeChar (c : CodePoint) : Text :=
  if c = '"' ∨ c = '\\' then ['\\', c]
  else if c = '\n' then ['\\', 'n']
  else if c = '\r' then ['\\', 'r']
  else if c = '\t' then ['\\', 't']
  else if c = '\x08' then ['\\', 'b']
  else if c = '\x0c' then ['\\', 'f']
  else if 0x20 ≤ c.toNat ∧ c.toNat < 0x7f then [c]
  else escapeUnits c

def writeString (t : Text) : Text := "\"" ++ t.flatMap writeChar ++ "\""

/-! ## Numbers -/

def writeFloat : Binary64 → Text
  | .nan => "NaN"
  | .infinite negative => if negative then "-Infinity" else "Infinity"
  | x => x.text

/-! ## Values -/

def newline (depth : Nat) : Text := '\n' :: List.replicate (2 * depth) ' '

mutual

/-- A value whose first line is already begun, at a depth of nesting. -/
def write (depth : Nat) : Json → Text
  | null => "null"
  | bool true => "true"
  | bool false => "false"
  | int n => Text.ofInt n
  | float x => writeFloat x
  | string t => writeString t
  | array [] => "[]"
  | array (item :: rest) =>
    "[" ++ newline (depth + 1)
      ++ (write (depth + 1) item ++ (writeItems (depth + 1) rest ++ (newline depth ++ "]")))
  | object [] => "\x7b\x7d"
  | object ((key, value) :: rest) =>
    "\x7b" ++ newline (depth + 1) ++ writeString key ++ ": "
      ++ (write (depth + 1) value ++ (writeMembers (depth + 1) rest ++ (newline depth ++ "\x7d")))

def writeItems (depth : Nat) : List Json → Text
  | [] => []
  | item :: rest => "," ++ newline depth ++ (write depth item ++ writeItems depth rest)

def writeMembers (depth : Nat) : List (Text × Json) → Text
  | [] => []
  | (key, value) :: rest =>
    "," ++ newline depth ++ writeString key ++ ": " ++ (write depth value ++ writeMembers depth rest)

end

def text (value : Json) : Text := write 0 value

end Typeahead.Json
