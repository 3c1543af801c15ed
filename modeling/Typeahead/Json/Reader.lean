import Typeahead.Host
import Typeahead.Json.Basic
import Typeahead.Text.Line

/-!
# Reading JSON

The reader keeps the position of what is still to read, and a fault has the position at which a text
can no longer be JSON. Beyond the standard, `NaN`, `Infinity` and `-Infinity` are numbers. Of several
members with one name the last counts. Arrays and objects may be nested to some depth only.
-/

namespace Typeahead.Json

open Number

inductive Expected
  | value
  | name
  | colon
  | comma
deriving DecidableEq, Repr

inductive Fault
  | byteOrderMark
  | expected (what : Expected) (position : Nat)
  | extraData (position : Nat)
  | unterminatedString (position : Nat)
  | controlCharacter (position : Nat)
  | unknownEscape (position : Nat)
  | badCodeUnit (position : Nat)
  | tooManyDigits (count : Nat)
  | arrayTooDeep
  | objectTooDeep
deriving DecidableEq, Repr

structure Reading (α : Type) where
  value : α
  position : Nat
  rest : Text

def mapRead {α β : Type} (f : α → β) : Except Fault (Reading α) → Except Fault (Reading β)
  | .ok r => .ok ⟨f r.value, r.position, r.rest⟩
  | .error e => .error e

def isBlank (c : CodePoint) : Bool := c = ' ' || c = '\t' || c = '\n' || c = '\r'

def skipBlank (position : Nat) (t : Text) : Reading Unit :=
  ⟨(), position + (t.takeWhile isBlank).length, t.dropWhile isBlank⟩

def after? : Text → Text → Option Text
  | [], t => some t
  | _ :: _, [] => none
  | c :: word, d :: t => if c = d then after? word t else none

/-! ## Strings -/

def escaped? (c : CodePoint) : Option CodePoint :=
  if c = '"' ∨ c = '\\' ∨ c = '/' then some c
  else if c = 'b' then some '\x08'
  else if c = 'f' then some '\x0c'
  else if c = 'n' then some '\n'
  else if c = 'r' then some '\r'
  else if c = 't' then some '\t'
  else none

def hexValue? (c : CodePoint) : Option Nat :=
  let n := c.toNat
  if c.isDigit then some (n - 0x30)
  else if 0x61 ≤ n ∧ n ≤ 0x66 then some (n - 0x57)
  else if 0x41 ≤ n ∧ n ≤ 0x46 then some (n - 0x37)
  else none

inductive Inside
  | plain
  | escape
  /-- Some hexadecimal digits of a code unit are read; `mark` is the position of their `u`. -/
  | unit (mark seen code : Nat)

/-- A high surrogate that waits for its low one. Without that it stands for itself. -/
abbrev Waiting := Option Nat

def Waiting.flush (high : Waiting) : Text := high.toList.map CodePoint.ofNat

/-- The code points that are complete after one more code unit, and what waits then. -/
def Waiting.next (high : Waiting) (unit : Nat) : Text × Waiting :=
  match high with
  | some h =>
    if 0xdc00 ≤ unit ∧ unit < 0xe000 then
      ([.ofNat (0x10000 + (h - 0xd800) * 0x400 + (unit - 0xdc00))], none)
    else if 0xd800 ≤ unit ∧ unit < 0xdc00 then ([.ofNat h], some unit)
    else ([.ofNat h, .ofNat unit], none)
  | none => if 0xd800 ≤ unit ∧ unit < 0xdc00 then ([], some unit) else ([.ofNat unit], none)

/-- Reads the rest of a string that was opened at `start`. -/
def readString (start : Nat) (high : Waiting) : Inside → Nat → Text → Except Fault (Reading Text)
  | .unit mark _ _, _, [] => .error (.badCodeUnit mark)
  | _, _, [] => .error (.unterminatedString start)
  | .plain, position, c :: t =>
    if c = '"' then .ok ⟨high.flush, position + 1, t⟩
    else if c = '\\' then readString start high .escape (position + 1) t
    else if c.toNat < 0x20 then .error (.controlCharacter position)
    else mapRead (high.flush ++ c :: ·) (readString start none .plain (position + 1) t)
  | .escape, position, c :: t =>
    if c = 'u' then readString start high (.unit position 0 0) (position + 1) t
    else
      match escaped? c with
      | none => .error (.unknownEscape (position - 1))
      | some d => mapRead (high.flush ++ d :: ·) (readString start none .plain (position + 1) t)
  | .unit mark seen code, position, c :: t =>
    match hexValue? c with
    | none => .error (.badCodeUnit mark)
    | some digit =>
      let code := code * 0x10 + digit
      if seen < 3 then readString start high (.unit mark (seen + 1) code) (position + 1) t
      -- a code unit at the very end of the text is not looked at
      else if t = [] then .error (.badCodeUnit mark)
      else
        let (done, waiting) := high.next code
        mapRead (done ++ ·) (readString start waiting .plain (position + 1) t)

/-! ## Numbers -/

def naturalOf (digits : Text) : Nat := digits.foldl (fun n c => n * 10 + (c.toNat - 0x30)) 0

def wholeDigits : Text → Text
  | [] => []
  | c :: t => if c = '0' then [c] else (c :: t).takeWhile CodePoint.isDigit

def fractionDigits : Text → Text
  | '.' :: t => t.takeWhile CodePoint.isDigit
  | _ => []

def exponentParts : Text → Text × Text
  | c :: t =>
    if c = 'e' ∨ c = 'E' then
      match t with
      | '-' :: u => ("-", u.takeWhile CodePoint.isDigit)
      | '+' :: u => ("+", u.takeWhile CodePoint.isDigit)
      | _ => ([], t.takeWhile CodePoint.isDigit)
    else ([], [])
  | [] => ([], [])

def readNumber (position : Nat) (t : Text) : Except Fault (Reading Json) :=
  let negative := t.head? = some '-'
  let signLength := if negative then 1 else 0
  let unsigned := t.drop signLength
  let whole := wholeDigits unsigned
  let rest := unsigned.drop whole.length
  let fraction := fractionDigits rest
  let fractionLength := if fraction = [] then 0 else fraction.length + 1
  let rest := rest.drop fractionLength
  let (sign, exponent) := exponentParts rest
  let exponentLength := if exponent = [] then 0 else sign.length + exponent.length + 1
  let rest := rest.drop exponentLength
  let position' := position + signLength + whole.length + fractionLength + exponentLength
  if whole = [] then .error (.expected .value position)
  else if fraction = [] ∧ exponent = [] then
    if Text.digitLimit < whole.length then .error (.tooManyDigits whole.length)
    else
      let n : Int := naturalOf whole
      .ok ⟨int (if negative then -n else n), position', rest⟩
  else
    let e : Int := naturalOf exponent
    let e := if sign = "-" then -e else e
    .ok ⟨float (.ofDecimal negative (naturalOf (whole ++ fraction)) (e - fraction.length)),
      position', rest⟩

/-! ## Values -/

def words : List (Text × Json) :=
  [("null", null), ("true", bool true), ("false", bool false),
    ("NaN", float .nan), ("Infinity", float (.infinite false)),
    ("-Infinity", float (.infinite true))]

def readWord? (position : Nat) (t : Text) : Option (Reading Json) :=
  words.findSome? fun word => (after? word.1 t).map (⟨word.2, position + word.1.length, ·⟩)

def readAtom (position : Nat) (t : Text) : Except Fault (Reading Json) :=
  match readWord? position t with
  | some r => .ok r
  | none => readNumber position t

mutual

/-- Reads a value. The first argument bounds the nesting and the number of parts; twice the length of
the text is always enough. Arrays and objects may be nested `depth` deep. -/
def readValue : Nat → Nat → Nat → Text → Except Fault (Reading Json)
  | 0, _, position, _ => .error (.expected .value position)
  | _ + 1, _, position, '"' :: t =>
    mapRead string (readString position none .plain (position + 1) t)
  | bound + 1, depth, position, '[' :: t =>
    if depth = 0 then .error .arrayTooDeep
    else
      let s := skipBlank (position + 1) t
      match s.rest with
      | ']' :: u => .ok ⟨array [], s.position + 1, u⟩
      | u => mapRead array (readItems bound (depth - 1) s.position u)
  | bound + 1, depth, position, '{' :: t =>
    if depth = 0 then .error .objectTooDeep
    else
      let s := skipBlank (position + 1) t
      match s.rest with
      | '}' :: u => .ok ⟨object [], s.position + 1, u⟩
      | u => mapRead object (readMembers bound (depth - 1) [] s.position u)
  | _ + 1, _, position, t => readAtom position t

def readItems : Nat → Nat → Nat → Text → Except Fault (Reading (List Json))
  | 0, _, position, _ => .error (.expected .value position)
  | bound + 1, depth, position, t => do
    let item ← readValue bound depth position t
    let s := skipBlank item.position item.rest
    match s.rest with
    | ']' :: u => .ok ⟨[item.value], s.position + 1, u⟩
    | ',' :: u =>
      let s := skipBlank (s.position + 1) u
      mapRead (item.value :: ·) (readItems bound depth s.position s.rest)
    | _ => .error (.expected .comma s.position)

/-- Reads the members of an object from one name on, after those that are known. -/
def readMembers : Nat → Nat → List (Text × Json) → Nat → Text →
    Except Fault (Reading (List (Text × Json)))
  | 0, _, _, position, _ => .error (.expected .name position)
  | bound + 1, depth, known, position, '"' :: t => do
    let key ← readString position none .plain (position + 1) t
    let s := skipBlank key.position key.rest
    match s.rest with
    | ':' :: u =>
      let s := skipBlank (s.position + 1) u
      let value ← readValue bound depth s.position s.rest
      let known := Members.put key.value value.value known
      let s := skipBlank value.position value.rest
      match s.rest with
      | '}' :: u => .ok ⟨known, s.position + 1, u⟩
      | ',' :: u =>
        let s := skipBlank (s.position + 1) u
        readMembers bound depth known s.position s.rest
      | _ => .error (.expected .comma s.position)
    | _ => .error (.expected .colon s.position)
  | _ + 1, _, _, position, _ => .error (.expected .name position)

end

def readWithin (depth : Nat) (t : Text) : Except Fault Json :=
  if t.head? = some '\ufeff' then .error .byteOrderMark
  else do
    let s := skipBlank 0 t
    let value ← readValue (2 * t.length + 2) depth s.position s.rest
    let s := skipBlank value.position value.rest
    if s.rest = [] then .ok value.value else .error (.extraData s.position)

def read [Host] (t : Text) : Except Fault Json := readWithin Host.readDepth t

/-! ## Messages and classes -/

/-- A position as line, column and offset; the last is counted from zero. -/
def place (t : Text) (position : Nat) : Text :=
  let before := t.take position
  ": line " ++ Text.ofNat (Text.lineAfter before) ++ " column "
    ++ Text.ofNat (Text.columnAfter before) ++ " (char " ++ Text.ofNat position ++ ")"

def Expected.message : Expected → Text
  | value => "Expecting value"
  | name => "Expecting property name enclosed in double quotes"
  | colon => "Expecting ':' delimiter"
  | comma => "Expecting ',' delimiter"

def Fault.message (t : Text) : Fault → Text
  | byteOrderMark => "Unexpected UTF-8 BOM (decode using utf-8-sig)" ++ place t 0
  | expected what position => what.message ++ place t position
  | extraData position => "Extra data" ++ place t position
  | unterminatedString position => "Unterminated string starting at" ++ place t position
  | controlCharacter position => "Invalid control character at" ++ place t position
  | unknownEscape position => "Invalid \\escape" ++ place t position
  | badCodeUnit position => "Invalid \\uXXXX escape" ++ place t position
  | tooManyDigits count =>
    "Exceeds the limit (" ++ Text.ofNat Text.digitLimit
      ++ " digits) for integer string conversion: value has " ++ Text.ofNat count
      ++ " digits; use sys.set_int_max_str_digits() to increase the limit"
  | arrayTooDeep =>
    "maximum recursion depth exceeded while decoding a JSON array from a unicode string"
  | objectTooDeep =>
    "maximum recursion depth exceeded while decoding a JSON object from a unicode string"

def Fault.errorClass : Fault → ErrorClass
  | tooManyDigits _ => .value
  | arrayTooDeep | objectTooDeep => .recursion
  | _ => .json

end Typeahead.Json
