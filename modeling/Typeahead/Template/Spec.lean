import Typeahead.Number.Word
import Typeahead.Text.DecimalDigit

/-!
# Format specifications

A specification says how a value is laid out: fill and alignment, sign, width, grouping of digits,
precision and a presentation letter, in this order and each optional. Which of them a value
allows is for its layout to say; only what no value allows is refused here.
-/

namespace Typeahead.Template

inductive Align
  | left
  | right
  | center
  /-- The fill stands between the sign and the digits. -/
  | afterSign
deriving DecidableEq, Repr

inductive Sign
  | always
  | onlyMinus
  | space
deriving DecidableEq, Repr

inductive Grouping
  | comma
  | underscore
deriving DecidableEq, Repr

def Grouping.char : Grouping → CodePoint
  | comma => ','
  | underscore => '_'

structure Spec where
  fill : CodePoint
  align : Align
  sign : Option Sign
  /-- Zero is to have no minus sign. -/
  plainZero : Bool
  alternate : Bool
  width : Option Nat
  grouping : Option Grouping
  precision : Option Nat
  presentation : CodePoint
deriving DecidableEq, Repr

structure Subject where
  typeName : Text
  align : Align
  presentation : CodePoint

inductive SpecFault
  | tooManyDigits
  | twoGroupings
  | missingPrecision
  | leftOver (spec : Text) (typeName : Text)
  | groupingRefused (grouping : Grouping) (presentation : CodePoint)
deriving DecidableEq, Repr

namespace Spec

/-! ## The items of a specification, and what follows each -/

def align? (c : CodePoint) : Option Align :=
  if c = '<' then some .left
  else if c = '>' then some .right
  else if c = '^' then some .center
  else if c = '=' then some .afterSign
  else none

def sign? (c : CodePoint) : Option Sign :=
  if c = '+' then some .always
  else if c = '-' then some .onlyMinus
  else if c = ' ' then some .space
  else none

/-- A fill, if one is given, and an alignment. A fill stands before an alignment. -/
def readAlign : Text → Option CodePoint × Option Align × Text
  | [] => (none, none, [])
  | [c] =>
    match align? c with
    | some a => (none, some a, [])
    | none => (none, none, [c])
  | c :: d :: t =>
    match align? d with
    | some a => (some c, some a, t)
    | none =>
      match align? c with
      | some a => (none, some a, d :: t)
      | none => (none, none, c :: d :: t)

def readSign : Text → Option Sign × Text
  | [] => (none, [])
  | c :: t =>
    match sign? c with
    | some s => (some s, t)
    | none => (none, c :: t)

def readMark (mark : CodePoint) : Text → Bool × Text
  | [] => (false, [])
  | c :: t => if c = mark then (true, t) else (false, c :: t)

def readDigits (n : Nat) : Text → Except SpecFault (Nat × Text)
  | [] => .ok (n, [])
  | c :: t =>
    match Text.digitValue? c with
    | none => .ok (n, c :: t)
    | some d =>
      if n * 10 + d < Number.wordLimit then readDigits (n * 10 + d) t else .error .tooManyDigits

def readNumber (t : Text) : Except SpecFault (Option Nat × Text) :=
  match t with
  | [] => .ok (none, [])
  | c :: _ =>
    match Text.digitValue? c with
    | none => .ok (none, t)
    | some _ => (readDigits 0 t).map fun (n, rest) => (some n, rest)

def readGrouping (t : Text) : Except SpecFault (Option Grouping × Text) :=
  let (comma, t) := readMark ',' t
  let (underscore, t) := readMark '_' t
  if comma && underscore then .error .twoGroupings
  else if comma then .ok (some .comma, t)
  else if underscore then
    if t.head? = some ',' then .error .twoGroupings else .ok (some .underscore, t)
  else .ok (none, t)

def readPrecision (t : Text) : Except SpecFault (Option Nat × Text) :=
  match readMark '.' t with
  | (false, t) => .ok (none, t)
  | (true, t) => do
    match ← readNumber t with
    | (none, _) => throw .missingPrecision
    | (some n, t) => return (some n, t)

/-- Whether digits may be grouped in a presentation: with commas in decimal ones only. NUL counts as
no presentation at all. -/
def groupingAllowed (g : Grouping) (presentation : CodePoint) : Bool :=
  presentation ∈ ("defgEG%F\x00" : Text)
    || (g = .underscore && presentation ∈ ("boxX" : Text))

/-- Reads a specification for a subject. A zero before the width stands for zeros after the sign,
unless a fill is given. -/
def read (subject : Subject) (spec : Text) : Except SpecFault Spec := do
  let (fill, align, t) := readAlign spec
  let (sign, t) := readSign t
  let (plainZero, t) := readMark 'z' t
  let (alternate, t) := readMark '#' t
  let (zeros, t) := if fill.isNone then readMark '0' t else (false, t)
  let (width, t) ← readNumber t
  let (grouping, t) ← readGrouping t
  let (precision, t) ← readPrecision t
  let presentation ←
    match t with
    | [] => pure subject.presentation
    | [c] => pure c
    | _ => throw (.leftOver spec subject.typeName)
  if let some g := grouping then
    if !groupingAllowed g presentation then throw (.groupingRefused g presentation)
  let usual := if zeros ∧ subject.align = .right then .afterSign else subject.align
  return {
    fill := fill.getD (if zeros then '0' else ' ')
    align := align.getD usual
    sign, plainZero, alternate, width, grouping, precision, presentation }

end Spec

/-! ## Messages -/

def presentationText (c : CodePoint) : Text :=
  if 0x20 < c.toNat ∧ c.toNat < 0x80 then [c] else '\\' :: 'x' :: Text.hex 1 c.toNat

def SpecFault.message : SpecFault → Text
  | tooManyDigits => "Too many decimal digits in format string"
  | twoGroupings => "Cannot specify both ',' and '_'."
  | missingPrecision => "Format specifier missing precision"
  | leftOver spec typeName =>
    "Invalid format specifier '" ++ spec ++ "' for object of type '" ++ typeName ++ "'"
  | groupingRefused grouping presentation =>
    "Cannot specify '" ++ [grouping.char] ++ "' with '" ++ presentationText presentation ++ "'."

end Typeahead.Template
