import Typeahead.Host
import Typeahead.Number.Decimal
import Typeahead.Template.Spec

/-!
# Laying out values

A whole number is laid out in some base, as a character, or as a floating-point number; a text is
cut and aligned. A number's text has four parts in a row: sign, mark of the base, digits, and a tail
that is not grouped. The fill stands before, behind or around them, or between mark and digits. What
is laid out is given as blocks, since widths and precisions may be huge.
-/

namespace Typeahead.Template

open Number

inductive LayoutFault
  | unknownPresentation (c : CodePoint) (typeName : Text)
  | precisionRefused
  | plainZeroRefused (subject : Text)
  | signRefused
  | spaceRefused
  | alternateRefused
  | afterSignRefused
  | characterSignRefused
  | characterAlternateRefused
  | characterOutOfRange
  | wordTooLarge
  | floatTooLarge
  | precisionTooBig
  | numberTooLong
  /-- The width is beyond the size of texts. -/
  | tooWide
deriving DecidableEq, Repr

/-! ## Grouping -/

/-- Puts digits, which come from the last to the first, before those that are `done`, `count` of them
since the last separator. -/
def groupOnto (size : Nat) (separator : CodePoint) : Nat → Text → Text → Text
  | _, done, [] => done
  | count, done, c :: t =>
    if count = size then groupOnto size separator 1 (c :: separator :: done) t
    else groupOnto size separator (count + 1) (c :: done) t

def group (size : Nat) (separator : CodePoint) (digits : Text) : Text :=
  groupOnto size separator 0 [] digits.reverse

/-- The least number of digits that take `width` places or more with their separators. -/
def digitsFilling (size width : Nat) : Nat := width - (width - 1) / (size + 1)

/-- `zeros` zeros and then the digits, grouped. Groups that are all zeros are one block, but for the
first of them, which may be short. -/
def groupAfterZeros (size : Nat) (separator : CodePoint) (zeros : Nat) (digits : Text) : Blocks :=
  let first := (zeros + digits.length - 1) % size + 1
  if zeros < first then [.once (group size separator (Text.padLeft (zeros + digits.length) '0' digits))]
  else
    let groups := (zeros - first) / size
    let rest := zeros - first - groups * size
    [.fill first '0', ⟨groups, separator :: List.replicate size '0'⟩,
      .once (separator :: group size separator (Text.padLeft (rest + digits.length) '0' digits))]

def fillDigits (grouping : Option (Nat × CodePoint)) (width : Nat) (digits : Text) : Blocks :=
  if digits = [] then []
  else
    match grouping with
    | none => [.fill (width - digits.length) '0', .once digits]
    | some (size, separator) =>
      groupAfterZeros size separator (digitsFilling size width - digits.length) digits

/-! ## Numbers -/

structure Parts where
  negative : Bool
  mark : Text
  digits : Text
  tail : Blocks

def signText (sign : Option Sign) (negative : Bool) : Text :=
  if negative then "-"
  else
    match sign with
    | some .always => "+"
    | some .space => " "
    | _ => []

def place (align : Align) (fill : CodePoint) (width : Nat) (head : Text) (body : Blocks) : Blocks :=
  let missing := width - (head.length + body.length)
  let (before, between, after) :=
    match align with
    | .left => (0, 0, missing)
    | .right => (missing, 0, 0)
    | .afterSign => (0, missing, 0)
    | .center => (missing / 2, 0, missing - missing / 2)
  .fill before fill :: .once head :: .fill between fill :: (body ++ [.fill after fill])

theorem length_place (align : Align) (fill : CodePoint) (width : Nat) (head : Text) (body : Blocks) :
    (place align fill width head body).length = max width (head.length + body.length) := by
  cases align <;> simp [place, Block.fill, Block.once] <;> omega

section
variable [Host]

def Spec.checkedWidth (spec : Spec) : Except LayoutFault Nat :=
  let width := spec.width.getD 0
  if width < Host.textSize then .ok width else .error .tooWide

def Parts.layout (spec : Spec) (grouping : Option (Nat × CodePoint)) (parts : Parts) :
    Except LayoutFault Blocks := do
  let width ← spec.checkedWidth
  let head := signText spec.sign parts.negative ++ parts.mark
  let room :=
    if spec.fill = '0' ∧ spec.align = .afterSign then width - head.length - parts.tail.length else 0
  let body := fillDigits grouping room parts.digits ++ parts.tail
  return place spec.align spec.fill width head body

end

/-- Groups of three digits, or of four in a base that is a power of two. -/
def Spec.groups (spec : Spec) : Option (Nat × CodePoint) :=
  spec.grouping.map fun g => (if spec.presentation ∈ ("boxX" : Text) then 4 else 3, g.char)

/-! ## Whole numbers -/

def baseOf (presentation : CodePoint) : Nat × Text × Bool :=
  if presentation = 'b' then (2, "0b", false)
  else if presentation = 'o' then (8, "0o", false)
  else if presentation = 'x' then (16, "0x", false)
  else if presentation = 'X' then (16, "0X", true)
  else (10, [], false)

def wholeParts (spec : Spec) (n : Int) : Except LayoutFault Parts :=
  let (base, mark, upper) := baseOf spec.presentation
  let digits := Text.digits base n.natAbs
  if base = 10 ∧ !Text.isWritable n then .error .numberTooLong
  else
    .ok
      { negative := n < 0
        mark := if spec.alternate then mark else []
        digits := if upper then digits.map CodePoint.toUpper else digits
        tail := [] }

def characterParts (spec : Spec) (n : Int) : Except LayoutFault Parts :=
  if spec.sign.isSome then .error .characterSignRefused
  else if spec.alternate then .error .characterAlternateRefused
  else if n < -(wordLimit : Int) ∨ (wordLimit : Int) ≤ n then .error .wordTooLarge
  else if n < 0 ∨ 0x10ffff < n then .error .characterOutOfRange
  else .ok ⟨false, [], [], [.once [.ofNat n.toNat]]⟩

/-! ## Floating-point numbers -/

def precisionLimit : Nat := 0x80000000

def general (mark : CodePoint) (kept : Bool) (precision num den : Nat) : Numeral :=
  let count := max precision 1
  let d := Digits.significant count num den
  if d.place < -4 ∨ count ≤ d.place then d.scientific mark (if kept then count - 1 else 0)
  else d.positional (if kept then (count - 1 - d.place).toNat else 0)

/-- One digit and `precision` more. Their number has the limit of precisions too: where it reaches it,
there is only the one digit. -/
def exponential (mark : CodePoint) (precision num den : Nat) : Numeral :=
  let more := if precision + 1 < precisionLimit then precision else 0
  (Digits.significant (more + 1) num den).scientific mark more

def magnitudeParts (spec : Spec) (precision : Nat) : Binary64 → Text × Blocks
  | .finite _ m e =>
    let (num, den) := Binary64.ratio m e
    let mark : CodePoint := if spec.presentation ∈ ("EG" : Text) then 'E' else 'e'
    let numeral :=
      if spec.presentation ∈ ("eE" : Text) then exponential mark precision num den
      else if spec.presentation ∈ ("gG" : Text) then general mark spec.alternate precision num den
      else (Digits.rounded precision num den).positional precision
    (numeral.whole, numeral.tail spec.alternate)
  | .infinite _ => ([], [.once "inf"])
  | .nan => ([], [.once "nan"])

def floatParts (spec : Spec) (n : Int) : Except LayoutFault Parts :=
  match Binary64.ofInt n with
  | .finite s m e =>
    let precision := spec.precision.getD 6
    if precisionLimit ≤ precision then .error .precisionTooBig
    else
      let x := Binary64.finite s m e
      let percent := spec.presentation = '%'
      let (digits, tail) := magnitudeParts spec precision (if percent then x.scaleBy 100 else x)
      .ok ⟨n < 0, [], digits, if percent then tail ++ [.once "%"] else tail⟩
  | _ => .error .floatTooLarge

/-! ## Values -/

def wholeSubject : Subject := ⟨"int", .right, 'd'⟩

def textSubject : Subject := ⟨"str", .left, 's'⟩

section
variable [Host]

def layoutWhole (spec : Spec) (n : Int) : Except LayoutFault Blocks :=
  if spec.presentation ∈ ("bcdoxXn" : Text) then
    if spec.precision.isSome then .error .precisionRefused
    else if spec.plainZero then .error (.plainZeroRefused "integer")
    else if spec.presentation = 'c' then characterParts spec n >>= (·.layout spec spec.groups)
    else wholeParts spec n >>= (·.layout spec spec.groups)
  else if spec.presentation ∈ ("eEfFgG%" : Text) then
    floatParts spec n >>= (·.layout spec spec.groups)
  else .error (.unknownPresentation spec.presentation wholeSubject.typeName)

def layoutText (spec : Spec) (t : Text) : Except LayoutFault Blocks :=
  if spec.presentation ≠ 's' then
    .error (.unknownPresentation spec.presentation textSubject.typeName)
  else if spec.sign = some .space then .error .spaceRefused
  else if spec.sign.isSome then .error .signRefused
  else if spec.plainZero then .error (.plainZeroRefused "string")
  else if spec.alternate then .error .alternateRefused
  else if spec.align = .afterSign then .error .afterSignRefused
  else
    let cut :=
      match spec.precision with
      | some p => t.take p
      | none => t
    spec.checkedWidth.map fun width => place spec.align spec.fill width [] [.once cut]

end

/-! ## Messages and classes -/

def LayoutFault.message : LayoutFault → Text
  | unknownPresentation c typeName =>
    "Unknown format code '" ++ presentationText c ++ "' for object of type '" ++ typeName ++ "'"
  | precisionRefused => "Precision not allowed in integer format specifier"
  | plainZeroRefused subject =>
    "Negative zero coercion (z) not allowed in " ++ subject ++ " format specifier"
  | signRefused => "Sign not allowed in string format specifier"
  | spaceRefused => "Space not allowed in string format specifier"
  | alternateRefused => "Alternate form (#) not allowed in string format specifier"
  | afterSignRefused => "'=' alignment not allowed in string format specifier"
  | characterSignRefused => "Sign not allowed with integer format specifier 'c'"
  | characterAlternateRefused => "Alternate form (#) not allowed with integer format specifier 'c'"
  | characterOutOfRange => "%c arg not in range(0x110000)"
  | wordTooLarge => "Python int too large to convert to C long"
  | floatTooLarge => "int too large to convert to float"
  | precisionTooBig => "precision too big"
  | numberTooLong => Text.tooLongMessage
  | tooWide => []

def LayoutFault.errorClass : LayoutFault → ErrorClass
  | characterOutOfRange | wordTooLarge | floatTooLarge => .overflow
  | tooWide => .memory
  | _ => .value

end Typeahead.Template
