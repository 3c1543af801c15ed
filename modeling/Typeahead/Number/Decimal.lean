import Typeahead.Number.Binary64
import Typeahead.Text.Blocks

/-!
# Decimal notations

A number is written from its significant digits and the place of the first of them: positionally,
with an exponent, or in whichever of the two is shorter. The digits are those of an exact quotient,
rounded to a given count, or the fewest that read back as the same floating-point number. Zeros that
follow them are not among the digits: how many are shown is said where the number is written.
-/

namespace Typeahead.Number

/-- Significant digits; the first has the place `place`, units being place zero. -/
structure Digits where
  digits : Text
  place : Int
deriving DecidableEq, Repr

namespace Digits

def trim (d : Digits) : Digits :=
  match (d.digits.reverse.dropWhile fun (c : CodePoint) => c = '0').reverse with
  | [] => { d with digits := "0" }
  | kept => { d with digits := kept }

def split (d : Digits) : Text × Text :=
  match d.place with
  | .ofNat n =>
    (Text.padRight (n + 1) '0' (d.digits.take (n + 1)), d.digits.drop (n + 1))
  | .negSucc n => ("0", Text.padLeft (n + d.digits.length) '0' d.digits)

/-! ## Digits of a quotient -/

/-- The first `count` significant digits of `num / den`, rounded. A whole number may have fewer. -/
def significant (count num den : Nat) : Digits :=
  let place := magnitude num den
  if num = 0 then ⟨"0", 0⟩
  else if num % den = 0 ∧ place < count then trim ⟨Text.ofNat (num / den), place⟩
  else
    let (n, d) := unscale 10 num den (place - count + 1)
    let k := roundDiv n d
    trim ⟨Text.ofNat k, if k = Nat.pow 10 count then place + 1 else place⟩

def rounded (places num den : Nat) : Digits :=
  if num % den = 0 then
    let whole := Text.ofNat (num / den)
    ⟨whole, (whole.length : Int) - 1⟩
  else
    let scale := Nat.pow 10 places
    let k := roundDiv (num * scale) den
    let whole := Text.ofNat (k / scale)
    let fraction := if places = 0 then [] else Text.padLeft places '0' (Text.ofNat (k % scale))
    ⟨whole ++ fraction, (whole.length : Int) - 1⟩

/-! ## The fewest digits that read back -/

/-- The numbers that are read as `mantissa * 2 ^ exponent`, in units of `2 ^ (exponent - 2)`. Below a
power of two the neighbour is only half as far. -/
def bounds (mantissa : Nat) (exponent : Int) : Nat × Nat :=
  let below := if mantissa = Binary64.leastNormal ∧ Binary64.minExponent < exponent then 1 else 2
  (4 * mantissa - below, 4 * mantissa + 2)

/-- Whether `digits * 10 ^ k` is read as `mantissa * 2 ^ exponent`. The ends of the range count if the
mantissa is even. -/
def readsBack (mantissa : Nat) (exponent : Int) (digits : Nat) (k : Int) : Bool :=
  let (low, high) := bounds mantissa exponent
  let (den, num) := unscale 10 1 digits k
  let (num, den) := unscale 2 num den (exponent - 2)
  let even := mantissa % 2 = 0
  (low * den < num || (even && low * den = num)) && (num < high * den || (even && num = high * den))

/-- The digits that read back on the grid of `10 ^ k`: of the two neighbours of the number the nearer
one that does. -/
def onGrid? (mantissa : Nat) (exponent k : Int) : Option Nat :=
  let (num, den) := Binary64.ratio mantissa exponent
  let (n, d) := unscale 10 num den k
  let near := roundDiv n d
  let far := if near = n / d then near + 1 else n / d
  if readsBack mantissa exponent near k then some near
  else if readsBack mantissa exponent far k then some far
  else none

def shortest (mantissa : Nat) (exponent : Int) : Digits :=
  let (num, den) := Binary64.ratio mantissa exponent
  let place := magnitude num den
  let found := (List.range 17).findSome? fun (fewer : Nat) =>
    (onGrid? mantissa exponent (place - fewer)).map fun n =>
      trim ⟨Text.ofNat n, place - fewer + digitCount n - 1⟩
  found.getD (significant 17 num den)

end Digits

/-! ## Numerals -/

structure Numeral where
  whole : Text
  fraction : Text
  zeros : Nat
  exponent : Text
deriving DecidableEq, Repr

def Digits.positional (places : Nat) (d : Digits) : Numeral :=
  let (whole, fraction) := d.split
  ⟨whole, fraction, places - fraction.length, []⟩

def Digits.scientific (mark : CodePoint) (places : Nat) (d : Digits) : Numeral :=
  let fraction := d.digits.drop 1
  let sign := if d.place < 0 then '-' else '+'
  ⟨d.digits.take 1, fraction, places - fraction.length,
    mark :: sign :: Text.padLeft 2 '0' (Text.ofNat d.place.natAbs)⟩

/-- What follows the digits before the point. A point without digits after it is left out, unless it is
`kept`. -/
def Numeral.tail (kept : Bool) (n : Numeral) : Blocks :=
  if n.fraction = [] ∧ n.zeros = 0 ∧ !kept then [.once n.exponent]
  else [.once ("." ++ n.fraction), .fill n.zeros '0', .once n.exponent]

def Numeral.text (n : Numeral) : Text := n.whole ++ (n.tail false).toText

/-! ## The text of a number -/

def Binary64.text : Binary64 → Text
  | nan => "nan"
  | infinite negative => if negative then "-inf" else "inf"
  | finite negative m e =>
    let sign := if negative then "-" else ""
    let d := if m = 0 then ⟨"0", 0⟩ else Digits.shortest m e
    let numeral := if -4 ≤ d.place ∧ d.place < 16 then d.positional 1 else d.scientific 'e' 0
    sign ++ numeral.text

end Typeahead.Number
