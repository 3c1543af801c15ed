import Typeahead.Number.Rounding

/-!
# Binary floating point

Numbers with 53 binary digits and the exponents of the 64-bit format. `ofRatio` rounds a quotient to
the nearest of them, a tie to the even one; all else is built on it.
-/

namespace Typeahead.Number

/-- A finite number is its mantissa times two to its exponent. The mantissa has 53 binary digits,
or fewer at the least exponent. -/
inductive Binary64
  | nan
  | infinite (negative : Bool)
  | finite (negative : Bool) (mantissa : Nat) (exponent : Int)
deriving DecidableEq, Repr

namespace Binary64

def mantissaLimit : Nat := 0x20000000000000

def leastNormal : Nat := 0x10000000000000

def minExponent : Int := -1074

def maxExponent : Int := 971

def zero (negative : Bool) : Binary64 := finite negative 0 minExponent

/-- The exponent at which `num / den` has 53 binary digits, or the least one. -/
def exponentOf (num den : Nat) : Int :=
  let low : Int := max ((num.log2 : Int) - den.log2 - 53) minExponent
  let (n, d) := unscale 2 num den low
  if mantissaLimit ≤ n / d then low + 1 else low

def ofRatio (negative : Bool) (num den : Nat) : Binary64 :=
  if num = 0 then zero negative
  else
    let e := exponentOf num den
    let (n, d) := unscale 2 num den e
    let m := roundDiv n d
    let (m, e) := if m = mantissaLimit then (leastNormal, e + 1) else (m, e)
    if maxExponent < e then infinite negative else finite negative m e

def ofInt (n : Int) : Binary64 := ofRatio (n < 0) n.natAbs 1

/-- The number `digits * 10 ^ k`. Far outside the range of the format the power is not computed. -/
def ofDecimal (negative : Bool) (digits : Nat) (k : Int) : Binary64 :=
  if digits = 0 then zero negative
  else
    let top := k + digitCount digits
    if 400 < top then infinite negative
    else if top < -400 then zero negative
    else
      let (den, num) := unscale 10 1 digits k
      ofRatio negative num den

def ratio (mantissa : Nat) (exponent : Int) : Nat × Nat :=
  let (den, num) := unscale 2 1 mantissa exponent
  (num, den)

def scaleBy (k : Nat) : Binary64 → Binary64
  | finite negative m e =>
    let (num, den) := ratio m e
    ofRatio negative (k * num) den
  | x => x

def isZero : Binary64 → Bool
  | finite _ m _ => m = 0
  | _ => false

def add : Binary64 → Binary64 → Binary64
  | finite s m e, finite s' m' e' =>
    let low := min e e'
    let signed (s : Bool) (m : Nat) (e : Int) : Int :=
      let n := m * Nat.pow 2 (e - low).toNat
      if s then -n else n
    let sum := signed s m e + signed s' m' e'
    if sum = 0 then zero (s && s' && m = 0 && m' = 0)
    else
      let (num, den) := ratio sum.natAbs low
      ofRatio (sum < 0) num den
  | nan, _ | _, nan => nan
  | infinite s, infinite s' => if s = s' then infinite s else nan
  | infinite s, _ | _, infinite s => infinite s

/-- Equality of values: the two zeros are equal, and what is no number is equal to itself. -/
def same (x y : Binary64) : Bool := x = y || (x.isZero && y.isZero)

def isInt (n : Int) : Binary64 → Bool
  | finite negative m e =>
    let (num, den) := ratio m e
    num = n.natAbs * den && (m = 0 || decide (n < 0) = negative)
  | _ => false

end Binary64

end Typeahead.Number
