/-!
# Rounding quotients

Quotients of natural numbers, rounded to the nearest whole number, on a grid of powers of two or of
ten. A tie goes to the even neighbour.
-/

namespace Typeahead.Number

def roundDiv (num den : Nat) : Nat :=
  let q := num / den
  let r := num % den
  if 2 * r < den ∨ (2 * r = den ∧ q % 2 = 0) then q else q + 1

/-- A quotient with the same value as `num / den / base ^ k`. -/
def unscale (base num den : Nat) (k : Int) : Nat × Nat :=
  match k with
  | .ofNat k => (num, den * Nat.pow base k)
  | .negSucc k => (num * Nat.pow base (k + 1), den)

/-! ## Decimal places of a quotient -/

def digitCount (n : Nat) : Nat := (Nat.toDigits 10 n).length

def tenPowLe (k : Int) (num den : Nat) : Bool :=
  let (n, d) := unscale 10 num den k
  d ≤ n

def magnitude (num den : Nat) : Int :=
  let k : Int := digitCount num - digitCount den
  if tenPowLe k num den then k else k - 1

end Typeahead.Number
