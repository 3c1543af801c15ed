/-!
# Code points

A code point is a number below `0x110000`. Most are characters. The surrogates are not: in pairs they
stand for the characters from `0x10000` on, and a lone one stands for none, but texts may hold it.
-/

namespace Typeahead

inductive CodePoint
  | scalar (c : Char)
  /-- The code point `0xd800 + n`. -/
  | surrogate (n : Fin 0x800)
deriving DecidableEq, Repr

instance : Coe Char CodePoint := ⟨.scalar⟩

namespace CodePoint

def toNat : CodePoint → Nat
  | scalar c => c.toNat
  | surrogate n => 0xd800 + n

/-- The code point with a number; NUL if the number is too large for one. -/
def ofNat (n : Nat) : CodePoint :=
  if h : 0xd800 ≤ n ∧ n < 0xe000 then surrogate ⟨n - 0xd800, by omega⟩ else scalar (Char.ofNat n)

theorem toNat_scalar_apart (c : Char) : ¬(0xd800 ≤ c.toNat ∧ c.toNat < 0xe000) := by
  have : c.toNat < 0xd800 ∨ 0xdfff < c.toNat ∧ c.toNat < 0x110000 := c.valid
  omega

theorem toNat_lt (c : CodePoint) : c.toNat < 0x110000 := by
  cases c with
  | scalar c =>
    have : c.toNat < 0xd800 ∨ 0xdfff < c.toNat ∧ c.toNat < 0x110000 := c.valid
    simp only [toNat]
    omega
  | surrogate n => simp only [toNat]; omega

theorem ofNat_toNat (c : CodePoint) : ofNat c.toNat = c := by
  cases c with
  | scalar c => simp only [toNat, ofNat, toNat_scalar_apart, dite_false, Char.ofNat_toNat]
  | surrogate n =>
    have : 0xd800 ≤ 0xd800 + n.val ∧ 0xd800 + n.val < 0xe000 := by omega
    simp only [toNat, ofNat, this, and_self, dite_true, Nat.add_sub_cancel_left]

theorem toNat_inj {c d : CodePoint} : c.toNat = d.toNat ↔ c = d :=
  ⟨fun h => by rw [← ofNat_toNat c, h, ofNat_toNat], fun h => h ▸ rfl⟩

def isDigit : CodePoint → Bool
  | scalar c => c.isDigit
  | surrogate _ => false

theorem isDigit_eq (c : CodePoint) : c.isDigit = (0x30 ≤ c.toNat && c.toNat ≤ 0x39) := by
  cases c with
  | scalar c =>
    simp only [isDigit, toNat, Char.isDigit, ge_iff_le, UInt32.le_iff_toNat_le]
    rfl
  | surrogate n =>
    have : ¬(0xd800 + n.val ≤ 0x39) := by omega
    simp only [isDigit, toNat, this, decide_false, Bool.and_false]

def toUpper : CodePoint → CodePoint
  | scalar c => scalar c.toUpper
  | surrogate n => surrogate n

end CodePoint

end Typeahead
