import Typeahead.Text

/-!
# UTF-8

The reader goes through the octets one by one. Between characters it looks for a lead octet, which
says how many octets follow and in what range the first of them lies; the others lie in
`80`..`bf`. It refuses at the first octet that rules the text out, and says how many octets had been
in order since the lead.
-/

namespace Typeahead.Text.Utf8

abbrev Octets := List UInt8

inductive Fault
  | invalidStart (position : Nat) (octet : UInt8)
  /-- `seen` octets from `position` on were in order, and the next one was not. -/
  | invalidContinuation (position : Nat) (octet : UInt8) (seen : Nat)
  /-- The octets ended after `seen` from `position` on. -/
  | unexpectedEnd (position : Nat) (octet : UInt8) (seen : Nat)
deriving DecidableEq, Repr

/-- A character of which the first octets are read. -/
structure Begun where
  position : Nat
  lead : UInt8
  seen : Nat
  /-- How many octets are still to come. -/
  missing : Nat
  low : UInt8
  high : UInt8
  code : Nat

def begin? (position : Nat) (b : UInt8) : Option Begun :=
  let plain (missing : Nat) (mask : Nat) : Begun :=
    ⟨position, b, 1, missing, 0x80, 0xbf, b.toNat % mask⟩
  if b < 0xc2 then none
  else if b < 0xe0 then some (plain 1 0x20)
  else if b = 0xe0 then some { plain 2 0x10 with low := 0xa0 }
  else if b = 0xed then some { plain 2 0x10 with high := 0x9f }
  else if b < 0xf0 then some (plain 2 0x10)
  else if b = 0xf0 then some { plain 3 0x08 with low := 0x90 }
  else if b = 0xf4 then some { plain 3 0x08 with high := 0x8f }
  else if b < 0xf4 then some (plain 3 0x08)
  else none

def Begun.next (p : Begun) (b : UInt8) : Begun :=
  { p with
    seen := p.seen + 1, missing := p.missing - 1, low := 0x80, high := 0xbf,
    code := p.code * 0x40 + b.toNat % 0x40 }

def read (position : Nat) : Option Begun → Octets → Except Fault Text
  | none, [] => .ok []
  | some p, [] => .error (.unexpectedEnd p.position p.lead p.seen)
  | none, b :: bs =>
    if b < 0x80 then (CodePoint.ofNat b.toNat :: ·) <$> read (position + 1) none bs
    else
      match begin? position b with
      | none => .error (.invalidStart position b)
      | some p => read (position + 1) (some p) bs
  | some p, b :: bs =>
    if p.low ≤ b ∧ b ≤ p.high then
      if p.missing = 1 then (CodePoint.ofNat (p.next b).code :: ·) <$> read (position + 1) none bs
      else read (position + 1) (some (p.next b)) bs
    else .error (.invalidContinuation p.position p.lead p.seen)

def decode (octets : Octets) : Except Fault Text := read 0 none octets

/-- The octets of one code point. A surrogate has its three, too, but the reader refuses them. -/
def encodeCodePoint (c : CodePoint) : Octets :=
  let n := c.toNat
  let trail (bits : Nat) : UInt8 := .ofNat (0x80 + bits % 0x40)
  if n < 0x80 then [.ofNat n]
  else if n < 0x800 then [.ofNat (0xc0 + n / 0x40), trail n]
  else if n < 0x10000 then [.ofNat (0xe0 + n / 0x1000), trail (n / 0x40), trail n]
  else [.ofNat (0xf0 + n / 0x40000), trail (n / 0x1000), trail (n / 0x40), trail n]

def encode (t : Text) : Octets := t.flatMap encodeCodePoint

/-! ## Messages -/

def Fault.describe (position count : Nat) (octet : UInt8) (reason : String) : Text :=
  let place :=
    if count = 1 then
      "byte 0x" ++ hex 2 octet.toNat ++ " in position " ++ ofNat position
    else
      "bytes in position " ++ ofNat position ++ "-" ++ ofNat (position + count - 1)
  "'utf-8' codec can't decode " ++ place ++ ": " ++ reason

def Fault.message : Fault → Text
  | .invalidStart position octet => describe position 1 octet "invalid start byte"
  | .invalidContinuation position octet seen =>
    describe position seen octet "invalid continuation byte"
  | .unexpectedEnd position octet seen => describe position seen octet "unexpected end of data"

end Typeahead.Text.Utf8
