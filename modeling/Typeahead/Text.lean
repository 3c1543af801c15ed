import Typeahead.CodePoint

/-!
# Texts

A text is the list of its code points, so that positions and lengths count these and every function
on texts is a recursion on a list. Numbers are written here too: in decimal, and in hexadecimal with
leading zeros.
-/

namespace Typeahead

abbrev Text := List CodePoint

namespace Text

def ofChars (cs : List Char) : Text := cs.map .scalar

@[coe] def ofString (s : String) : Text := ofChars s.toList

instance : Coe String Text := ⟨ofString⟩

/-! ## Numbers as texts -/

def digits (base n : Nat) : Text := ofChars (Nat.toDigits base n)

def ofNat (n : Nat) : Text := digits 10 n

def ofInt : Int → Text
  | .ofNat n => ofNat n
  | .negSucc n => '-' :: ofNat (n + 1)

/-- Whole numbers are read and written in decimal up to this many digits. -/
def digitLimit : Nat := 4300

def isWritable (n : Int) : Bool := (ofNat n.natAbs).length ≤ digitLimit

theorem isWritable_of_lt {n : Nat} (h : n < 0x8000000000000000) : isWritable n = true := by
  have hlength : (ofNat n).length = (Nat.toDigits 10 n).length := List.length_map _
  have hshort : (Nat.toDigits 10 n).length ≤ 19 :=
    (Nat.length_toDigits_le_iff (by decide) (by decide)).2 (Nat.lt_trans h (by decide))
  rw [isWritable, decide_eq_true_eq, Int.natAbs_natCast, hlength]
  exact Nat.le_trans hshort (by decide)

def tooLongMessage : Text :=
  "Exceeds the limit (" ++ ofNat digitLimit ++ " digits) for integer string conversion"
    ++ "; use sys.set_int_max_str_digits() to increase the limit"

def padLeft (width : Nat) (fill : CodePoint) (t : Text) : Text :=
  t.leftpad width fill

def padRight (width : Nat) (fill : CodePoint) (t : Text) : Text :=
  t ++ List.replicate (width - t.length) fill

def hex (width n : Nat) : Text := padLeft width '0' (digits 16 n)

theorem length_padLeft (width : Nat) (fill : CodePoint) (t : Text) :
    (padLeft width fill t).length = max width t.length := by
  simp [padLeft]; omega

theorem length_padRight (width : Nat) (fill : CodePoint) (t : Text) :
    (padRight width fill t).length = max width t.length := by
  simp [padRight]; omega

theorem padRight_of_le {width : Nat} {t : Text} (fill : CodePoint) (h : width ≤ t.length) :
    padRight width fill t = t := by
  simp [padRight, Nat.sub_eq_zero_of_le h]

/-! ## Lists of texts -/

def join (separator : Text) : List Text → Text
  | [] => []
  | [t] => t
  | t :: u :: ts => t ++ separator ++ join separator (u :: ts)

/-! ## Order -/

/-- The order of texts: by the first character in which they differ, a text after all its beginnings. -/
def atMost : Text → Text → Bool
  | [], _ => true
  | _ :: _, [] => false
  | c :: t, d :: u => if c = d then atMost t u else c.toNat < d.toNat

/-- Holds of the texts between `0` and `9`, ends included. Single characters among them are the digits. -/
def isNumeral (t : Text) : Bool := atMost ['0'] t && atMost t ['9']

theorem atMost_singleton (c d : CodePoint) : atMost [c] [d] = decide (c.toNat ≤ d.toNat) := by
  rw [Bool.eq_iff_iff, decide_eq_true_eq]
  by_cases h : c = d
  · simp [atMost, h]
  · have : c.toNat ≠ d.toNat := fun e => h (CodePoint.toNat_inj.1 e)
    simp only [atMost, if_neg h, decide_eq_true_eq]
    omega

theorem isNumeral_singleton (c : CodePoint) : isNumeral [c] = c.isDigit := by
  simp only [isNumeral, atMost_singleton, CodePoint.isDigit_eq]
  rfl

end Text

end Typeahead
