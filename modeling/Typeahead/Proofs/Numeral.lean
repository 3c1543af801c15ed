import Typeahead.Proofs.Quotation
import Typeahead.Template.Layout

/-!
# Numbers in a text

A number that stands in a text with its digits in some base can be read back if all other digits in the text
are zeros before it. Grouping digits, and filling them up with zeros, changes nothing of that. How long the
text becomes depends on the number of digits only.
-/

namespace Typeahead

namespace Text

/-! ## Digits in a text -/

def digitIn (base : Nat) (c : CodePoint) : Option Nat := (Json.hexValue? c).filter (· < base)

/-- The digits in a text; whatever else is there is passed over. -/
def digitsIn (base : Nat) (t : Text) : List Nat := t.filterMap (digitIn base)

def value (base : Nat) (ds : List Nat) : Nat := ds.foldl (fun n d => base * n + d) 0

variable {base : Nat}

@[simp] theorem digitsIn_nil : digitsIn base [] = [] := rfl

@[simp] theorem digitsIn_append (t u : Text) : digitsIn base (t ++ u) = digitsIn base t ++ digitsIn base u :=
  List.filterMap_append

theorem digitsIn_replicate_zero (hb : 1 < base) (n : Nat) :
    digitsIn base (List.replicate n (.scalar '0')) = List.replicate n 0 := by
  have hvalue : Json.hexValue? (.scalar '0') = some 0 := by decide
  have hzero : digitIn base (.scalar '0') = some 0 := by
    rw [digitIn, hvalue]
    simp [Nat.zero_lt_of_lt hb]
  simp [digitsIn, hzero]

theorem digitsIn_replicate_of_none {c : CodePoint} (h : digitIn base c = none) (n : Nat) :
    digitsIn base (List.replicate n c) = [] := by
  simp [digitsIn, h]

theorem digitIn_hexDigit (hb : base ≤ 16) {d : Nat} (hd : d < base) : digitIn base (hexDigit d) = some d := by
  simp [digitIn, Json.hexValue?_hexDigit d (by omega), hd]

theorem digits_eq (hb : 1 < base) (n : Nat) :
    digits base n = if n < base then [hexDigit n] else digits base (n / base) ++ [hexDigit (n % base)] := by
  rw [digits, Nat.toDigits_eq_if hb]
  split <;> simp [ofChars, hexDigit, digits]

theorem value_concat (ds : List Nat) (d : Nat) : value base (ds ++ [d]) = base * value base ds + d := by
  simp [value]

theorem value_zeros (n : Nat) (ds : List Nat) : value base (List.replicate n 0 ++ ds) = value base ds := by
  induction n with
  | zero => rfl
  | succ n ih => simpa [value, List.replicate_succ] using ih

theorem value_digits (hb : 1 < base) (hb' : base ≤ 16) (n : Nat) : value base (digitsIn base (digits base n)) = n := by
  induction n using Nat.strongRecOn with
  | ind n ih =>
    rw [digits_eq hb]
    split
    · next hn => simp [digitsIn, digitIn_hexDigit hb' hn, value]
    · next hn =>
      have hlast := digitIn_hexDigit hb' (Nat.mod_lt n (Nat.zero_lt_of_lt hb))
      have hsingle : digitsIn base [hexDigit (n % base)] = [n % base] := by simp [digitsIn, hlast]
      rw [digitsIn_append, hsingle, value_concat, ih (n / base) (Nat.div_lt_self (by omega) hb), Nat.div_add_mod]

theorem hexValue?_toUpper_hexDigit : ∀ d < 16, Json.hexValue? (hexDigit d).toUpper = Json.hexValue? (hexDigit d) := by
  decide

theorem digitsIn_upper (hb : 1 < base) (hb' : base ≤ 16) (n : Nat) :
    digitsIn base ((digits base n).map CodePoint.toUpper) = digitsIn base (digits base n) := by
  induction n using Nat.strongRecOn with
  | ind n ih =>
    have hsame (d : Nat) (hd : d < base) : digitsIn base [(hexDigit d).toUpper] = digitsIn base [hexDigit d] := by
      simp only [digitsIn, List.filterMap_cons, digitIn, hexValue?_toUpper_hexDigit d (by omega)]
    rw [digits_eq hb]
    split
    · next hn => exact hsame n hn
    · rw [List.map_append, digitsIn_append, ih (n / base) (Nat.div_lt_self (by omega) hb), digitsIn_append]
      congr 1
      exact hsame _ (Nat.mod_lt n (Nat.zero_lt_of_lt hb))

theorem length_digits_mono (hb : 1 < base) {m n : Nat} (h : m ≤ n) :
    (digits base m).length ≤ (digits base n).length := by
  simp only [digits, ofChars, List.length_map]
  rw [Nat.length_toDigits_le_iff hb Nat.length_toDigits_pos]
  exact Nat.lt_of_le_of_lt h ((Nat.length_toDigits_le_iff hb Nat.length_toDigits_pos).1 (Nat.le_refl _))

theorem digits_ne_nil (base n : Nat) : digits base n ≠ [] := by
  simp [digits, ofChars, Nat.toDigits_ne_nil]

/-! ## Texts that show a number -/

/-- Apart from zeros before them, the digits in the text are those of the number. -/
def Shows (base n : Nat) (t : Text) : Prop :=
  ∃ zeros, digitsIn base t = List.replicate zeros 0 ++ digitsIn base (digits base n)

variable {n : Nat} {t u : Text}

theorem Shows.unique (hb : 1 < base) (hb' : base ≤ 16) {m : Nat} (h : Shows base m t) (h' : Shows base n t) :
    m = n := by
  obtain ⟨zeros, h⟩ := h
  obtain ⟨zeros', h'⟩ := h'
  rw [← value_digits hb hb' m, ← value_zeros zeros, ← h, h', value_zeros, value_digits hb hb']

theorem shows_digits (base n : Nat) : Shows base n (digits base n) := ⟨0, rfl⟩

theorem Shows.of_digitsIn (h : Shows base n t) (heq : digitsIn base u = digitsIn base t) : Shows base n u := by
  rwa [Shows, heq]

def ZerosOnly (base : Nat) (t : Text) : Prop := ∃ zeros, digitsIn base t = List.replicate zeros 0

theorem ZerosOnly.append (ht : ZerosOnly base t) (hu : ZerosOnly base u) : ZerosOnly base (t ++ u) := by
  obtain ⟨zeros, ht⟩ := ht
  obtain ⟨zeros', hu⟩ := hu
  exact ⟨zeros + zeros', by rw [digitsIn_append, ht, hu, List.replicate_append_replicate]⟩

theorem zerosOnly_replicate_zero (hb : 1 < base) (n : Nat) : ZerosOnly base (List.replicate n (.scalar '0')) :=
  ⟨n, digitsIn_replicate_zero hb n⟩

theorem zerosOnly_of_nil (h : digitsIn base t = []) : ZerosOnly base t := ⟨0, h⟩

theorem Shows.after (hu : Shows base n u) (ht : ZerosOnly base t) : Shows base n (t ++ u) := by
  obtain ⟨zeros, ht⟩ := ht
  obtain ⟨zeros', hu⟩ := hu
  exact ⟨zeros + zeros', by rw [digitsIn_append, ht, hu, ← List.append_assoc, List.replicate_append_replicate]⟩

theorem Shows.before (ht : Shows base n t) (hu : digitsIn base u = []) : Shows base n (t ++ u) :=
  ht.of_digitsIn (by rw [digitsIn_append, hu, List.append_nil])

theorem Shows.repeatOnto (hu : Shows base n u) (ht : ZerosOnly base t) (count : Nat) :
    Shows base n (Blocks.repeatOnto t u count) := by
  induction count with
  | zero => exact hu
  | succ count ih =>
    rw [Blocks.repeatOnto_succ]
    exact ih.after ht

end Text

namespace Template

open Text (digitsIn digitIn Shows ZerosOnly)

/-! ## Groups of digits -/

section
variable {size : Nat} {separator : CodePoint}

theorem length_groupOnto (hsize : 0 < size) {count : Nat} (hcount : count ≤ size) (done t : Text) :
    (groupOnto size separator count done t).length = done.length + t.length + (count + t.length - 1) / size := by
  induction t generalizing count done with
  | nil =>
    have : (count - 1) / size = 0 := Nat.div_eq_of_lt (by omega)
    simp [groupOnto, this]
  | cons c t ih =>
    simp only [groupOnto]
    split
    · next hfull =>
      have hdiv : (size + (t.length + 1) - 1) / size = t.length / size + 1 := by
        rw [show size + (t.length + 1) - 1 = t.length + size by omega, Nat.add_div_right _ hsize]
      rw [ih (by omega), hfull, List.length_cons, List.length_cons, List.length_cons, hdiv, Nat.add_sub_cancel_left]
      omega
    · rw [ih (by omega), List.length_cons, List.length_cons]
      rw [show count + 1 + t.length - 1 = count + (t.length + 1) - 1 by omega]
      omega

theorem length_group (hsize : 0 < size) (t : Text) :
    (group size separator t).length = t.length + (t.length - 1) / size := by
  rw [group, length_groupOnto hsize (Nat.zero_le size)]
  simp

variable {base : Nat}

theorem digitsIn_groupOnto (hsep : digitIn base separator = none) (count : Nat) (done t : Text) :
    digitsIn base (groupOnto size separator count done t) = digitsIn base t.reverse ++ digitsIn base done := by
  have hcons (c : CodePoint) (u : Text) : digitsIn base (c :: u) = digitsIn base [c] ++ digitsIn base u :=
    Text.digitsIn_append [c] u
  have hskip (u : Text) : digitsIn base (separator :: u) = digitsIn base u := by
    simp [digitsIn, hsep]
  induction t generalizing count done with
  | nil => rfl
  | cons c t ih =>
    simp only [groupOnto, List.reverse_cons, Text.digitsIn_append, List.append_assoc]
    split
    · rw [ih, hcons, hskip]
    · rw [ih, hcons]

theorem digitsIn_group (hsep : digitIn base separator = none) (t : Text) :
    digitsIn base (group size separator t) = digitsIn base t := by
  rw [group, digitsIn_groupOnto hsep]
  simp

/-! ## Digits after zeros -/

theorem padLeft_eq (zeros : Nat) (digits : Text) :
    Text.padLeft (zeros + digits.length) '0' digits = List.replicate zeros (.scalar '0') ++ digits := by
  simp [Text.padLeft, List.leftpad]

theorem mul_pred_div {k : Nat} (hsize : 0 < size) (hk : 0 < k) : (size * k - 1) / size = k - 1 := by
  obtain ⟨k, rfl⟩ := Nat.exists_eq_add_of_lt hk
  have hsplit : size * (0 + k + 1) - 1 = size * k + (size - 1) := by
    rw [Nat.zero_add, Nat.mul_succ]
    omega
  rw [hsplit, Nat.mul_add_div hsize, Nat.div_eq_of_lt (by omega)]
  omega

/-- What is left after the first digits and some whole groups is in whole groups too. -/
theorem groups_left {q r groups rest zeros count : Nat} (hsize : 0 < size) (hcount : 0 < count)
    (hq : size * q + r = zeros + count - 1) (hlong : r < zeros) (hgroups : size * groups + rest = zeros - (r + 1)) :
    (rest + count - 1) / size + groups + 1 = q := by
  have hmul : rest + count = size * (q - groups) := by
    rw [Nat.mul_sub]
    omega
  have hleft : 0 < q - groups := by
    rcases Nat.eq_zero_or_pos (q - groups) with h | h
    · rw [h] at hmul
      omega
    · exact h
  rw [hmul, mul_pred_div hsize hleft]
  omega

theorem length_groupAfterZeros (hsize : 0 < size) (zeros : Nat) {digits : Text} (hne : digits ≠ []) :
    (groupAfterZeros size separator zeros digits).length =
      zeros + digits.length + (zeros + digits.length - 1) / size := by
  have hcount : 0 < digits.length := List.length_pos_iff.2 hne
  have hq := Nat.div_add_mod (zeros + digits.length - 1) size
  unfold groupAfterZeros
  simp only
  generalize (zeros + digits.length - 1) % size = r at hq ⊢
  split
  · simp [Block.once, length_group hsize, Text.length_padLeft]
  · next hlong =>
    have hgroups := Nat.div_add_mod (zeros - (r + 1)) size
    generalize (zeros - (r + 1)) / size = groups at hgroups ⊢
    generalize (zeros - (r + 1)) % size = rest at hgroups
    have hrest : zeros - (r + 1) - groups * size = rest := by
      rw [Nat.mul_comm]
      omega
    have hleft := groups_left hsize hcount hq (by omega) hgroups
    rw [hrest]
    simp only [Blocks.length_cons, Blocks.length_nil, Block.fill, Block.once, List.length_cons, List.length_nil,
      List.length_replicate, length_group hsize, Text.length_padLeft, Nat.mul_succ, Nat.mul_comm groups size]
    rw [Nat.max_eq_left (by omega)]
    omega

theorem shows_groupAfterZeros (hb : 1 < base) (hsep : digitIn base separator = none) {n : Nat} {digits : Text}
    (h : Shows base n digits) (zeros : Nat) : Shows base n (groupAfterZeros size separator zeros digits).toText := by
  have hzeros (k : Nat) := Text.zerosOnly_replicate_zero hb k
  have hsepOnly : ZerosOnly base [separator] := Text.zerosOnly_of_nil (by simp [digitsIn, hsep])
  have hgroup (k : Nat) : Shows base n (group size separator (Text.padLeft (k + digits.length) '0' digits)) := by
    rw [padLeft_eq]
    exact (h.after (hzeros k)).of_digitsIn (digitsIn_group hsep _)
  unfold groupAfterZeros
  simp only
  split
  · simpa using hgroup zeros
  · rw [Blocks.toText_fill, Blocks.toText_cons, Blocks.toText_once, Blocks.toText_nil, List.append_nil]
    refine Shows.after (Shows.repeatOnto ?_ ?_ _) (hzeros _)
    · exact Shows.after (hgroup _) hsepOnly
    · exact hsepOnly.append (hzeros size)

end

end Template

end Typeahead
