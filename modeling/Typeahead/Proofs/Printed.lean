import Typeahead.Json.Display
import Typeahead.Proofs.Ascii
import Typeahead.Proofs.Objects

/-!
# The characters of what is written

JSON is written in lines of printable ASCII. What a message shows of a value may hold other
characters, but no surrogates: these are not printable.
-/

namespace Typeahead

open Number

namespace Text

def IsPlainAscii (t : Text) : Prop := ∀ c ∈ t, isPlainAscii c = true

instance : DecidablePred IsPlainAscii := fun t => inferInstanceAs (Decidable (∀ c ∈ t, isPlainAscii c = true))

namespace IsPlainAscii

theorem nil : IsPlainAscii [] := nofun

theorem cons {c : CodePoint} {t : Text} (hc : isPlainAscii c = true) (ht : IsPlainAscii t) : IsPlainAscii (c :: t) :=
  List.forall_mem_cons.2 ⟨hc, ht⟩

theorem append {t u : Text} (ht : IsPlainAscii t) (hu : IsPlainAscii u) : IsPlainAscii (t ++ u) :=
  List.forall_mem_append.2 ⟨ht, hu⟩

theorem of_subset {t u : Text} (ht : IsPlainAscii t) (h : u ⊆ t) : IsPlainAscii u := fun c hc => ht c (h hc)

theorem replicate (n : Nat) {c : CodePoint} (hc : isPlainAscii c = true) : IsPlainAscii (List.replicate n c) :=
  fun _ hd => List.eq_of_mem_replicate hd ▸ hc

theorem padLeft {t : Text} (ht : IsPlainAscii t) (width : Nat) : IsPlainAscii (padLeft width '0' t) :=
  append (replicate _ (by decide)) ht

theorem padRight {t : Text} (ht : IsPlainAscii t) (width : Nat) : IsPlainAscii (padRight width '0' t) :=
  append ht (replicate _ (by decide))

theorem toText {a : Blocks} (h : ∀ b ∈ a, IsPlainAscii b.text) : IsPlainAscii a.toText := by
  induction a with
  | nil => exact nil
  | cons b a ih =>
    obtain ⟨hb, ha⟩ := List.forall_mem_cons.1 h
    rw [Blocks.toText_cons]
    generalize b.count = n
    induction n with
    | zero => exact ih ha
    | succ n ihn =>
      rw [Blocks.repeatOnto_succ]
      exact append hb ihn

end IsPlainAscii

theorem isPlainAscii_digitChar : ∀ n < 16, isPlainAscii (.scalar (Nat.digitChar n)) = true := by decide

theorem isPlainAscii_digits {base : Nat} (hb : 1 < base) (hb' : base ≤ 16) (n : Nat) :
    IsPlainAscii (digits base n) := by
  induction n using Nat.strongRecOn with
  | ind n ih =>
    rw [digits, Nat.toDigits_eq_if hb]
    split
    · exact .cons (isPlainAscii_digitChar n (by omega)) .nil
    · have hlast := isPlainAscii_digitChar (n % base) (Nat.lt_of_lt_of_le (Nat.mod_lt n (by omega)) hb')
      rw [ofChars, List.map_append]
      exact .append (ih (n / base) (Nat.div_lt_self (by omega) hb)) (.cons hlast .nil)

theorem isPlainAscii_ofNat (n : Nat) : IsPlainAscii (ofNat n) := isPlainAscii_digits (by decide) (by decide) n

theorem isPlainAscii_ofInt (n : Int) : IsPlainAscii (ofInt n) := by
  cases n with
  | ofNat n => exact isPlainAscii_ofNat n
  | negSucc n => exact .cons (by decide) (isPlainAscii_ofNat _)

theorem isPlainAscii_hex (width n : Nat) : IsPlainAscii (hex width n) :=
  (isPlainAscii_digits (by decide) (by decide) n).padLeft width

end Text

open Text (IsPlainAscii isPlainAscii_ofNat)

/-! ## Floating-point numbers -/

namespace Number

namespace Digits

theorem isPlainAscii_trim {d : Digits} (h : IsPlainAscii d.digits) : IsPlainAscii d.trim.digits := by
  unfold trim
  split
  · exact (by decide : IsPlainAscii "0")
  · refine h.of_subset fun c hc => ?_
    exact List.mem_reverse.1 ((List.dropWhile_suffix _).subset (List.mem_reverse.1 hc))

theorem isPlainAscii_significant (count num den : Nat) : IsPlainAscii (significant count num den).digits := by
  unfold significant
  simp only
  split
  · decide
  · split
    · exact isPlainAscii_trim (isPlainAscii_ofNat _)
    · exact isPlainAscii_trim (isPlainAscii_ofNat _)

theorem isPlainAscii_shortest (mantissa : Nat) (exponent : Int) : IsPlainAscii (shortest mantissa exponent).digits := by
  simp only [shortest, Option.getD]
  split
  · next d hd =>
    obtain ⟨_, _, hd⟩ := List.exists_of_findSome?_eq_some hd
    obtain ⟨n, _, rfl⟩ := Option.map_eq_some_iff.1 hd
    exact isPlainAscii_trim (isPlainAscii_ofNat n)
  · exact isPlainAscii_significant _ _ _

theorem isPlainAscii_split {d : Digits} (h : IsPlainAscii d.digits) : IsPlainAscii d.split.1 ∧ IsPlainAscii d.split.2 := by
  unfold split
  split
  · exact ⟨(h.of_subset (List.take_subset _ _)).padRight _, h.of_subset (List.drop_subset _ _)⟩
  · exact ⟨(by decide : IsPlainAscii "0"), h.padLeft _⟩

end Digits

theorem isPlainAscii_tail {n : Numeral} (hf : IsPlainAscii n.fraction) (he : IsPlainAscii n.exponent) (kept : Bool) :
    IsPlainAscii (n.tail kept).toText := by
  refine .toText fun b hb => ?_
  unfold Numeral.tail at hb
  split at hb
  · rw [List.mem_singleton.1 hb]
    exact he
  · simp only [List.mem_cons, List.not_mem_nil, or_false] at hb
    rcases hb with rfl | rfl | rfl
    · exact .append (by decide) hf
    · exact .cons (by decide) .nil
    · exact he

theorem isPlainAscii_positional {d : Digits} (h : IsPlainAscii d.digits) (places : Nat) :
    IsPlainAscii (d.positional places).text :=
  .append (Digits.isPlainAscii_split h).1 (isPlainAscii_tail (Digits.isPlainAscii_split h).2 .nil _)

theorem isPlainAscii_scientific {d : Digits} (h : IsPlainAscii d.digits) (places : Nat) :
    IsPlainAscii (d.scientific 'e' places).text := by
  refine .append (h.of_subset (List.take_subset _ _)) (isPlainAscii_tail (h.of_subset (List.drop_subset _ _)) ?_ _)
  refine .cons (by decide) (.cons ?_ ((isPlainAscii_ofNat _).padLeft 2))
  split <;> decide

theorem Binary64.isPlainAscii_text (x : Binary64) : IsPlainAscii x.text := by
  cases x with
  | nan => exact (by decide : IsPlainAscii "nan")
  | infinite negative => cases negative <;> decide
  | finite negative m e =>
    have hd : IsPlainAscii (if m = 0 then (⟨"0", 0⟩ : Digits) else Digits.shortest m e).digits := by
      split
      · exact (by decide : IsPlainAscii "0")
      · exact Digits.isPlainAscii_shortest m e
    simp only [Binary64.text]
    generalize (if m = 0 then (⟨"0", 0⟩ : Digits) else Digits.shortest m e) = d at hd ⊢
    refine .append (by cases negative <;> decide) ?_
    split
    · exact isPlainAscii_positional hd 1
    · exact isPlainAscii_scientific hd 0

end Number

/-! ## Written values -/

namespace Text

/-- Lines of printable ASCII. -/
def IsPlainLines (t : Text) : Prop := ∀ c ∈ t, c = .scalar '\n' ∨ isPlainAscii c = true

instance : DecidablePred IsPlainLines :=
  fun t => inferInstanceAs (Decidable (∀ c ∈ t, c = .scalar '\n' ∨ isPlainAscii c = true))

theorem IsPlainAscii.lines {t : Text} (h : IsPlainAscii t) : IsPlainLines t := fun c hc => .inr (h c hc)

namespace IsPlainLines

theorem append {t u : Text} (ht : IsPlainLines t) (hu : IsPlainLines u) : IsPlainLines (t ++ u) :=
  List.forall_mem_append.2 ⟨ht, hu⟩

theorem isAscii {t : Text} (h : IsPlainLines t) : IsAscii t := by
  intro c hc
  rcases h c hc with rfl | hp
  · decide
  · simp only [isPlainAscii, Bool.and_eq_true, decide_eq_true_eq] at hp
    omega

theorem not_mem_return {t : Text} (h : IsPlainLines t) : .scalar '\r' ∉ t :=
  fun hc => (h _ hc).elim (by decide) (by decide)

end IsPlainLines

end Text

namespace Json

open Text (IsPlainLines)

theorem isPlainAscii_escapeUnit (n : Nat) : IsPlainAscii (escapeUnit n) :=
  .cons (by decide) (.cons (by decide) (Text.isPlainAscii_hex 4 n))

theorem isPlainAscii_writeChar (c : CodePoint) : IsPlainAscii (writeChar c) := by
  rcases writeChar_cases c with ⟨d, hw, _, _, hd⟩ | ⟨hw, _, _, hc⟩ | hw
  · rw [hw]
    exact .cons (by decide) (.cons hd .nil)
  · rw [hw]
    exact .cons hc .nil
  · rw [hw]
    by_cases h : c.toNat < 0x10000
    · rw [escapeUnits_of_lt h]
      exact isPlainAscii_escapeUnit _
    · rw [escapeUnits_of_not_lt h]
      exact .append (isPlainAscii_escapeUnit _) (isPlainAscii_escapeUnit _)

theorem isPlainLines_writeString (t : Text) : IsPlainLines (writeString t) := by
  refine .append (.append (by decide) fun c hc => ?_) (by decide)
  obtain ⟨d, _, hc⟩ := List.mem_flatMap.1 hc
  exact .inr (isPlainAscii_writeChar d c hc)

theorem isPlainLines_newline (depth : Nat) : IsPlainLines (newline depth) := by
  intro c hc
  rcases List.mem_cons.1 hc with rfl | hc
  · exact .inl rfl
  · rw [List.eq_of_mem_replicate hc]
    exact .inr (by decide)

theorem isPlainLines_writeFloat (x : Binary64) : IsPlainLines (writeFloat x) := by
  cases x with
  | nan => exact (by decide : IsPlainLines "NaN")
  | infinite negative => cases negative <;> exact (by decide)
  | finite negative m e => exact (Binary64.isPlainAscii_text (.finite negative m e)).lines

mutual

theorem isPlainLines_write (depth : Nat) : ∀ value : Json, IsPlainLines (write depth value)
  | null => by rw [write]; decide
  | bool true => by rw [write]; decide
  | bool false => by rw [write]; decide
  | int n => by rw [write]; exact (Text.isPlainAscii_ofInt n).lines
  | float x => by rw [write]; exact isPlainLines_writeFloat x
  | string t => by rw [write]; exact isPlainLines_writeString t
  | array [] => by rw [write]; decide
  | array (item :: rest) => by
    rw [write]
    exact .append (.append (by decide) (isPlainLines_newline _)) (.append (isPlainLines_write _ item)
      (.append (isPlainLines_writeItems _ rest) (.append (isPlainLines_newline _) (by decide))))
  | object [] => by rw [write]; decide
  | object ((key, value) :: rest) => by
    rw [write]
    exact .append (.append (.append (.append (by decide) (isPlainLines_newline _)) (isPlainLines_writeString key)) (by decide))
      (.append (isPlainLines_write _ value)
        (.append (isPlainLines_writeMembers _ rest) (.append (isPlainLines_newline _) (by decide))))

theorem isPlainLines_writeItems (depth : Nat) : ∀ items : List Json, IsPlainLines (writeItems depth items)
  | [] => by rw [writeItems]; decide
  | item :: rest => by
    rw [writeItems]
    exact .append (.append (by decide) (isPlainLines_newline _))
      (.append (isPlainLines_write _ item) (isPlainLines_writeItems _ rest))

theorem isPlainLines_writeMembers (depth : Nat) :
    ∀ members : List (Text × Json), IsPlainLines (writeMembers depth members)
  | [] => by rw [writeMembers]; decide
  | (key, value) :: rest => by
    rw [writeMembers]
    exact .append (.append (.append (.append (by decide) (isPlainLines_newline _)) (isPlainLines_writeString key)) (by decide))
      (.append (isPlainLines_write _ value) (isPlainLines_writeMembers _ rest))

end

end Json

/-! ## Displayed values -/

namespace Text

theorem IsScalar.append {t u : Text} (ht : IsScalar t) (hu : IsScalar u) : IsScalar (t ++ u) :=
  List.forall_mem_append.2 ⟨ht, hu⟩

theorem isScalar_singleton (c : Char) : IsScalar [.scalar c] := fun _ hd => ⟨c, List.mem_singleton.1 hd⟩

theorem isPrintable_of_surrogate {c : CodePoint} (h : 0xd800 ≤ c.toNat ∧ c.toNat < 0xe000) : isPrintable c = false := by
  have hplain : isPlainAscii c = false := by
    simp only [isPlainAscii, Bool.and_eq_false_iff, decide_eq_false_iff_not]
    omega
  have hmem : (0xd7fc, 0xf8ff) ∈ unprintable := by decide +kernel
  rw [isPrintable, hplain, Bool.false_or, Bool.not_eq_false', List.any_eq_true]
  refine ⟨_, hmem, ?_⟩
  simp only [Bool.and_eq_true, decide_eq_true_eq]
  omega

theorem isScalar_of_isPrintable {c : CodePoint} (h : isPrintable c = true) : IsScalar [c] := by
  cases c with
  | scalar c => exact isScalar_singleton c
  | surrogate n =>
    rw [isPrintable_of_surrogate (by simp only [CodePoint.toNat]; omega)] at h
    cases h

theorem IsPlainAscii.isScalar {t : Text} (h : IsPlainAscii t) : IsScalar t :=
  fun c hc => isScalar_of_isPrintable (isPrintable_of_isPlainAscii (h c hc)) c (List.mem_singleton_self c)

theorem isScalar_escape {quote : CodePoint} (hq : IsScalar [quote]) (c : CodePoint) : IsScalar (escape quote c) := by
  unfold escape
  split
  · next h =>
    rcases h with rfl | rfl
    · exact .append (isScalar_singleton '\\') hq
    · exact .append (isScalar_singleton '\\') (isScalar_singleton '\\')
  split
  · next h => exact isScalar_of_isPrintable h
  split
  · exact isScalar_ofString "\\n"
  split
  · exact isScalar_ofString "\\r"
  split
  · exact isScalar_ofString "\\t"
  · unfold escapeCodePoint
    split
    · exact .append (isScalar_ofString "\\x") (isPlainAscii_hex 2 _).isScalar
    split
    · exact .append (isScalar_ofString "\\u") (isPlainAscii_hex 4 _).isScalar
    · exact .append (isScalar_ofString "\\U") (isPlainAscii_hex 8 _).isScalar

theorem isScalar_quoted (t : Text) : IsScalar (quoted t) := by
  have hq : IsScalar [quoteFor t] := by
    rcases quoteFor_eq t with h | h <;> rw [h] <;> exact isScalar_singleton _
  refine .append (.append hq fun c hc => ?_) hq
  obtain ⟨d, _, hc⟩ := List.mem_flatMap.1 hc
  exact isScalar_escape hq d c hc

end Text

namespace Json

open Text (IsScalar isScalar_ofString isScalar_quoted)

mutual

theorem isScalar_display : ∀ value : Json, IsScalar (display value)
  | null => by rw [display]; exact isScalar_ofString _
  | bool true => by rw [display]; exact isScalar_ofString _
  | bool false => by rw [display]; exact isScalar_ofString _
  | int n => by rw [display]; exact (Text.isPlainAscii_ofInt n).isScalar
  | float x => by rw [display]; exact (Binary64.isPlainAscii_text x).isScalar
  | string t => by rw [display]; exact isScalar_quoted t
  | array items => by
    rw [display]
    exact .append (.append (isScalar_ofString _) (isScalar_displayItems items)) (isScalar_ofString _)
  | object members => by
    rw [display]
    exact .append (.append (isScalar_ofString _) (isScalar_displayMembers members)) (isScalar_ofString _)

theorem isScalar_displayItems : ∀ items : List Json, IsScalar (displayItems items)
  | [] => by rw [displayItems]; nofun
  | [item] => by rw [displayItems]; exact isScalar_display item
  | item :: next :: rest => by
    rw [displayItems]
    exact .append (.append (isScalar_display item) (isScalar_ofString _)) (isScalar_displayItems (next :: rest))

theorem isScalar_displayMembers : ∀ members : List (Text × Json), IsScalar (displayMembers members)
  | [] => by rw [displayMembers]; nofun
  | [(key, value)] => by
    rw [displayMembers]
    exact .append (.append (isScalar_quoted key) (isScalar_ofString _)) (isScalar_display value)
  | (key, value) :: next :: rest => by
    rw [displayMembers]
    exact .append (.append (.append (.append (isScalar_quoted key) (isScalar_ofString _)) (isScalar_display value))
      (isScalar_ofString _)) (isScalar_displayMembers (next :: rest))

end

end Json

end Typeahead
