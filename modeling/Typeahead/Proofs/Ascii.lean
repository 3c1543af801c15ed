import Typeahead.Proofs.Match
import Typeahead.Text.Line
import Typeahead.Text.Utf8

/-!
# Texts in ASCII

A text in ASCII has one octet for each character, and is read from its octets as it was. It is so, too,
after a carriage return is put before every line feed.
-/

namespace Typeahead.Text

def IsAscii (t : Text) : Prop := ∀ c ∈ t, c.toNat < 0x80

theorem isAscii_nil : IsAscii [] := fun _ h => by cases h

theorem isAscii_cons {c : CodePoint} {t : Text} : IsAscii (c :: t) ↔ c.toNat < 0x80 ∧ IsAscii t :=
  List.forall_mem_cons

theorem isAscii_flatMap {t : Text} {f : CodePoint → Text} (h : ∀ c ∈ t, IsAscii (f c)) : IsAscii (t.flatMap f) := by
  intro d hd
  obtain ⟨c, hc, hd⟩ := List.mem_flatMap.1 hd
  exact h c hc d hd

def crlf (t : Text) : Text := t.flatMap fun c => if c = .scalar '\n' then [.scalar '\r', .scalar '\n'] else [c]

theorem crlf_cons (c : CodePoint) (t : Text) :
    crlf (c :: t) = (if c = .scalar '\n' then [.scalar '\r', .scalar '\n'] else [c]) ++ crlf t := rfl

theorem isAscii_crlf {t : Text} (h : IsAscii t) : IsAscii (crlf t) := by
  refine isAscii_flatMap fun c hc => ?_
  split
  · unfold IsAscii; decide
  · exact isAscii_cons.2 ⟨h c hc, isAscii_nil⟩

theorem unifyLineEnds_cons {c : CodePoint} (h : c ≠ .scalar '\r') (t : Text) :
    unifyLineEnds (c :: t) = c :: unifyLineEnds t := by
  rw [unifyLineEnds, if_neg h]
  intro u he
  exact absurd he h

theorem unifyLineEnds_crlf {t : Text} (h : .scalar '\r' ∉ t) : unifyLineEnds (crlf t) = t := by
  induction t with
  | nil => rfl
  | cons c t ih =>
    simp only [List.mem_cons, not_or] at h
    rw [crlf_cons]
    by_cases hc : c = .scalar '\n'
    · rw [if_pos hc, hc]
      show .scalar '\n' :: unifyLineEnds (crlf t) = _
      rw [ih h.2]
    · rw [if_neg hc, List.singleton_append, unifyLineEnds_cons (Ne.symm h.1), ih h.2]

namespace Utf8

theorem encodeCodePoint_of_ascii {c : CodePoint} (h : c.toNat < 0x80) : encodeCodePoint c = [.ofNat c.toNat] :=
  if_pos h

theorem encode_cons (c : CodePoint) (t : Text) : encode (c :: t) = encodeCodePoint c ++ encode t := rfl

theorem encode_append (t u : Text) : encode (t ++ u) = encode t ++ encode u := List.flatMap_append

theorem toNat_ofNat_of_ascii {n : Nat} (h : n < 0x80) : (UInt8.ofNat n).toNat = n := by
  rw [UInt8.toNat_ofNat']
  omega

theorem read_encode {t : Text} (h : IsAscii t) (position : Nat) : read position none (encode t) = .ok t := by
  induction t generalizing position with
  | nil => rfl
  | cons c t ih =>
    obtain ⟨hc, ht⟩ := isAscii_cons.1 h
    have hlt : UInt8.ofNat c.toNat < 0x80 := by
      rw [UInt8.lt_iff_toNat_lt, toNat_ofNat_of_ascii hc]
      exact hc
    rw [encode_cons, encodeCodePoint_of_ascii hc, List.singleton_append, read, if_pos hlt, ih ht,
      toNat_ofNat_of_ascii hc, CodePoint.ofNat_toNat]
    rfl

theorem decode_encode {t : Text} (h : IsAscii t) : decode (encode t) = .ok t := read_encode h 0

theorem octet_lt_of_ascii {t : Text} (h : IsAscii t) {b : UInt8} (hb : b ∈ encode t) : b < 0x80 := by
  obtain ⟨c, hc, hb⟩ := List.mem_flatMap.1 hb
  rw [encodeCodePoint_of_ascii (h c hc), List.mem_singleton] at hb
  rw [hb, UInt8.lt_iff_toNat_lt, toNat_ofNat_of_ascii (h c hc)]
  exact h c hc

def crlf (octets : Octets) : Octets := octets.flatMap fun b => if b = 0x0a then [0x0d, 0x0a] else [b]

theorem crlf_encode {t : Text} (h : IsAscii t) : crlf (encode t) = encode (Text.crlf t) := by
  induction t with
  | nil => rfl
  | cons c t ih =>
    obtain ⟨hc, ht⟩ := isAscii_cons.1 h
    have hiff : UInt8.ofNat c.toNat = 0x0a ↔ c = .scalar '\n' := by
      rw [← UInt8.toNat_inj, toNat_ofNat_of_ascii hc, ← CodePoint.toNat_inj]
      rfl
    rw [Text.crlf_cons, encode_cons, encodeCodePoint_of_ascii hc, List.singleton_append, encode_append, ← ih ht]
    show (if UInt8.ofNat c.toNat = 0x0a then [0x0d, 0x0a] else [UInt8.ofNat c.toNat]) ++ crlf (encode t) = _
    by_cases hn : c = .scalar '\n'
    · rw [if_pos (hiff.2 hn), if_pos hn]
      rfl
    · rw [if_neg fun h => hn (hiff.1 h), if_neg hn, encode_cons, encodeCodePoint_of_ascii hc]
      rfl

end Utf8

end Typeahead.Text
