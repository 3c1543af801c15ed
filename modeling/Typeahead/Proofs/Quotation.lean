import Typeahead.Json.Reader
import Typeahead.Json.Writer
import Typeahead.Text.Printable

/-!
# Strings in JSON, written and read back

A string is written character by character, each in a way that reads back as that character whatever
follows it before the closing quote. Only the halves of a surrogate pair, written one after the other,
are read as the one character that they stand for together.
-/

namespace Typeahead

namespace CodePoint

def IsHigh (c : CodePoint) : Prop := 0xd800 ≤ c.toNat ∧ c.toNat < 0xdc00

def IsLow (c : CodePoint) : Prop := 0xdc00 ≤ c.toNat ∧ c.toNat < 0xe000

theorem not_isHigh_scalar (c : Char) : ¬(scalar c).IsHigh := by
  have := toNat_scalar_apart c
  simp only [IsHigh, toNat]
  omega

end CodePoint

namespace Text

/-- Nowhere does the first half of a surrogate pair stand before a second half. -/
def Unpaired : Text → Prop
  | c :: d :: t => ¬(c.IsHigh ∧ d.IsLow) ∧ Unpaired (d :: t)
  | _ => True

theorem Unpaired.tail {c : CodePoint} {t : Text} (h : Unpaired (c :: t)) : Unpaired t := by
  cases t with
  | nil => trivial
  | cons d t => exact h.2

theorem Unpaired.right {t u : Text} (h : Unpaired (t ++ u)) : Unpaired u := by
  induction t with
  | nil => exact h
  | cons c t ih => exact ih h.tail

def IsScalar (t : Text) : Prop := ∀ c ∈ t, ∃ d : Char, c = .scalar d

theorem isScalar_ofString (s : String) : IsScalar (ofString s) := by
  intro c hc
  obtain ⟨d, _, rfl⟩ := List.mem_map.1 hc
  exact ⟨d, rfl⟩

theorem IsScalar.unpaired {t : Text} (h : IsScalar t) : Unpaired t := by
  induction t with
  | nil => trivial
  | cons c t ih =>
    have ht := ih fun d hd => h d (List.mem_cons_of_mem c hd)
    cases t with
    | nil => trivial
    | cons d t =>
      obtain ⟨x, rfl⟩ := h c List.mem_cons_self
      exact ⟨fun hp => CodePoint.not_isHigh_scalar x hp.1, ht⟩

/-! ## Hexadecimal digits -/

def hexDigit (n : Nat) : CodePoint := .scalar (Nat.digitChar n)

theorem hex_one {n : Nat} (h : n < 16) : hex 1 n = [hexDigit n] := by
  simp [hex, digits, Nat.toDigits_of_lt_base h, ofChars, padLeft, List.leftpad, hexDigit]

theorem hex_succ (width n : Nat) :
    hex (width + 2) n = hex (width + 1) (n / 16) ++ [hexDigit (n % 16)] := by
  by_cases h : n < 16
  · have hdiv : n / 16 = 0 := by omega
    have hmod : n % 16 = n := by omega
    have hzero : Nat.toDigits 16 0 = ['0'] := rfl
    simp [hex, digits, hdiv, hmod, hzero, Nat.toDigits_of_lt_base h, ofChars, padLeft, List.leftpad, hexDigit,
      ← List.replicate_succ']
  · have hsplit : Nat.toDigits 16 n = Nat.toDigits 16 (n / 16) ++ [Nat.digitChar (n % 16)] := by
      rw [Nat.toDigits_eq_if (by decide), if_neg h]
    simp [hex, digits, hsplit, ofChars, padLeft, List.leftpad, hexDigit]

theorem hex_four {n : Nat} (h : n < 0x10000) :
    hex 4 n = [hexDigit (n / 16 / 16 / 16), hexDigit (n / 16 / 16 % 16), hexDigit (n / 16 % 16), hexDigit (n % 16)] := by
  rw [hex_succ 2, hex_succ 1, hex_succ 0, hex_one (by omega)]
  rfl

end Text

namespace Json

open Text (hexDigit)

theorem hexValue?_hexDigit : ∀ n < 16, hexValue? (hexDigit n) = some n := by decide

/-! ## Code units -/

theorem mapRead_mapRead {α β γ : Type} (f : β → γ) (g : α → β) (r : Except Fault (Reading α)) :
    mapRead f (mapRead g r) = mapRead (fun a => f (g a)) r := by
  cases r <;> rfl

theorem readString_unit {c : CodePoint} {digit seen : Nat} (h : hexValue? c = some digit) (hs : seen < 3)
    (start : Nat) (high : Waiting) (mark code position : Nat) (t : Text) :
    readString start high (.unit mark seen code) position (c :: t) =
      readString start high (.unit mark (seen + 1) (code * 0x10 + digit)) (position + 1) t := by
  rw [readString, h]
  simp [hs]

theorem readString_unit_last {c : CodePoint} {digit : Nat} (h : hexValue? c = some digit) {t : Text} (ht : t ≠ [])
    (start : Nat) (high : Waiting) (mark code position : Nat) :
    readString start high (.unit mark 3 code) position (c :: t) =
      mapRead ((high.next (code * 0x10 + digit)).1 ++ ·)
        (readString start (high.next (code * 0x10 + digit)).2 .plain (position + 1) t) := by
  rw [readString, h]
  simp [ht]

/-- An escaped code unit is read as that unit, unless the text ends with it. -/
theorem readString_escapeUnit {n : Nat} (hn : n < 0x10000) (start : Nat) (high : Waiting) (position : Nat)
    {rest : Text} (hrest : rest ≠ []) :
    readString start high .plain position (escapeUnit n ++ rest) =
      mapRead ((high.next n).1 ++ ·) (readString start (high.next n).2 .plain (position + 6) rest) := by
  have hcode : (((0 * 0x10 + n / 16 / 16 / 16) * 0x10 + n / 16 / 16 % 16) * 0x10 + n / 16 % 16) * 0x10 + n % 16 = n := by
    omega
  have hopen (t : Text) : readString start high .plain position ('\\' :: 'u' :: t) =
      readString start high (.unit (position + 1) 0 0) (position + 2) t := rfl
  rw [escapeUnit, Text.hex_four hn]
  simp only [List.cons_append, List.nil_append]
  rw [hopen, readString_unit (hexValue?_hexDigit _ (by omega)) (by decide),
    readString_unit (hexValue?_hexDigit _ (by omega)) (by decide),
    readString_unit (hexValue?_hexDigit _ (by omega)) (by decide),
    readString_unit_last (hexValue?_hexDigit _ (by omega)) hrest, hcode]

/-! ## Code units that wait -/

theorem Waiting.next_of_high (high : Waiting) {n : Nat} (h : 0xd800 ≤ n ∧ n < 0xdc00) :
    high.next n = (high.flush, some n) := by
  have hlow : ¬(0xdc00 ≤ n ∧ n < 0xe000) := by omega
  cases high <;> simp [Waiting.next, Waiting.flush, h, hlow]

theorem Waiting.next_of_other {high : Waiting} {n : Nat} (h : ¬(0xd800 ≤ n ∧ n < 0xdc00))
    (hlow : high = none ∨ ¬(0xdc00 ≤ n ∧ n < 0xe000)) : high.next n = (high.flush ++ [.ofNat n], none) := by
  cases high with
  | none => simp [Waiting.next, Waiting.flush, h]
  | some m => simp [Waiting.next, Waiting.flush, h, hlow.resolve_left (by simp)]

theorem Waiting.next_pair (c : CodePoint) (h : 0x10000 ≤ c.toNat) :
    Waiting.next (some (0xd800 + (c.toNat - 0x10000) / 0x400)) (0xdc00 + (c.toNat - 0x10000) % 0x400) =
      ([c], none) := by
  have hlow : 0xdc00 ≤ 0xdc00 + (c.toNat - 0x10000) % 0x400 ∧ 0xdc00 + (c.toNat - 0x10000) % 0x400 < 0xe000 := by
    omega
  have hcode : 0x10000 + (0xd800 + (c.toNat - 0x10000) / 0x400 - 0xd800) * 0x400 +
      (0xdc00 + (c.toNat - 0x10000) % 0x400 - 0xdc00) = c.toNat := by
    omega
  rw [Waiting.next, if_pos hlow, hcode, CodePoint.ofNat_toNat]

/-! ## Characters -/

theorem readString_letter {c d : CodePoint} (h : escaped? d = some c) (hu : d ≠ .scalar 'u') (start : Nat)
    (high : Waiting) (position : Nat) (rest : Text) :
    readString start high .plain position ('\\' :: d :: rest) =
      mapRead (high.flush ++ c :: ·) (readString start none .plain (position + 2) rest) := by
  have hopen : readString start high .plain position ('\\' :: d :: rest) =
      readString start high .escape (position + 1) (d :: rest) := rfl
  rw [hopen, readString, if_neg hu, h]

theorem readString_plain {c : CodePoint} (hquote : c ≠ .scalar '"') (hback : c ≠ .scalar '\\') (hn : 0x20 ≤ c.toNat)
    (start : Nat) (high : Waiting) (position : Nat) (rest : Text) :
    readString start high .plain position (c :: rest) =
      mapRead (high.flush ++ c :: ·) (readString start none .plain (position + 1) rest) := by
  rw [readString, if_neg hquote, if_neg hback, if_neg (Nat.not_lt.2 hn)]

theorem writeChar_cases (c : CodePoint) :
    (∃ d, writeChar c = [.scalar '\\', d] ∧ escaped? d = some c ∧ d ≠ .scalar 'u' ∧ Text.isPlainAscii d = true) ∨
      (writeChar c = [c] ∧ c ≠ .scalar '"' ∧ c ≠ .scalar '\\' ∧ Text.isPlainAscii c = true) ∨
        writeChar c = escapeUnits c := by
  unfold writeChar
  by_cases h : c = '"' ∨ c = '\\'
  · rw [if_pos h]
    refine .inl ⟨c, rfl, ?_⟩
    rcases h with rfl | rfl <;> decide
  rw [if_neg h]
  split
  · next h => exact .inl ⟨'n', rfl, by subst h; decide⟩
  split
  · next h => exact .inl ⟨'r', rfl, by subst h; decide⟩
  split
  · next h => exact .inl ⟨'t', rfl, by subst h; decide⟩
  split
  · next h => exact .inl ⟨'b', rfl, by subst h; decide⟩
  split
  · next h => exact .inl ⟨'f', rfl, by subst h; decide⟩
  split
  · next hn =>
    rw [not_or] at h
    refine .inr (.inl ⟨rfl, h.1, h.2, ?_⟩)
    simp only [Text.isPlainAscii, Bool.and_eq_true, decide_eq_true_eq]
    omega
  · exact .inr (.inr rfl)

theorem escapeUnit_append_ne_nil (n : Nat) (t : Text) : escapeUnit n ++ t ≠ [] := nofun

theorem escapeUnits_of_lt {c : CodePoint} (h : c.toNat < 0x10000) : escapeUnits c = escapeUnit c.toNat := if_pos h

theorem escapeUnits_of_not_lt {c : CodePoint} (h : ¬c.toNat < 0x10000) :
    escapeUnits c = escapeUnit (0xd800 + (c.toNat - 0x10000) / 0x400) ++
      escapeUnit (0xdc00 + (c.toNat - 0x10000) % 0x400) := if_neg h

theorem flush_map_toNat (before : Option CodePoint) :
    Waiting.flush (before.map CodePoint.toNat) = before.toList := by
  cases before <;> simp [Waiting.flush, CodePoint.ofNat_toNat]

/-- One character is read back, or it waits if it is a first half. What waited before it comes first. -/
theorem readString_writeChar {before : Option CodePoint} {c : CodePoint} (hlow : before = none ∨ ¬c.IsLow)
    (start position : Nat) {rest : Text} (hrest : rest ≠ []) :
    ∃ (done : Text) (waiting : Option CodePoint) (position' : Nat),
      done ++ waiting.toList = before.toList ++ [c] ∧ (∀ d ∈ waiting, d.IsHigh) ∧
        readString start (before.map CodePoint.toNat) .plain position (writeChar c ++ rest) =
          mapRead (done ++ ·) (readString start (waiting.map CodePoint.toNat) .plain position' rest) := by
  rcases writeChar_cases c with ⟨d, hw, hd, hu, _⟩ | ⟨hw, hquote, hback, hplain⟩ | hw
  · refine ⟨before.toList ++ [c], none, position + 2, by simp, by simp, ?_⟩
    rw [hw, List.cons_append, List.cons_append, List.nil_append, readString_letter hd hu, flush_map_toNat]
    simp
  · have hn : 0x20 ≤ c.toNat := by
      simp only [Text.isPlainAscii, Bool.and_eq_true, decide_eq_true_eq] at hplain
      exact hplain.1
    refine ⟨before.toList ++ [c], none, position + 1, by simp, by simp, ?_⟩
    rw [hw, List.cons_append, List.nil_append, readString_plain hquote hback hn, flush_map_toNat]
    simp
  by_cases hbmp : c.toNat < 0x10000
  · rw [hw, escapeUnits_of_lt hbmp]
    by_cases hhigh : c.IsHigh
    · refine ⟨before.toList, some c, position + 6, rfl, by simpa using hhigh, ?_⟩
      rw [readString_escapeUnit hbmp _ _ _ hrest, Waiting.next_of_high _ hhigh, flush_map_toNat]
      rfl
    · have hwaits : before.map CodePoint.toNat = none ∨ ¬(0xdc00 ≤ c.toNat ∧ c.toNat < 0xe000) :=
        hlow.imp (fun h => by rw [h]; rfl) id
      refine ⟨before.toList ++ [c], none, position + 6, by simp, by simp, ?_⟩
      rw [readString_escapeUnit hbmp _ _ _ hrest, Waiting.next_of_other hhigh hwaits, flush_map_toNat,
        CodePoint.ofNat_toNat]
      rfl
  · -- beyond sixteen bits the first unit waits for the second, and together they are the character
    have hc := CodePoint.toNat_lt c
    refine ⟨before.toList ++ [c], none, position + 6 + 6, by simp, by simp, ?_⟩
    rw [hw, escapeUnits_of_not_lt hbmp, List.append_assoc,
      readString_escapeUnit (by omega) _ _ _ (escapeUnit_append_ne_nil _ _), Waiting.next_of_high _ (by omega),
      readString_escapeUnit (by omega) _ _ _ hrest, Waiting.next_pair c (by omega), mapRead_mapRead, flush_map_toNat]
    simp

theorem readString_flatMap_writeChar (start : Nat) (rest t : Text) {before : Option CodePoint}
    (hb : ∀ c ∈ before, c.IsHigh) (hu : Text.Unpaired (before.toList ++ t)) (position : Nat) :
    ∃ position', readString start (before.map CodePoint.toNat) .plain position
        (t.flatMap writeChar ++ .scalar '"' :: rest) = .ok ⟨before.toList ++ t, position', rest⟩ := by
  induction t generalizing before position with
  | nil =>
    refine ⟨position + 1, ?_⟩
    rw [List.flatMap_nil, List.nil_append, readString, if_pos rfl, flush_map_toNat, List.append_nil]
  | cons c t ih =>
    have hlow : before = none ∨ ¬c.IsLow := by
      cases before with
      | none => exact .inl rfl
      | some h => exact .inr fun hc => hu.1 ⟨hb h rfl, hc⟩
    have hrest : t.flatMap writeChar ++ .scalar '"' :: rest ≠ [] := by simp
    obtain ⟨done, waiting, position₁, hdone, hwaiting, hstep⟩ := readString_writeChar hlow start position hrest
    have hwhole : before.toList ++ c :: t = done ++ (waiting.toList ++ t) := by
      rw [← List.append_assoc, hdone, List.append_assoc]
      rfl
    rw [hwhole] at hu ⊢
    obtain ⟨position', hread⟩ := ih hwaiting hu.right position₁
    refine ⟨position', ?_⟩
    rw [List.flatMap_cons, List.append_assoc, hstep, hread]
    rfl

theorem readString_writeString {t : Text} (h : t.Unpaired) (start position : Nat) (rest : Text) :
    ∃ position', readString start none .plain position (t.flatMap writeChar ++ .scalar '"' :: rest) =
      .ok ⟨t, position', rest⟩ :=
  @readString_flatMap_writeChar start rest t none nofun h position

end Json

end Typeahead
