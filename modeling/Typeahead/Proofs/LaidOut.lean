import Typeahead.Proofs.Match
import Typeahead.Proofs.Numeral

/-!
# Whole numbers and texts laid out

In a presentation by digits a specification lays out all numbers or none, but for those that are too long to be
written in decimal, and a larger number never in fewer places. The number can be read back unless what fills the
place passes for one of its digits. A text is laid out likewise, but it may be cut.
-/

namespace Typeahead.Template

open Text (digitsIn digitIn Shows ZerosOnly)

variable {base : Nat}

/-! ## Digits filled up -/

section
variable {grouping : Option (Nat × CodePoint)}

theorem length_fillDigits_mono (hsize : ∀ size separator, grouping = some (size, separator) → 0 < size) (width : Nat)
    {a b : Text} (ha : a ≠ []) (h : a.length ≤ b.length) :
    (fillDigits grouping width a).length ≤ (fillDigits grouping width b).length := by
  have hb : b ≠ [] := by
    rintro rfl
    exact ha (List.length_eq_zero_iff.1 (Nat.le_zero.1 h))
  unfold fillDigits
  rw [if_neg ha, if_neg hb]
  rcases grouping with _ | ⟨size, separator⟩
  · simp only [Blocks.length_cons, Blocks.length_nil, Block.fill, Block.once, List.length_cons, List.length_nil]
    omega
  · have hpos := hsize size separator rfl
    simp only [length_groupAfterZeros hpos _ ha, length_groupAfterZeros hpos _ hb]
    refine Nat.add_le_add ?_ (Nat.div_le_div_right ?_) <;> omega

theorem shows_fillDigits (hb : 1 < base)
    (hsep : ∀ size separator, grouping = some (size, separator) → digitIn base separator = none) (width : Nat)
    {n : Nat} {digits : Text} (hne : digits ≠ []) (h : Shows base n digits) :
    Shows base n (fillDigits grouping width digits).toText := by
  unfold fillDigits
  rw [if_neg hne]
  rcases grouping with _ | ⟨size, separator⟩
  · simpa using h.after (Text.zerosOnly_replicate_zero hb _)
  · exact shows_groupAfterZeros hb (hsep size separator rfl) h _

theorem pos_of_groups {spec : Spec} {size : Nat} {separator : CodePoint} (h : spec.groups = some (size, separator)) :
    0 < size := by
  obtain ⟨g, -, h⟩ := Option.map_eq_some_iff.1 h
  obtain ⟨rfl, rfl⟩ := Prod.mk.inj h
  split <;> decide

theorem digitIn_of_groups {spec : Spec} {size : Nat} {separator : CodePoint}
    (h : spec.groups = some (size, separator)) : digitIn base separator = none := by
  obtain ⟨g, -, h⟩ := Option.map_eq_some_iff.1 h
  obtain ⟨rfl, rfl⟩ := Prod.mk.inj h
  have hnone : Json.hexValue? g.char = none := by cases g <;> decide
  rw [digitIn, hnone]
  rfl

end

/-! ## Places filled up -/

/-- What fills the place does not pass for a digit: it is none, or it is zero and stands before the number. -/
def Spec.KeepsDigits (spec : Spec) (base : Nat) : Prop :=
  digitIn base spec.fill = none ∨ spec.fill = .scalar '0' ∧ (spec.align = .right ∨ spec.align = .afterSign)

theorem shows_place (hb : 1 < base) {spec : Spec} (hkeeps : spec.KeepsDigits base) (width : Nat) {n : Nat} {head : Text}
    {body : Blocks} (hhead : ZerosOnly base head) (hbody : Shows base n body.toText) :
    Shows base n (place spec.align spec.fill width head body).toText := by
  have hzeros (k : Nat) := Text.zerosOnly_replicate_zero hb k
  simp only [place, Blocks.toText_fill, Blocks.toText_once, Blocks.toText_append, Blocks.toText_nil, List.append_nil]
  rcases hkeeps with hnone | ⟨hzero, halign | halign⟩
  · have hfill (k : Nat) : digitsIn base (List.replicate k spec.fill) = [] := Text.digitsIn_replicate_of_none hnone k
    refine Shows.after (Shows.after (Shows.after ?_ ?_) hhead) ?_
    · exact hbody.before (hfill _)
    · exact Text.zerosOnly_of_nil (hfill _)
    · exact Text.zerosOnly_of_nil (hfill _)
  · simp only [hzero, halign, List.replicate_zero, List.nil_append, List.append_nil]
    exact (hbody.after hhead).after (hzeros _)
  · simp only [hzero, halign, List.replicate_zero, List.nil_append, List.append_nil]
    exact (hbody.after (hzeros _)).after hhead

/-! ## Whole numbers -/

section
variable {spec : Spec}

def wholeMark (spec : Spec) : Text := if spec.alternate then (baseOf spec.presentation).2.1 else []

def wholeDigits (spec : Spec) (n : Nat) : Text :=
  let digits := Text.digits (baseOf spec.presentation).1 n
  if (baseOf spec.presentation).2.2 then digits.map CodePoint.toUpper else digits

def wholeHead (spec : Spec) : Text := signText spec.sign false ++ wholeMark spec

/-- A number that is not negative, in a presentation by digits. -/
def shownWhole (spec : Spec) (n : Nat) : Blocks :=
  let head := wholeHead spec
  let width := spec.width.getD 0
  let room := if spec.fill = .scalar '0' ∧ spec.align = .afterSign then width - head.length else 0
  place spec.align spec.fill width head (fillDigits spec.groups room (wholeDigits spec n))

/-- The number is not too long for the base of the presentation; only decimal digits are limited. -/
def Spec.HasRoom (spec : Spec) (n : Nat) : Prop := (baseOf spec.presentation).1 = 10 → Text.isWritable n = true

theorem wholeParts_eq_ok {n : Nat} (hn : spec.HasRoom n) :
    wholeParts spec n = .ok ⟨false, wholeMark spec, wholeDigits spec n, []⟩ := by
  have hroom : ¬((baseOf spec.presentation).1 = 10 ∧ (!Text.isWritable n) = true) := fun ⟨hbase, hlong⟩ => by
    rw [hn hbase] at hlong
    cases hlong
  have hnegative : decide ((n : Int) < 0) = false := by simp
  rw [wholeParts]
  simp only [if_neg hroom, hnegative]
  rfl

theorem wholeParts_of_no_room {n : Nat} (hn : ¬spec.HasRoom n) : wholeParts spec n = .error .numberTooLong := by
  obtain ⟨hbase, hlong⟩ := Classical.not_imp.1 hn
  rw [wholeParts]
  exact if_pos ⟨hbase, by simpa using hlong⟩

section
variable [Host]

theorem checkedWidth_eq_ok {width : Nat} (h : spec.checkedWidth = .ok width) : width = spec.width.getD 0 := by
  unfold Spec.checkedWidth at h
  simp only at h
  split at h <;> cases h
  rfl

theorem layout_wholeParts {width : Nat} (h : spec.checkedWidth = .ok width) {n : Nat} (hn : spec.HasRoom n) :
    wholeParts spec n >>= (·.layout spec spec.groups) = .ok (shownWhole spec n) := by
  rw [wholeParts_eq_ok hn, ok_bind]
  simp only [Parts.layout, h, ok_bind, checkedWidth_eq_ok h, List.append_nil, Blocks.length_nil, Nat.sub_zero]
  rfl

theorem layoutWhole_digits (hp : spec.presentation ∈ ("bdoxXn" : Text)) (n : Int) : layoutWhole spec n =
    if spec.precision.isSome then .error .precisionRefused
    else if spec.plainZero then .error (.plainZeroRefused "integer")
    else wholeParts spec n >>= (·.layout spec spec.groups) := by
  have hdigits : ∀ c ∈ ("bdoxXn" : Text), c ∈ ("bcdoxXn" : Text) ∧ c ≠ 'c' := by decide
  obtain ⟨hin, hne⟩ := hdigits _ hp
  rw [layoutWhole, if_pos hin, if_neg hne]

/-- Whatever keeps a specification from laying a number out, keeps it from laying out any. -/
theorem layoutWhole_of_ok (hp : spec.presentation ∈ ("bdoxXn" : Text)) {m : Nat} {blocks : Blocks}
    (h : layoutWhole spec m = .ok blocks) {n : Nat} (hn : spec.HasRoom n) :
    layoutWhole spec n = .ok (shownWhole spec n) := by
  rw [layoutWhole_digits hp] at h ⊢
  split at h
  · cases h
  rename_i hprecision
  split at h
  · cases h
  rename_i hplain
  rw [if_neg hprecision, if_neg hplain]
  obtain ⟨parts, -, h⟩ := exists_of_bind_eq_ok h
  obtain ⟨width, hwidth, -⟩ := exists_of_bind_eq_ok (show parts.layout spec spec.groups = _ from h)
  exact layout_wholeParts hwidth hn

theorem layoutWhole_of_no_room (hp : spec.presentation ∈ ("bdoxXn" : Text)) {n : Nat} (hn : ¬spec.HasRoom n) :
    ∃ e, layoutWhole spec n = .error e := by
  rw [layoutWhole_digits hp, wholeParts_of_no_room hn]
  split
  · exact ⟨_, rfl⟩
  split
  · exact ⟨_, rfl⟩
  · exact ⟨_, rfl⟩

end

theorem wholeDigits_cases (spec : Spec) (n : Nat) :
    wholeDigits spec n = Text.digits (baseOf spec.presentation).1 n ∨
      wholeDigits spec n = (Text.digits (baseOf spec.presentation).1 n).map CodePoint.toUpper := by
  unfold wholeDigits
  simp only
  split
  · exact .inr rfl
  · exact .inl rfl

theorem baseOf_bounds (c : CodePoint) : 1 < (baseOf c).1 ∧ (baseOf c).1 ≤ 16 := by
  unfold baseOf
  split
  · decide
  split
  · decide
  split
  · decide
  split <;> decide

theorem zerosOnly_mark (c : CodePoint) : ZerosOnly (baseOf c).1 (baseOf c).2.1 := by
  unfold baseOf
  split
  · exact ⟨1, by decide⟩
  split
  · exact ⟨1, by decide⟩
  split
  · exact ⟨1, by decide⟩
  split
  · exact ⟨1, by decide⟩
  · exact ⟨0, rfl⟩

theorem zerosOnly_signText (base : Nat) (sign : Option Sign) : ZerosOnly base (signText sign false) := by
  have hnone (c : Char) (h : Json.hexValue? c = none) : digitsIn base [.scalar c] = [] := by
    simp [digitsIn, digitIn, h]
  rcases sign with _ | sign
  · exact ⟨0, rfl⟩
  cases sign
  · exact Text.zerosOnly_of_nil (hnone '+' (by decide))
  · exact ⟨0, rfl⟩
  · exact Text.zerosOnly_of_nil (hnone ' ' (by decide))

theorem zerosOnly_wholeHead (spec : Spec) : ZerosOnly (baseOf spec.presentation).1 (wholeHead spec) := by
  refine (zerosOnly_signText _ _).append ?_
  unfold wholeMark
  split
  · exact zerosOnly_mark _
  · exact ⟨0, rfl⟩

theorem wholeDigits_ne_nil (spec : Spec) (n : Nat) : wholeDigits spec n ≠ [] := by
  rcases wholeDigits_cases spec n with h | h <;> simp [h, Text.digits_ne_nil]

theorem length_shownWhole_mono (spec : Spec) {m n : Nat} (h : m ≤ n) :
    (shownWhole spec m).length ≤ (shownWhole spec n).length := by
  have hdigits : (wholeDigits spec m).length ≤ (wholeDigits spec n).length := by
    have hmono := Text.length_digits_mono (baseOf_bounds spec.presentation).1 h
    unfold wholeDigits
    simp only
    split <;> simpa using hmono
  have hsize : ∀ size separator, spec.groups = some (size, separator) → 0 < size := fun _ _ => pos_of_groups
  have hbody := length_fillDigits_mono hsize
    (if spec.fill = .scalar '0' ∧ spec.align = .afterSign then spec.width.getD 0 - (wholeHead spec).length else 0)
    (wholeDigits_ne_nil spec m) hdigits
  simp only [shownWhole, length_place]
  omega

theorem shows_shownWhole (hkeeps : spec.KeepsDigits (baseOf spec.presentation).1) (n : Nat) :
    Shows (baseOf spec.presentation).1 n (shownWhole spec n).toText := by
  obtain ⟨hb, hb'⟩ := baseOf_bounds spec.presentation
  have hdigits : Shows (baseOf spec.presentation).1 n (wholeDigits spec n) := by
    rcases wholeDigits_cases spec n with h | h <;> rw [h]
    · exact Text.shows_digits _ n
    · exact (Text.shows_digits _ n).of_digitsIn (Text.digitsIn_upper hb hb' n)
  have hsep : ∀ size separator, spec.groups = some (size, separator) →
      digitIn (baseOf spec.presentation).1 separator = none := fun _ _ => digitIn_of_groups
  have hbody (room : Nat) := shows_fillDigits hb hsep room (wholeDigits_ne_nil spec n) hdigits
  exact shows_place hb hkeeps _ (zerosOnly_wholeHead spec) (hbody _)

end

/-! ## Beyond characters and floating point -/

/-- A number that is too large for a character and for floating point. -/
def beyond : Nat := Nat.pow 2 1024

theorem ofInt_beyond : Number.Binary64.ofInt beyond = .infinite false := by
  decide +kernel

theorem characterParts_beyond (spec : Spec) : ∃ e, characterParts spec beyond = .error e := by
  have hlarge : (Number.wordLimit : Int) ≤ beyond := by decide +kernel
  unfold characterParts
  split
  · exact ⟨_, rfl⟩
  split
  · exact ⟨_, rfl⟩
  rw [if_pos (.inr hlarge)]
  exact ⟨_, rfl⟩

theorem floatParts_beyond (spec : Spec) : floatParts spec beyond = .error .floatTooLarge := by
  unfold floatParts
  rw [ofInt_beyond]

section
variable [Host]

theorem layoutWhole_beyond {spec : Spec} (hp : spec.presentation ∈ ("ceEfFgG%" : Text)) :
    ∃ e, layoutWhole spec beyond = .error e := by
  have hcases : ∀ c ∈ ("ceEfFgG%" : Text), c = 'c' ∨ c ∉ ("bcdoxXn" : Text) ∧ c ∈ ("eEfFgG%" : Text) := by decide
  unfold layoutWhole
  rcases hcases _ hp with hc | ⟨hnot, hin⟩
  · obtain ⟨e, he⟩ := characterParts_beyond spec
    simp only [hc, he]
    split
    · split
      · exact ⟨_, rfl⟩
      split
      · exact ⟨_, rfl⟩
      · exact ⟨e, rfl⟩
    · next h => exact absurd (by decide) h
  · rw [if_neg hnot, if_pos hin, floatParts_beyond]
    exact ⟨_, rfl⟩

theorem presentation_of_layoutWhole {spec : Spec} {n : Int} {blocks : Blocks} (h : layoutWhole spec n = .ok blocks) :
    spec.presentation ∈ ("bdoxXn" : Text) ∨ spec.presentation ∈ ("ceEfFgG%" : Text) := by
  have hcases : ∀ c, c ∈ ("bcdoxXn" : Text) ∨ c ∈ ("eEfFgG%" : Text) →
      c ∈ ("bdoxXn" : Text) ∨ c ∈ ("ceEfFgG%" : Text) := by
    rintro c (hc | hc)
    · revert c
      decide
    · revert c
      decide
  unfold layoutWhole at h
  apply hcases
  split at h
  · next hin => exact .inl hin
  split at h
  · next hin => exact .inr hin
  · cases h

end

/-! ## Texts -/

def shownText (spec : Spec) (t : Text) : Blocks :=
  place spec.align spec.fill (spec.width.getD 0) [] [.once (match spec.precision with | some p => t.take p | none => t)]

theorem layoutText_of_ok [Host] {spec : Spec} {t : Text} {blocks : Blocks} (h : layoutText spec t = .ok blocks) (u : Text) :
    layoutText spec u = .ok (shownText spec u) := by
  unfold layoutText at h ⊢
  iterate 6
    split at h
    · cases h
    rename_i hpass
    rw [if_neg hpass]
  cases hwidth : spec.checkedWidth with
  | error e =>
    rw [hwidth] at h
    cases h
  | ok width =>
    rw [checkedWidth_eq_ok hwidth]
    rfl

theorem length_shownText_mono (spec : Spec) {t u : Text} (h : t.length ≤ u.length) :
    (shownText spec t).length ≤ (shownText spec u).length := by
  simp only [shownText, length_place, Blocks.length_cons, Blocks.length_nil, Block.once]
  split
  · simp only [List.length_take]
    omega
  · omega

theorem shows_shownText (hb : 1 < base) {spec : Spec} (hkeeps : spec.KeepsDigits base)
    {n : Nat} {t : Text} (hwhole : ∀ places, spec.precision = some places → t.length ≤ places) (h : Shows base n t) :
    Shows base n (shownText spec t).toText := by
  have hcut : (match spec.precision with | some places => t.take places | none => t) = t := by
    split
    · next places hplaces => exact List.take_of_length_le (hwhole places hplaces)
    · rfl
  have hbody : Shows base n (Blocks.toText [.once t]) := by simpa using h
  simp only [shownText, hcut]
  exact shows_place hb hkeeps _ ⟨0, rfl⟩ hbody

end Typeahead.Template
