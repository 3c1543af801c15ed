import Typeahead.Proofs.LaidOut
import Typeahead.Proofs.PieceText
import Typeahead.Proofs.Rendering

/-!
# What a field shows of the length

A field stands for the length itself, for its text, or for something that has nothing to do with it. It shows the
length in full, or cut, or in a presentation that has no room for all lengths. But for the last kind, a field whose
specification is the same for all lengths shows something for each of those that can be written, and never less of
it for a larger one.
-/

namespace Typeahead.Template

open Text (Shows)

theorem base_ne_ten_or_decimal {c : CodePoint} (h : c ∈ ("bdoxXn" : Text)) :
    (baseOf c).1 ≠ 10 ∨ c ∈ ("dn" : Text) := by
  revert c
  decide

/-! ## Lengths -/

def Positive (n : Nat) : Prop := 0 < n

/-- A length that is not too long to be written in decimal. -/
def Writable (n : Nat) : Prop := 0 < n ∧ Text.isWritable n = true

theorem length_ofInt_le {n : Nat} (h : Text.isWritable n = true) : (Text.ofInt n).length ≤ Text.digitLimit := by
  simpa [Text.isWritable, Text.ofInt] using h

theorem length_ofInt_mono {m n : Nat} (h : m ≤ n) : (Text.ofInt m).length ≤ (Text.ofInt n).length :=
  Text.length_digits_mono (by decide) h

theorem decimal_eq_ok {n : Int} (h : Text.isWritable n = true) : decimal n = .ok (Text.ofInt n) := if_pos h

theorem decimal_of_not_writable {n : Int} (h : Text.isWritable n = false) : ∃ e, decimal n = .error e :=
  ⟨_, if_neg (by rw [h]; exact Bool.false_ne_true)⟩

section
variable [Host]

/-! ## Values -/

/-- The field lays the length out as a number. -/
def LaysNumber (name : Text) (conversion : Option CodePoint) : Prop :=
  ∀ n, fieldValue n name conversion = .ok (.whole n)

/-- The field lays the text of the length out. -/
def LaysText (name : Text) (conversion : Option CodePoint) : Prop :=
  ∀ n, fieldValue n name conversion = .text <$> decimal n

/-- What the field lays out has nothing to do with the length. -/
def LaysOther (name : Text) (conversion : Option CodePoint) : Prop := ∃ r, ∀ n, fieldValue n name conversion = r

def Piece.Steady : Piece → Prop
  | .field name conversion _ => LaysNumber name conversion ∨ LaysText name conversion ∨ LaysOther name conversion
  | _ => True

theorem argument_cases (first : Text) : (∀ n, argument n first = .ok (.number n)) ∨ ∃ e, ∀ n, argument n first = .error e := by
  unfold argument
  cases position? first with
  | error e => exact .inr ⟨e, fun n => rfl⟩
  | ok position =>
    cases position with
    | some position => exact .inr ⟨.noPosition position, fun n => rfl⟩
    | none =>
      simp only [ok_bind]
      split
      · exact .inr ⟨_, fun n => rfl⟩
      split
      · exact .inl fun n => rfl
      · exact .inr ⟨_, fun n => rfl⟩

theorem steady_of_plain {name spec : Text} {conversion : Option CodePoint} (h : ¬GoesOn name) :
    (Piece.field name conversion spec).Steady := by
  have hvalue (n : Int) : fieldValue n name conversion = argument n name >>= (convert · conversion) :=
    congrArg (· >>= (convert · conversion)) (fieldTarget_of_plain n h)
  simp only [Piece.Steady, LaysNumber, LaysText, LaysOther, hvalue]
  rcases argument_cases name with hnumber | ⟨e, herror⟩
  · simp only [hnumber, ok_bind, convert]
    split
    · exact .inl fun n => rfl
    · exact .inl fun n => rfl
    · split
      · exact .inr (.inl fun n => rfl)
      · exact .inr (.inr ⟨_, fun n => rfl⟩)
  · exact .inr (.inr ⟨.error e, fun n => by rw [herror]; rfl⟩)

/-! ## Kinds of fields -/

def Piece.FixedSpec : Piece → Prop
  | .field _ _ spec => ∀ n : Nat, 0 < n → specText n spec = specText 1 spec
  | _ => True

theorem fixedSpec_of_plain {name spec : Text} {conversion : Option CodePoint} (h : .scalar '{' ∉ spec) :
    (Piece.field name conversion spec).FixedSpec := by
  intro n hn
  rw [specText, specText, if_neg h, if_neg h]

def Piece.Limited : Piece → Prop
  | .field name conversion spec => LaysNumber name conversion ∧ ∃ shown s, specText 1 spec = .ok shown ∧ shown ≠ [] ∧
      Spec.read wholeSubject shown = .ok s ∧ s.presentation ∈ ("ceEfFgG%" : Text)
  | _ => False

def Piece.Decimal : Piece → Prop
  | .field name conversion spec => LaysText name conversion ∨
      LaysNumber name conversion ∧ ∃ shown, specText 1 spec = .ok shown ∧
        (shown = [] ∨ ∃ s, Spec.read wholeSubject shown = .ok s ∧ s.presentation ∈ ("dn" : Text))
  | _ => False

/-- The length is shown by all its digits in a base, and they can be told from what fills the place. -/
def Piece.InFull (base n : Nat) : Piece → Prop
  | .field name conversion spec => ∃ shown, specText n spec = .ok shown ∧
      (LaysNumber name conversion ∧ (shown = [] ∧ base = 10 ∨ ∃ s, shown ≠ [] ∧
          Spec.read wholeSubject shown = .ok s ∧ s.presentation ∈ ("bdoxXn" : Text) ∧
          base = (baseOf s.presentation).1 ∧ s.KeepsDigits base) ∨
        LaysText name conversion ∧ base = 10 ∧ (shown = [] ∨ ∃ s, Spec.read textSubject shown = .ok s ∧
          (∀ places, s.precision = some places → Text.digitLimit ≤ places) ∧ s.KeepsDigits 10))
  | _ => False

/-- Only the first digits of a long length are shown. -/
def Piece.Cut : Piece → Prop
  | .field name conversion spec => LaysText name conversion ∧ ∃ shown s places, specText 1 spec = .ok shown ∧
      shown ≠ [] ∧ Spec.read textSubject shown = .ok s ∧ s.precision = some places ∧ places < Text.digitLimit
  | _ => False

/-! ## Formats -/

section
variable {shown t : Text} {n : Int}

theorem format_whole_nil : (Value.whole n : Value Host.Object).format [] = (fun t => [Block.once t]) <$> decimal n := rfl

theorem format_whole_of_read {s : Spec} (hne : shown ≠ []) (hread : Spec.read wholeSubject shown = .ok s) :
    (Value.whole n : Value Host.Object).format shown = (layoutWhole s n).mapError .layout := by
  simp only [Value.format, if_neg hne, hread]

theorem format_text_of_read {s : Spec} (hne : shown ≠ []) (hread : Spec.read textSubject shown = .ok s) :
    (Value.text t : Value Host.Object).format shown = (layoutText s t).mapError .layout := by
  simp only [Value.format, if_neg hne, hread]

theorem read_of_format_whole {blocks : Blocks} (hne : shown ≠ [])
    (h : (Value.whole n : Value Host.Object).format shown = .ok blocks) :
    ∃ s, Spec.read wholeSubject shown = .ok s ∧ layoutWhole s n = .ok blocks := by
  cases hread : Spec.read wholeSubject shown with
  | error e => simp [Value.format, if_neg hne, hread] at h
  | ok s =>
    rw [format_whole_of_read hne hread, mapError_eq_ok_iff] at h
    exact ⟨s, rfl, h⟩

theorem read_of_format_text {blocks : Blocks} (hne : shown ≠ [])
    (h : (Value.text t : Value Host.Object).format shown = .ok blocks) :
    ∃ s, Spec.read textSubject shown = .ok s ∧ layoutText s t = .ok blocks := by
  cases hread : Spec.read textSubject shown with
  | error e => simp [Value.format, if_neg hne, hread] at h
  | ok s =>
    rw [format_text_of_read hne hread, mapError_eq_ok_iff] at h
    exact ⟨s, rfl, h⟩

end

section
variable {name spec shown x : Text} {conversion : Option CodePoint} {n : Nat}

theorem pieceText_field {value : Value Host.Object} (hvalue : fieldValue n name conversion = .ok value)
    (hshown : specText n spec = .ok shown) :
    pieceText n (.field name conversion spec) = Blocks.toText <$> value.format shown := by
  rw [pieceText, hvalue, ok_bind, hshown, ok_bind]

theorem format_of_pieceText {value : Value Host.Object} (hvalue : fieldValue n name conversion = .ok value)
    (hshown : specText n spec = .ok shown) (h : pieceText n (.field name conversion spec) = .ok x) :
    ∃ blocks, value.format shown = .ok blocks ∧ blocks.toText = x := by
  rw [pieceText_field hvalue hshown] at h
  obtain ⟨blocks, hformat, hx⟩ := map_eq_ok_iff.1 h
  exact ⟨blocks, hformat, hx.symm⟩

theorem pieceText_error_of_format {value : Value Host.Object} (hvalue : fieldValue n name conversion = .ok value)
    (hshown : specText n spec = .ok shown) (h : ∃ e, value.format shown = .error e) :
    ∃ e, pieceText n (.field name conversion spec) = .error e := by
  obtain ⟨e, he⟩ := h
  rw [pieceText_field hvalue hshown, he]
  exact ⟨e, rfl⟩

theorem LaysText.fieldValue_eq (h : LaysText name conversion) (hn : Text.isWritable n = true) :
    fieldValue n name conversion = .ok (.text (Text.ofInt n)) := by
  rw [h n, decimal_eq_ok hn]
  rfl

theorem LaysText.isWritable (h : LaysText name conversion) (hok : pieceText n (.field name conversion spec) = .ok x) :
    Text.isWritable n = true := by
  refine Decidable.byContradiction fun hn => ?_
  obtain ⟨e, he⟩ := decimal_of_not_writable (Bool.eq_false_iff.2 hn)
  rw [pieceText, h n, he] at hok
  cases hok

theorem pieceText_plain (hlays : LaysNumber name conversion ∨ LaysText name conversion)
    (hshown : specText n spec = .ok []) (hn : Text.isWritable n = true) :
    pieceText n (.field name conversion spec) = .ok (Text.ofInt n) := by
  have honce : Blocks.toText [.once (Text.ofInt n)] = Text.ofInt n := by simp
  rcases hlays with hnumber | htext
  · rw [pieceText_field (hnumber n) hshown, format_whole_nil, decimal_eq_ok hn]
    exact congrArg Except.ok honce
  · rw [pieceText_field (htext.fieldValue_eq hn) hshown]
    exact congrArg Except.ok honce

section
variable {s : Spec} {m : Nat} (hne : shown ≠ []) (hm : specText m spec = .ok shown)
  (h : pieceText m (.field name conversion spec) = .ok x) (hn : specText n spec = .ok shown)
include hne hm h hn

theorem pieceText_digits (hnumber : LaysNumber name conversion) (hread : Spec.read wholeSubject shown = .ok s)
    (hp : s.presentation ∈ ("bdoxXn" : Text)) (hroom : s.HasRoom n) :
    pieceText n (.field name conversion spec) = .ok (shownWhole s n).toText := by
  obtain ⟨blocks, hformat, -⟩ := format_of_pieceText (hnumber m) hm h
  rw [format_whole_of_read hne hread, mapError_eq_ok_iff] at hformat
  rw [pieceText_field (hnumber n) hn, format_whole_of_read hne hread, layoutWhole_of_ok hp hformat hroom]
  rfl

theorem pieceText_text (htext : LaysText name conversion) (hread : Spec.read textSubject shown = .ok s)
    (hwritable : Text.isWritable n = true) :
    pieceText n (.field name conversion spec) = .ok (shownText s (Text.ofInt n)).toText := by
  obtain ⟨blocks, hformat, -⟩ := format_of_pieceText (htext.fieldValue_eq (htext.isWritable h)) hm h
  rw [format_text_of_read hne hread, mapError_eq_ok_iff] at hformat
  rw [pieceText_field (htext.fieldValue_eq hwritable) hn, format_text_of_read hne hread, layoutText_of_ok hformat]
  rfl

end

end

/-! ## Fields that show all lengths -/

/-- Something is shown for each of the lengths, and no less of it for a larger one. -/
def Widens (L : Nat → Prop) (p : Piece) : Prop :=
  ∃ g : Nat → Text, (∀ n, L n → pieceText n p = .ok (g n)) ∧ ∀ m n, m ≤ n → (g m).length ≤ (g n).length

section
variable {L : Nat → Prop} {p : Piece}

theorem widens_of_constant {x : Text} (h : ∀ n, L n → pieceText n p = .ok x) : Widens L p :=
  ⟨fun _ => x, h, fun _ _ _ => Nat.le_refl _⟩

theorem widens_of_blocks {blocks : Nat → Blocks} (h : ∀ n, L n → pieceText n p = .ok (blocks n).toText)
    (hlength : ∀ m n, m ≤ n → (blocks m).length ≤ (blocks n).length) : Widens L p :=
  ⟨_, h, by simpa only [Blocks.length_toText] using hlength⟩

/-- What a field cannot show of the length one is a fault for all lengths, but there may be more of them: of a
presentation without room for all numbers, and of decimal digits where there are too many. -/
theorem widens_of_not_limited (hpos : ∀ n, L n → 0 < n) (hroom : p.Decimal → ∀ n, L n → Text.isWritable n = true)
    (hsteady : p.Steady) (hfixed : p.FixedSpec) {x : Text} (h : pieceText 1 p = .ok x) (hlimited : ¬p.Limited) :
    Widens L p := by
  cases p with
  | char c => exact widens_of_constant fun n _ => rfl
  | broken fault => cases h
  | field name conversion spec =>
    obtain ⟨value, hvalue, hrest⟩ := exists_of_bind_eq_ok h
    obtain ⟨shown, hshown, -⟩ := exists_of_bind_eq_ok hrest
    have hspec (n : Nat) (hn : L n) : specText n spec = .ok shown := (hfixed n (hpos n hn)).trans hshown
    have hplain (hlays : LaysNumber name conversion ∨ LaysText name conversion) (hnil : shown = [])
        (hwritable : ∀ n, L n → Text.isWritable n = true) : Widens L (.field name conversion spec) := by
      subst hnil
      exact ⟨_, fun n hn => pieceText_plain hlays (hspec n hn) (hwritable n hn), fun m n => length_ofInt_mono⟩
    rcases hsteady with hnumber | htext | ⟨r, hr⟩
    · by_cases hne : shown = []
      · exact hplain (.inl hnumber) hne (hroom (.inr ⟨hnumber, shown, hshown, .inl hne⟩))
      obtain ⟨blocks, hformat, -⟩ := format_of_pieceText (n := 1) (hnumber 1) hshown h
      obtain ⟨s, hread, hlayout⟩ := read_of_format_whole hne hformat
      have hp : s.presentation ∈ ("bdoxXn" : Text) :=
        (presentation_of_layoutWhole hlayout).resolve_right fun hp =>
          hlimited ⟨hnumber, shown, s, hshown, hne, hread, hp⟩
      have hhas (n : Nat) (hn : L n) : s.HasRoom n := fun hbase =>
        hroom (.inr ⟨hnumber, shown, hshown, .inr ⟨s, hread, (base_ne_ten_or_decimal hp).resolve_left (not_not_intro hbase)⟩⟩)
          n hn
      exact widens_of_blocks (fun n hn => pieceText_digits (m := 1) hne hshown h (hspec n hn) hnumber hread hp (hhas n hn))
        fun m n => length_shownWhole_mono s
    · have hwritable := hroom (.inl htext)
      by_cases hne : shown = []
      · exact hplain (.inr htext) hne hwritable
      obtain ⟨blocks, hformat, -⟩ := format_of_pieceText (n := 1) (htext.fieldValue_eq (by decide)) hshown h
      obtain ⟨s, hread, -⟩ := read_of_format_text hne hformat
      exact widens_of_blocks
        (fun n hn => pieceText_text (m := 1) hne hshown h (hspec n hn) htext hread (hwritable n hn))
        fun m n hmn => length_shownText_mono s (length_ofInt_mono hmn)
    · refine widens_of_constant (x := x) fun n hn => ?_
      rw [← h, pieceText, pieceText, hr, hr, hspec n hn, hshown]

end

/-! ## Fields that cannot show some lengths -/

section
variable {p : Piece} (hfixed : p.FixedSpec)
include hfixed

theorem pieceText_beyond (hlimited : p.Limited) : ∃ e, pieceText beyond p = .error e := by
  cases p with
  | char c => exact hlimited.elim
  | broken fault => exact hlimited.elim
  | field name conversion spec =>
    obtain ⟨hnumber, shown, s, hshown, hne, hread, hp⟩ := hlimited
    obtain ⟨e, he⟩ := layoutWhole_beyond hp
    have hpos : 0 < beyond := by decide +kernel
    refine pieceText_error_of_format (n := beyond) (hnumber beyond) ((hfixed beyond hpos).trans hshown) ⟨.layout e, ?_⟩
    rw [format_whole_of_read hne hread, he]
    rfl

theorem pieceText_of_not_writable (hdecimal : p.Decimal) {n : Nat} (hpos : 0 < n) (hn : Text.isWritable n = false) :
    ∃ e, pieceText n p = .error e := by
  cases p with
  | char c => exact hdecimal.elim
  | broken fault => exact hdecimal.elim
  | field name conversion spec =>
    obtain ⟨e, he⟩ := decimal_of_not_writable hn
    rcases hdecimal with htext | ⟨hnumber, shown, hshown, hshows⟩
    · rw [pieceText, htext n, he]
      exact ⟨e, rfl⟩
    refine pieceText_error_of_format (hnumber n) ((hfixed n hpos).trans hshown) ?_
    by_cases hne : shown = []
    · rw [hne, format_whole_nil, he]
      exact ⟨e, rfl⟩
    obtain ⟨s, hread, hp⟩ := hshows.resolve_left hne
    have hdigits : ∀ c ∈ ("dn" : Text), c ∈ ("bdoxXn" : Text) ∧ (baseOf c).1 = 10 := by decide
    obtain ⟨hin, hbase⟩ := hdigits _ hp
    have hroom : ¬s.HasRoom n := fun hroom => by
      rw [hroom hbase] at hn
      cases hn
    obtain ⟨f, hf⟩ := layoutWhole_of_no_room hin hroom
    rw [format_whole_of_read hne hread, hf]
    exact ⟨_, rfl⟩

end

/-! ## Fields that tell lengths apart, and fields that do not -/

section
variable {name spec shown x : Text} {conversion : Option CodePoint} {n : Nat} {s : Spec} (hne : shown ≠ [])
  (hshown : specText n spec = .ok shown) (h : pieceText n (.field name conversion spec) = .ok x)
include hne hshown h

theorem shows_digits_of_pieceText (hnumber : LaysNumber name conversion) (hread : Spec.read wholeSubject shown = .ok s)
    (hp : s.presentation ∈ ("bdoxXn" : Text)) (hkeeps : s.KeepsDigits (baseOf s.presentation).1) :
    Shows (baseOf s.presentation).1 n x := by
  have hroom : s.HasRoom n := by
    refine Classical.byContradiction fun hno => ?_
    obtain ⟨f, hf⟩ := layoutWhole_of_no_room hp hno
    obtain ⟨e, he⟩ := pieceText_error_of_format (hnumber n) hshown
      ⟨.layout f, by rw [format_whole_of_read hne hread, hf]; rfl⟩
    cases h.symm.trans he
  rw [pieceText_digits hne hshown h hshown hnumber hread hp hroom] at h
  cases h
  exact shows_shownWhole hkeeps n

theorem shows_text_of_pieceText (htext : LaysText name conversion) (hread : Spec.read textSubject shown = .ok s)
    (hwhole : ∀ places, s.precision = some places → Text.digitLimit ≤ places) (hkeeps : s.KeepsDigits 10) :
    Shows 10 n x := by
  have hwritable := htext.isWritable h
  rw [pieceText_text hne hshown h hshown htext hread hwritable] at h
  cases h
  have hlength := length_ofInt_le hwritable
  exact shows_shownText (by decide) hkeeps (fun places hplaces => Nat.le_trans hlength (hwhole places hplaces))
    (Text.shows_digits 10 n)

end

theorem shows_of_inFull {p : Piece} {base n : Nat} (hfull : p.InFull base n) {x : Text} (h : pieceText n p = .ok x) :
    1 < base ∧ base ≤ 16 ∧ Shows base n x := by
  have hplain {name spec : Text} {conversion : Option CodePoint}
      (hlays : LaysNumber name conversion ∨ LaysText name conversion) (hshown : specText n spec = .ok [])
      (hn : Text.isWritable n = true) (h : pieceText n (.field name conversion spec) = .ok x) : Shows 10 n x := by
    rw [pieceText_plain hlays hshown hn] at h
    cases h
    exact Text.shows_digits 10 n
  cases p with
  | char c => exact hfull.elim
  | broken fault => exact hfull.elim
  | field name conversion spec =>
    obtain ⟨shown, hshown, ⟨hnumber, ⟨rfl, rfl⟩ | ⟨s, hne, hread, hp, rfl, hkeeps⟩⟩ | ⟨htext, rfl, hfull⟩⟩ := hfull
    · refine ⟨by decide, by decide, hplain (.inl hnumber) hshown ?_ h⟩
      refine Decidable.byContradiction fun hn => ?_
      obtain ⟨e, he⟩ := decimal_of_not_writable (Bool.eq_false_iff.2 hn)
      rw [pieceText_field (hnumber n) hshown, format_whole_nil, he] at h
      cases h
    · obtain ⟨hb, hb'⟩ := baseOf_bounds s.presentation
      exact ⟨hb, hb', shows_digits_of_pieceText hne hshown h hnumber hread hp hkeeps⟩
    · refine ⟨by decide, by decide, ?_⟩
      by_cases hne : shown = []
      · exact hplain (.inr htext) (hne ▸ hshown) (htext.isWritable h) h
      · obtain ⟨s, hread, hwhole, hkeeps⟩ := hfull.resolve_left hne
        exact shows_text_of_pieceText hne hshown h htext hread hwhole hkeeps

theorem pieceText_ne_of_inFull {p : Piece} {base m n : Nat} (hm : p.InFull base m) (hn : p.InFull base n) (hne : m ≠ n)
    {x : Text} (h : pieceText m p = .ok x) : pieceText m p ≠ pieceText n p := by
  intro heq
  obtain ⟨hb, hb', hm⟩ := shows_of_inFull hm h
  obtain ⟨-, -, hn⟩ := shows_of_inFull hn (heq ▸ h)
  exact hne (hm.unique hb hb' hn)

theorem pieceText_of_cut {p : Piece} (hfixed : p.FixedSpec) (hcut : p.Cut) {x : Text} (h : pieceText 1 p = .ok x) :
    ∃ places < Text.digitLimit, ∀ m n, Writable m → Writable n →
      (Text.ofInt m).take places = (Text.ofInt n).take places → pieceText m p = pieceText n p := by
  cases p with
  | char c => exact hcut.elim
  | broken fault => exact hcut.elim
  | field name conversion spec =>
    obtain ⟨htext, shown, s, places, hshown, hne, hread, hplaces, hlimit⟩ := hcut
    have hpiece (n : Nat) (hn : Writable n) :=
      pieceText_text (m := 1) hne hshown h ((hfixed n hn.1).trans hshown) htext hread hn.2
    refine ⟨places, hlimit, fun m n hm hn hsame => ?_⟩
    rw [hpiece m hm, hpiece n hn]
    simp only [shownText, hplaces, hsame]

end

end Typeahead.Template
