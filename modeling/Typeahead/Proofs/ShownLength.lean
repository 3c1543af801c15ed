import Mathlib.Algebra.Order.BigOperators.Group.List
import Mathlib.Algebra.Order.Group.Nat
import Mathlib.Tactic.Choose
import Typeahead.Proofs.FieldText
import Typeahead.Proofs.Refusal

/-!
# Labels that show the length

Settings are accepted if their label tells the lengths one and two apart. Whether it does so for other lengths is
a question about its fields: each has to show something for all of them, and for any two lengths there has to be a
field that shows them differently. That is enough if no field gets longer from one length to another while a second
one gets shorter. One field that shows the lengths in full tells them all apart; fields that cut them never do.
-/

namespace Typeahead

namespace Template

/-- Where no part is longer than its counterpart, the wholes agree only if all parts do. -/
theorem eq_of_flatMap_eq {α β : Type} {f g : α → List β} {l : List α} (hlength : ∀ a ∈ l, (f a).length ≤ (g a).length)
    (h : l.flatMap f = l.flatMap g) : ∀ a ∈ l, f a = g a := by
  induction l with
  | nil => simp
  | cons a l ih =>
    obtain ⟨hfirst, hrest⟩ := List.forall_mem_cons.1 hlength
    have hle : (l.flatMap f).length ≤ (l.flatMap g).length := by
      rw [List.length_flatMap, List.length_flatMap]
      exact List.sum_le_sum hrest
    have htotal := congrArg List.length h
    simp only [List.flatMap_cons, List.length_append] at htotal
    obtain ⟨ha, hl⟩ := List.append_inj h (by omega)
    exact List.forall_mem_cons.2 ⟨ha, ih hrest hl⟩

theorem mapM_congr {f g : Piece → Except Fault Text} {ps : List Piece} (h : ∀ p ∈ ps, f p = g p) :
    ps.mapM f = ps.mapM g := by
  have hid (f : Piece → Except Fault Text) : ps.mapM f = (ps.map f).mapM id := by
    rw [List.mapM_map]
    rfl
  rw [hid, hid, List.map_congr_left h]

theorem exists_ok_of_mapM {f : Piece → Except Fault Text} {ps : List Piece} {shown : List Text}
    (h : ps.mapM f = .ok shown) : ∀ p ∈ ps, ∃ x, f p = .ok x := by
  induction ps generalizing shown with
  | nil => simp
  | cons p ps ih =>
    rw [List.mapM_cons] at h
    obtain ⟨x, hx, h⟩ := exists_of_bind_eq_ok h
    obtain ⟨rest, hrest, -⟩ := exists_of_bind_eq_ok h
    exact List.forall_mem_cons.2 ⟨⟨x, hx⟩, ih hrest⟩

/-! ## Long lengths -/

theorem ofInt_ten_mul_add {a d : Nat} (ha : 0 < a) (hd : d < 10) :
    Text.ofInt (10 * a + d : Nat) = Text.ofInt a ++ [Text.hexDigit d] := by
  have hdiv : (10 * a + d) / 10 = a := by omega
  have hmod : (10 * a + d) % 10 = d := by omega
  have hlarge : ¬10 * a + d < 10 := by omega
  show Text.digits 10 (10 * a + d) = Text.digits 10 a ++ _
  rw [Text.digits_eq (by decide), if_neg hlarge, hdiv, hmod]

theorem lt_length_ofInt_pow (places : Nat) : places < (Text.ofInt (10 ^ places : Nat)).length := by
  induction places with
  | zero => decide
  | succ places ih =>
    have hpos : 0 < 10 ^ places := Nat.pow_pos (by decide)
    rw [show 10 ^ (places + 1) = 10 * 10 ^ places + 0 by rw [Nat.pow_succ]; omega, ofInt_ten_mul_add hpos (by decide)]
    simpa using ih

theorem isWritable_iff {n : Int} : Text.isWritable n = true ↔ n.natAbs < 10 ^ Text.digitLimit := by
  have hlength : (Text.ofNat n.natAbs).length = (Nat.toDigits 10 n.natAbs).length := List.length_map _
  rw [Text.isWritable, decide_eq_true_eq, hlength]
  exact Nat.length_toDigits_le_iff (by decide) (by decide)

/-- The longest lengths that can be written: they have two digits more than the power of ten that they start with. -/
theorem writable_of_long {places d : Nat} (hplaces : places + 2 = Text.digitLimit) (hd : d < 10) :
    Writable (10 * 10 ^ places + d) := by
  have hpos : 0 < 10 ^ places := Nat.pow_pos (by decide)
  have hlimit : 10 ^ Text.digitLimit = 100 * 10 ^ places := by
    rw [← hplaces, Nat.pow_add, Nat.mul_comm]
  refine ⟨by omega, isWritable_iff.2 ?_⟩
  rw [hlimit, Int.natAbs_natCast]
  omega

section
variable [Host] {t : Text}

/-! ## Pieces one after another -/

theorem render_of_forall_ok {n : Int} {g : Piece → Text} (h : ∀ p ∈ pieces t, pieceText n p = .ok (g p)) :
    render t n = .ok ((pieces t).flatMap g) := by
  rw [render_eq, mapM_congr h]
  exact congrArg (List.flatten <$> ·) List.mapM_pure

theorem exists_ok_of_render {n : Int} {x : Text} (h : render t n = .ok x) :
    ∀ p ∈ pieces t, ∃ x, pieceText n p = .ok x := by
  rw [render_eq] at h
  obtain ⟨shown, hshown, -⟩ := map_eq_ok_iff.1 h
  exact exists_ok_of_mapM hshown

theorem render_congr {m n : Int} (h : ∀ p ∈ pieces t, pieceText m p = pieceText n p) : render t m = render t n := by
  rw [render_eq, render_eq, mapM_congr h]

/-! ## Labels -/

section
variable (L : Nat → Prop) (ps : List Piece)

/-- Each piece shows something for each of the lengths. -/
def ShowsAll : Prop := ∀ p ∈ ps, ∀ n, L n → ∃ x, pieceText n p = .ok x

/-- Whichever two of the lengths, some piece shows them differently. -/
def TellsLengths : Prop := ∀ m n, L m → L n → m ≠ n → ∃ p ∈ ps, pieceText m p ≠ pieceText n p

end

/-- No piece shows more of one length than of another. -/
def NotLonger (m n : Nat) (ps : List Piece) : Prop :=
  ∀ p ∈ ps, ∀ x y, pieceText m p = .ok x → pieceText n p = .ok y → x.length ≤ y.length

/-- From one of the lengths to another no piece gets longer while some other piece gets shorter. -/
def Aligned (L : Nat → Prop) (ps : List Piece) : Prop :=
  ∀ m n, L m → L n → NotLonger m n ps ∨ NotLonger n m ps

/-- What a piece shows has nothing to do with the length. -/
def Piece.Blind (p : Piece) : Prop := ∀ n, Writable n → pieceText n p = pieceText 1 p

section
variable {L : Nat → Prop} {ps : List Piece}

theorem showsAll_of_widens (h : ∀ p ∈ ps, Widens L p) : ShowsAll L ps := by
  intro p hp n hn
  obtain ⟨g, hg, -⟩ := h p hp
  exact ⟨g n, hg n hn⟩

theorem aligned_of_widens (h : ∀ p ∈ ps, Widens L p) : Aligned L ps := by
  have hle {m n : Nat} (hm : L m) (hn : L n) (hmn : m ≤ n) : NotLonger m n ps := by
    intro p hp x y hx hy
    obtain ⟨g, hg, hlength⟩ := h p hp
    cases (hg m hm).symm.trans hx
    cases (hg n hn).symm.trans hy
    exact hlength m n hmn
  exact fun m n hm hn => (Nat.le_total m n).imp (hle hm hn) (hle hn hm)

theorem render_ne_of_notLonger {m n : Nat} (hm : ∀ p ∈ pieces t, ∃ x, pieceText m p = .ok x)
    (hn : ∀ p ∈ pieces t, ∃ x, pieceText n p = .ok x) (hlonger : NotLonger m n (pieces t))
    (htells : ∃ p ∈ pieces t, pieceText m p ≠ pieceText n p) : render t m ≠ render t n := by
  choose! f hf using hm
  choose! g hg using hn
  rw [render_of_forall_ok hf, render_of_forall_ok hg]
  intro heq
  obtain ⟨p, hp, hne⟩ := htells
  have hlength : ∀ p ∈ pieces t, (f p).length ≤ (g p).length := fun p hp => hlonger p hp _ _ (hf p hp) (hg p hp)
  have hsame := eq_of_flatMap_eq hlength (Except.ok.inj heq) p hp
  exact hne (by rw [hf p hp, hg p hp, hsame])

theorem tellsLengths_of_inFull {p : Piece} (hp : p ∈ ps) {base : Nat} (hfull : ∀ n, L n → p.InFull base n)
    (hshows : ShowsAll L ps) : TellsLengths L ps := by
  intro m n hm hn hne
  obtain ⟨x, hx⟩ := hshows p hp m hm
  exact ⟨p, hp, pieceText_ne_of_inFull (hfull m hm) (hfull n hn) hne hx⟩

/-- What is not cut does not depend on the length here, and what is cut does not see the last digit of a long one. -/
theorem not_tellsLengths (hok : ∀ p ∈ ps, ∃ x, pieceText 1 p = .ok x)
    (h : ∀ p ∈ ps, p.Cut ∧ p.FixedSpec ∨ p.Blind) : ¬TellsLengths Writable ps := by
  obtain ⟨most, hmost⟩ : ∃ most, most + 2 = Text.digitLimit := ⟨Text.digitLimit - 2, rfl⟩
  have hzero := writable_of_long (d := 0) hmost (by decide)
  have hone := writable_of_long (d := 1) hmost (by decide)
  have hpos : 0 < 10 ^ most := Nat.pow_pos (by decide)
  intro htells
  obtain ⟨p, hp, hne⟩ := htells _ _ hzero hone (by omega)
  rcases h p hp with ⟨hcut, hfixed⟩ | hblind
  · obtain ⟨x, hx⟩ := hok p hp
    obtain ⟨places, hplaces, hsees⟩ := pieceText_of_cut hfixed hcut hx
    have hshort : places ≤ (Text.ofInt (10 ^ most : Nat)).length :=
      Nat.le_trans (by omega) (lt_length_ofInt_pow most)
    refine hne (hsees _ _ hzero hone ?_)
    rw [ofInt_ten_mul_add hpos (by decide), ofInt_ten_mul_add hpos (by decide), List.take_append_of_le_length hshort,
      List.take_append_of_le_length hshort]
  · exact hne ((hblind _ hzero).trans (hblind _ hone).symm)

end

end

end Template

namespace Settings

open Template

section
variable [Host]

/-- The label can be rendered for all of the lengths, differently for any two of them. -/
def ShowsLengths (L : Nat → Prop) (s : Settings) : Prop :=
  (∀ n, L n → ∃ x, s.renderLength n = .ok x) ∧ ∀ m n, L m → L n → m ≠ n → s.renderLength m ≠ s.renderLength n

theorem exists_pieceText_one (s : Settings) : ∀ p ∈ pieces s.lengthLabel, ∃ x, pieceText 1 p = .ok x := by
  obtain ⟨one, two, hone, -⟩ := showsLength_iff.1 s.shows_length
  exact exists_ok_of_render hone

section
variable {L : Nat → Prop} {s : Settings}

theorem ShowsLengths.showsAll (h : s.ShowsLengths L) : ShowsAll L (pieces s.lengthLabel) := by
  intro p hp n hn
  obtain ⟨x, hx⟩ := h.1 n hn
  exact exists_ok_of_render hx p hp

theorem ShowsLengths.tells (h : s.ShowsLengths L) : TellsLengths L (pieces s.lengthLabel) := by
  intro m n hm hn hne
  refine Classical.byContradiction fun hnone => h.2 m n hm hn hne ?_
  exact render_congr fun p hp => Classical.byContradiction fun hdiffer => hnone ⟨p, hp, hdiffer⟩

theorem showsLengths_of_aligned (haligned : Aligned L (pieces s.lengthLabel))
    (hshows : ShowsAll L (pieces s.lengthLabel)) (htells : TellsLengths L (pieces s.lengthLabel)) :
    s.ShowsLengths L := by
  have hok (n : Nat) (hn : L n) : ∀ p ∈ pieces s.lengthLabel, ∃ x, pieceText n p = .ok x :=
    fun p hp => hshows p hp n hn
  refine ⟨fun n hn => ?_, fun m n hm hn hne => ?_⟩
  · have hall := hok n hn
    choose! g hg using hall
    exact ⟨_, render_of_forall_ok hg⟩
  · rcases haligned m n hm hn with hlonger | hlonger
    · exact render_ne_of_notLonger (hok m hm) (hok n hn) hlonger (htells m n hm hn hne)
    · exact (render_ne_of_notLonger (hok n hn) (hok m hm) hlonger (htells n m hn hm hne.symm)).symm

variable (hfields : ∀ p ∈ pieces s.lengthLabel, p.Steady ∧ p.FixedSpec)
include hfields

section
variable (hpos : ∀ n, L n → 0 < n) (hnone : ∀ p ∈ pieces s.lengthLabel, ¬p.Limited)
  (hroom : ∀ p ∈ pieces s.lengthLabel, p.Decimal → ∀ n, L n → Text.isWritable n = true)
include hpos hnone hroom

theorem widens_of_room : ∀ p ∈ pieces s.lengthLabel, Widens L p := by
  intro p hp
  obtain ⟨x, hx⟩ := exists_pieceText_one s p hp
  exact widens_of_not_limited hpos (hroom p hp) (hfields p hp).1 (hfields p hp).2 hx (hnone p hp)

theorem showsLengths_iff_tells : s.ShowsLengths L ↔ TellsLengths L (pieces s.lengthLabel) := by
  have hwidens := widens_of_room hfields hpos hnone hroom
  exact ⟨ShowsLengths.tells, showsLengths_of_aligned (aligned_of_widens hwidens) (showsAll_of_widens hwidens)⟩

end

theorem not_limited_of_showsAll (hbeyond : L beyond) (h : ShowsAll L (pieces s.lengthLabel)) :
    ∀ p ∈ pieces s.lengthLabel, ¬p.Limited := by
  intro p hp hlimited
  obtain ⟨x, hx⟩ := h p hp beyond hbeyond
  obtain ⟨e, he⟩ := pieceText_beyond (hfields p hp).2 hlimited
  cases hx.symm.trans he

theorem not_decimal_of_showsAll {n : Nat} (hn : L n) (hpos : 0 < n) (hlong : Text.isWritable n = false)
    (h : ShowsAll L (pieces s.lengthLabel)) : ∀ p ∈ pieces s.lengthLabel, ¬p.Decimal := by
  intro p hp hdecimal
  obtain ⟨x, hx⟩ := h p hp n hn
  obtain ⟨e, he⟩ := pieceText_of_not_writable (hfields p hp).2 hdecimal hpos hlong
  cases hx.symm.trans he

theorem showsLengths_writable_iff : s.ShowsLengths Writable ↔
    (∀ p ∈ pieces s.lengthLabel, ¬p.Limited) ∧ TellsLengths Writable (pieces s.lengthLabel) := by
  have hbeyond : Writable beyond := ⟨by decide +kernel, isWritable_iff.2 (by decide +kernel)⟩
  have hiff (hnone : ∀ p ∈ pieces s.lengthLabel, ¬p.Limited) :=
    showsLengths_iff_tells hfields (L := Writable) (fun n hn => hn.1) hnone (fun _ _ _ _ hn => hn.2)
  constructor
  · intro h
    have hnone := not_limited_of_showsAll hfields hbeyond h.showsAll
    exact ⟨hnone, (hiff hnone).1 h⟩
  · exact fun ⟨hnone, htells⟩ => (hiff hnone).2 htells

theorem showsLengths_positive_iff : s.ShowsLengths Positive ↔
    (∀ p ∈ pieces s.lengthLabel, ¬p.Limited ∧ ¬p.Decimal) ∧ TellsLengths Positive (pieces s.lengthLabel) := by
  have hbeyond : Positive beyond := show 0 < beyond by decide +kernel
  have hpos : 0 < 10 ^ Text.digitLimit := Nat.pow_pos (by decide)
  have hlong : Text.isWritable (10 ^ Text.digitLimit : Nat) = false := by
    rw [Bool.eq_false_iff, ne_eq, isWritable_iff, Int.natAbs_natCast]
    exact Nat.lt_irrefl _
  have hiff (hnone : ∀ p ∈ pieces s.lengthLabel, ¬p.Limited ∧ ¬p.Decimal) :=
    showsLengths_iff_tells hfields (L := Positive) (fun n hn => hn) (fun p hp => (hnone p hp).1)
      (fun p hp hdecimal => absurd hdecimal (hnone p hp).2)
  constructor
  · intro h
    have hnone : ∀ p ∈ pieces s.lengthLabel, ¬p.Limited ∧ ¬p.Decimal := fun p hp =>
      ⟨not_limited_of_showsAll hfields hbeyond h.showsAll p hp,
        not_decimal_of_showsAll hfields (L := Positive) hpos hpos hlong h.showsAll p hp⟩
    exact ⟨hnone, (hiff hnone).1 h⟩
  · exact fun ⟨hnone, htells⟩ => (hiff hnone).2 htells

end

/-- **Labels for all lengths.** A label that shows some lengths shows each of them in all of its fields and tells any
two apart in one of them. If the fields do not get longer and shorter at once, that is enough. Let each field lay
out the length, its text, or what has nothing to do with it, and under one specification, as where no name goes on
and no specification holds fields. Then the label shows all lengths that can be written in decimal just if no field
is of limited presentation and any two lengths are told apart, and all lengths whatever just if no field is decimal,
either. A field that shows the lengths in full tells them apart; fields that cut them do not, however many. -/
theorem showsLengths_iff (s : Settings) :
    (∀ L, (s.ShowsLengths L → ShowsAll L (pieces s.lengthLabel) ∧ TellsLengths L (pieces s.lengthLabel)) ∧
      (Aligned L (pieces s.lengthLabel) →
        (s.ShowsLengths L ↔ ShowsAll L (pieces s.lengthLabel) ∧ TellsLengths L (pieces s.lengthLabel)))) ∧
    ((∀ p ∈ pieces s.lengthLabel, p.Steady ∧ p.FixedSpec) →
      (s.ShowsLengths Writable ↔
        (∀ p ∈ pieces s.lengthLabel, ¬p.Limited) ∧ TellsLengths Writable (pieces s.lengthLabel)) ∧
      (s.ShowsLengths Positive ↔
        (∀ p ∈ pieces s.lengthLabel, ¬p.Limited ∧ ¬p.Decimal) ∧ TellsLengths Positive (pieces s.lengthLabel))) ∧
    (∀ name conversion spec, (¬GoesOn name → (Piece.field name conversion spec).Steady) ∧
      (.scalar '{' ∉ spec → (Piece.field name conversion spec).FixedSpec)) ∧
    (∀ L, (∃ p ∈ pieces s.lengthLabel, ∃ base, ∀ n, L n → p.InFull base n) → ShowsAll L (pieces s.lengthLabel) →
      TellsLengths L (pieces s.lengthLabel)) ∧
    ((∀ p ∈ pieces s.lengthLabel, p.Cut ∧ p.FixedSpec ∨ p.Blind) →
      ¬TellsLengths Writable (pieces s.lengthLabel)) := by
  refine ⟨fun L => ⟨fun h => ⟨h.showsAll, h.tells⟩, fun haligned => ⟨fun h => ⟨h.showsAll, h.tells⟩, ?_⟩⟩,
    fun hfields => ⟨showsLengths_writable_iff hfields, showsLengths_positive_iff hfields⟩,
    fun name conversion spec => ⟨steady_of_plain, fixedSpec_of_plain⟩, ?_, not_tellsLengths (exists_pieceText_one s)⟩
  · exact fun ⟨hshows, htells⟩ => showsLengths_of_aligned haligned hshows htells
  · exact fun L ⟨p, hp, base, hfull⟩ => tellsLengths_of_inFull hp hfull

end

attribute [local instance] Host.usual

/-- The length in groups, after zeros that fill six places up. -/
def sixPlaces : Settings where
  version := .null
  numberLabel := .null
  lengthLabel := "\x7blength:06,\x7d"
  pad := '0'
  pad_digit := by decide
  shows_length := by decide +kernel

theorem pieces_sixPlaces : pieces sixPlaces.lengthLabel = [.field "length" none "06,"] := by
  decide +kernel

theorem showsLengths_sixPlaces : (∀ p ∈ pieces sixPlaces.lengthLabel, p.Steady ∧ p.FixedSpec) ∧
    sixPlaces.ShowsLengths Writable ∧ ¬sixPlaces.ShowsLengths Positive := by
  have hfields : ∀ p ∈ pieces sixPlaces.lengthLabel, p.Steady ∧ p.FixedSpec := by
    rw [pieces_sixPlaces]
    refine List.forall_mem_singleton.2 ⟨steady_of_plain ?_, fixedSpec_of_plain (by decide)⟩
    rintro ⟨c, hc, hstarts⟩
    revert c
    decide
  have hread : Spec.read wholeSubject "06," = .ok
      { fill := '0', align := .afterSign, sign := none, plainZero := false, alternate := false, width := some 6,
        grouping := some .comma, precision := none, presentation := 'd' } := rfl
  have hnumber : LaysNumber "length" none := fun n => rfl
  obtain ⟨hwritable, hpositive⟩ := (showsLengths_iff sixPlaces).2.1 hfields
  have hnone : ∀ p ∈ pieces sixPlaces.lengthLabel, ¬p.Limited := by
    rw [pieces_sixPlaces]
    refine List.forall_mem_singleton.2 ?_
    rintro ⟨-, shown, s, hshown, -, hread', hp⟩
    cases hshown
    cases hread.symm.trans hread'
    revert hp
    decide
  have hshows : ShowsAll Writable (pieces sixPlaces.lengthLabel) :=
    showsAll_of_widens (widens_of_room hfields (fun n hn => hn.1) hnone fun _ _ _ _ hn => hn.2)
  refine ⟨hfields, hwritable.2 ⟨hnone, (showsLengths_iff sixPlaces).2.2.2.1 Writable ?_ hshows⟩, fun h => ?_⟩
  · rw [pieces_sixPlaces]
    refine ⟨_, List.mem_singleton_self _, 10, fun n hn => ⟨"06,", rfl, .inl ⟨hnumber, .inr ⟨_, nofun, hread, ?_⟩⟩⟩⟩
    exact ⟨by decide, rfl, .inr ⟨rfl, .inr rfl⟩⟩
  · have hdecimal := ((hpositive.1 h).1 (.field "length" none "06,") (pieces_sixPlaces ▸ List.mem_singleton_self _)).2
    exact hdecimal (.inr ⟨hnumber, "06,", rfl, .inr ⟨_, hread, by decide⟩⟩)

/-- The length as a text that is cut to one digit. -/
def firstDigit : Settings where
  version := .null
  numberLabel := .null
  lengthLabel := "\x7blength!s:.1\x7d"
  pad := '0'
  pad_digit := by decide
  shows_length := by decide +kernel

theorem not_showsLengths_firstDigit :
    make .null .null (.string "\x7blength!s:.1\x7d") (.string ['0']) = .ok firstDigit ∧
      firstDigit.renderLength 1 = .ok "1" ∧ firstDigit.renderLength 10 = .ok "1" ∧
      ¬firstDigit.ShowsLengths Writable ∧ ¬firstDigit.ShowsLengths Positive := by
  have hone : firstDigit.renderLength 1 = .ok "1" := by decide +kernel
  have hten : firstDigit.renderLength 10 = .ok "1" := by decide +kernel
  have hno {L : Nat → Prop} (h1 : L 1) (h10 : L 10) : ¬firstDigit.ShowsLengths L := fun h =>
    h.2 1 10 h1 h10 (by decide) (hone.trans hten.symm)
  exact ⟨make_self firstDigit, hone, hten, hno ⟨by decide, by decide⟩ ⟨by decide, by decide⟩,
    hno Nat.one_pos (Nat.succ_pos 9)⟩

end Settings

end Typeahead
