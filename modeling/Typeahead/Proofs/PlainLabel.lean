import Typeahead.Proofs.PieceText
import Typeahead.Proofs.Refusal

/-!
# Plain labels

A plain label is made of texts with the length between them; braces in the texts are doubled. It is rendered to
the texts with the number between them, so no two numbers give the same.
-/

namespace Typeahead

namespace Text

theorem ofChars_injective {a b : List Char} (h : ofChars a = ofChars b) : a = b :=
  (List.map_inj_right fun _ _ => CodePoint.scalar.inj).1 h

theorem ofNat_injective {m n : Nat} (h : ofNat m = ofNat n) : m = n := by
  rw [← Nat.ofDigitChars_ten_toDigits (n := m), ofChars_injective h, Nat.ofDigitChars_ten_toDigits]

theorem isDigit_of_mem_ofNat {m : Nat} {c : CodePoint} (h : c ∈ ofNat m) : c.isDigit = true := by
  obtain ⟨d, hd, rfl⟩ := List.mem_map.1 h
  exact Nat.isDigit_of_mem_toDigits (by decide) (by decide) hd

theorem ofNat_ne_minus (m : Nat) (t : Text) : ofNat m ≠ .scalar '-' :: t := by
  intro h
  have hmem : CodePoint.scalar '-' ∈ ofNat m := h ▸ List.mem_cons_self
  exact absurd (isDigit_of_mem_ofNat hmem) (by decide)

theorem ofInt_injective {m n : Int} (h : ofInt m = ofInt n) : m = n := by
  rcases m with m | m <;> rcases n with n | n
  · rw [ofNat_injective h]
  · exact absurd h (ofNat_ne_minus m _)
  · exact absurd h.symm (ofNat_ne_minus n _)
  · have hsucc := ofNat_injective (List.cons.inj h).2
    rw [Nat.succ.inj hsucc]

/-! ## Joined texts -/

theorem length_join (separator first : Text) (rest : List Text) :
    (join separator (first :: rest)).length = (join [] (first :: rest)).length + rest.length * separator.length := by
  induction rest generalizing first with
  | nil => simp [join]
  | cons next rest ih =>
    simp only [join, List.length_append, List.length_cons, ih next, List.length_nil, Nat.succ_mul]
    omega

theorem join_injective {a b first : Text} {rest : List Text} (hrest : rest ≠ [])
    (h : join a (first :: rest) = join b (first :: rest)) : a = b := by
  obtain ⟨next, rest, rfl⟩ := List.exists_cons_of_ne_nil hrest
  have hlength : a.length = b.length := by
    have hjoined := congrArg List.length h
    rw [length_join a, length_join b] at hjoined
    exact Nat.eq_of_mul_eq_mul_left (Nat.succ_pos rest.length) (Nat.add_left_cancel hjoined)
  simp only [join, List.append_assoc, List.append_cancel_left_eq] at h
  exact (List.append_inj h hlength).1

end Text

namespace Template

/-! ## Pieces of a plain label -/

def doubled (t : Text) : Text := t.flatMap fun (c : CodePoint) => if c = '{' ∨ c = '}' then [c, c] else [c]

def lengthField : Text := "\x7blength\x7d"

def plainLabel (parts : List Text) : Text := Text.join lengthField (parts.map doubled)

theorem pieces_doubled_append (s t : Text) : pieces (doubled s ++ t) = s.map .char ++ pieces t := by
  induction s with
  | nil => rfl
  | cons c s ih =>
    simp only [pieces, doubled, List.flatMap_cons, List.map_cons, List.cons_append, List.append_assoc] at ih ⊢
    by_cases hopen : c = '{'
    · simp [hopen, piecesFrom, ih]
    by_cases hclose : c = '}'
    · simp [hclose, piecesFrom, ih]
    · simp [hopen, hclose, piecesFrom, ih]

theorem pieces_lengthField_append (t : Text) : pieces (lengthField ++ t) = .field "length" none [] :: pieces t := by
  rfl

section
variable [Host]

theorem pieceText_length {n : Int} (hn : Text.isWritable n = true) :
    pieceText n (.field "length" none []) = .ok (Text.ofInt n) := by
  have h : pieceText n (.field "length" none []) = Blocks.toText <$> (fun t => [Block.once t]) <$> decimal n := rfl
  rw [h, decimal, if_pos hn]
  simp [Functor.map, Except.map]

theorem render_doubled_append {s t : Text} {n : Int} {shown : Text} (h : render t n = .ok shown) :
    render (doubled s ++ t) n = .ok (s ++ shown) := by
  rw [render_eq] at h ⊢
  rw [pieces_doubled_append]
  induction s with
  | nil => exact h
  | cons c s ih => rw [List.map_cons, List.cons_append, flatten_mapM_cons, ih]; rfl

theorem render_lengthField_append {t : Text} {n : Int} (hn : Text.isWritable n = true) {shown : Text}
    (h : render t n = .ok shown) : render (lengthField ++ t) n = .ok (Text.ofInt n ++ shown) := by
  rw [render_eq] at h ⊢
  rw [pieces_lengthField_append, flatten_mapM_cons, pieceText_length hn, h]
  rfl

theorem render_plainLabel (parts : List Text) {n : Int} (hn : Text.isWritable n = true) :
    render (plainLabel parts) n = .ok (Text.join (Text.ofInt n) parts) := by
  fun_induction Text.join (Text.ofInt n) parts with
  | case1 => rfl
  | case2 t =>
    have hnil : render [] n = .ok [] := rfl
    have h := render_doubled_append (s := t) hnil
    rwa [List.append_nil, List.append_nil] at h
  | case3 t u ts ih =>
    have h := render_doubled_append (s := t) (render_lengthField_append hn ih)
    simpa only [plainLabel, List.map_cons, Text.join, List.append_assoc] using h

end

end Template

namespace Settings

open Template (plainLabel)

section
variable [Host]

theorem make_plainLabel (version numberLabel : Json) {pad : CodePoint} (hpad : pad.isDigit = true) {first : Text}
    {rest : List Text} (hrest : rest ≠ []) : ∃ s,
      make version numberLabel (.string (plainLabel (first :: rest))) (.string [pad]) = .ok s ∧
        s.lengthLabel = plainLabel (first :: rest) := by
  have hone := Template.render_plainLabel (first :: rest) (n := 1) (by decide)
  have htwo := Template.render_plainLabel (first :: rest) (n := 2) (by decide)
  have hshows : Template.showsLength (plainLabel (first :: rest)) = true := by
    refine Template.showsLength_iff.2 ⟨_, _, hone, htwo, fun h => ?_⟩
    exact absurd (Text.ofInt_injective (Text.join_injective hrest h)) (by decide)
  exact ⟨⟨version, numberLabel, plainLabel (first :: rest), pad, hpad, hshows⟩,
    make_eq_ok_iff.2 ⟨rfl, rfl, rfl, rfl⟩, rfl⟩

theorem make_without_length (version numberLabel : Json) {pad : CodePoint} (hpad : pad.isDigit = true) (text : Text) :
    make version numberLabel (.string (plainLabel [text])) (.string [pad]) =
      .error (.lengthHidden (plainLabel [text])) := by
  have h1 : Template.render (plainLabel [text]) 1 = .ok text := Template.render_plainLabel [text] (by decide)
  have h2 : Template.render (plainLabel [text]) 2 = .ok text := Template.render_plainLabel [text] (by decide)
  cases hmake : make version numberLabel (.string (plainLabel [text])) (.string [pad]) with
  | ok s =>
    obtain ⟨one, two, hone, htwo, hne⟩ := Template.showsLength_iff.1 (exists_make_iff.1 ⟨s, hmake⟩).2
    cases h1.symm.trans hone
    cases h2.symm.trans htwo
    exact absurd rfl hne
  | error f =>
    rcases make_error hmake with ⟨hnot, -⟩ | ⟨-, e, hfirst, -⟩ | ⟨-, -, rfl⟩
    · exact absurd ⟨pad, rfl, hpad⟩ hnot
    · rcases hfirst with h | ⟨-, h⟩
      · cases h1.symm.trans h
      · cases h2.symm.trans h
    · rfl

/-- **Plain labels.** With the length in it, a plain label is accepted and shows the texts with the number
between them, a different one for each number that can be written. Without it, it is refused as unusable. -/
theorem plain_label_shown (version numberLabel : Json) {pad : CodePoint} (hpad : pad.isDigit = true) (first : Text)
    (rest : List Text) :
    (rest ≠ [] → ∃ s, make version numberLabel (.string (plainLabel (first :: rest))) (.string [pad]) = .ok s ∧
      (∀ n, Text.isWritable n = true → s.renderLength n = .ok (Text.join (Text.ofInt n) (first :: rest))) ∧
      ∀ m n, Text.isWritable m = true → Text.isWritable n = true → m ≠ n → s.renderLength m ≠ s.renderLength n) ∧
    (rest = [] → ∃ f, make version numberLabel (.string (plainLabel (first :: rest))) (.string [pad]) = .error f ∧
      f.errorClass = .library .invalidSettings ∧ f = .lengthHidden (plainLabel [first])) := by
  constructor
  · intro hrest
    obtain ⟨s, hmake, hlabel⟩ := make_plainLabel version numberLabel hpad hrest
    have hshown {n : Int} (hn : Text.isWritable n = true) :
        s.renderLength n = .ok (Text.join (Text.ofInt n) (first :: rest)) := by
      rw [renderLength, hlabel, Template.render_plainLabel _ hn]
    refine ⟨s, hmake, fun n => hshown, fun m n hm hn hne h => ?_⟩
    rw [hshown hm, hshown hn] at h
    exact hne (Text.ofInt_injective (Text.join_injective hrest (Except.ok.inj h)))
  · rintro rfl
    exact ⟨_, make_without_length version numberLabel hpad first, rfl, rfl⟩

end

attribute [local instance] Host.usual

/-- A label in braces, whose doubled braces touch those of the field. -/
theorem plain_label_shown_braces : (CodePoint.scalar '7').isDigit = true ∧ ∃ s,
    make .null .null (.string "\x7b\x7b\x7blength\x7d\x7d\x7d") (.string ['7']) = .ok s ∧
      s.renderLength 12 = .ok "\x7b12\x7d" ∧ s.renderLength 12 ≠ s.renderLength 21 := by
  have hpad : (CodePoint.scalar '7').isDigit = true := by decide
  obtain ⟨s, hmake, hshown, hdiffer⟩ := (plain_label_shown .null .null hpad "\x7b" ["\x7d"]).1 (List.cons_ne_nil _ _)
  exact ⟨hpad, s, hmake, hshown 12 (by decide), hdiffer 12 21 (by decide) (by decide) (by decide)⟩

end Settings

end Typeahead
