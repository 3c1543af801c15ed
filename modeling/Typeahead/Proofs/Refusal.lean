import Typeahead.Proofs.Rendering
import Typeahead.Proofs.Settings

/-!
# Settings that are refused

Settings of texts are made if the pad is a digit and the label tells the lengths one and two apart. Otherwise
they are refused as unusable, but for one thing: rendering the label may end in an error of a class that is not
translated. Only a text that is too wide and labels with a name that goes on after the argument bring that about.
-/

namespace Typeahead.Settings

theorem errorClass_label (t : Text) (e : Template.Fault) :
    (Fault.label t e).errorClass = .library .invalidSettings ↔ e.errorClass.handledBy translated = true := by
  unfold Fault.errorClass
  by_cases h : e.errorClass.handledBy translated = true
  · simp [h]
  · simp [h, ErrorClass.ne_library e.foreign]

section
variable [Host]

/-! ## Pads and labels that are texts -/

def IsDigit (pad : Text) : Prop := ∃ c, pad = [c] ∧ c.isDigit = true

theorem refusePad_text (t : Text) : refusePad (.string t) = .padNotDigit (.string t) := by
  have hshown : (Json.string t).displayFault? = none := by
    rw [Json.displayFault?, ← Nat.sub_add_cancel Host.displayDepth_pos]
    rfl
  rw [refusePad, Json.refusing, hshown]

theorem checkPad_text (pad : Text) :
    (∃ c, ∃ h : c.isDigit = true, pad = [c] ∧ checkPad (.string pad) = .ok ⟨c, h⟩) ∨
      ¬IsDigit pad ∧ checkPad (.string pad) = .error (.padNotDigit (.string pad)) := by
  rcases pad with _ | ⟨c, _ | ⟨d, rest⟩⟩
  · exact .inr ⟨by simp [IsDigit], by simp [checkPad, Json.length?, refusePad_text]⟩
  · by_cases h : c.isDigit = true
    · exact .inl ⟨c, h, rfl, by simp [checkPad, Json.length?, h]⟩
    · exact .inr ⟨by simp [IsDigit, h], by simp [checkPad, Json.length?, h, refusePad_text]⟩
  · exact .inr ⟨by simp [IsDigit], by simp [checkPad, Json.length?, refusePad_text]⟩

theorem checkLabel_text (t : Text) :
    (∃ h : Template.showsLength t = true, checkLabel (.string t) = .ok ⟨t, h⟩) ∨
      (∃ e, Template.FirstFault t e ∧ checkLabel (.string t) = .error (.label t e)) ∨
      (∃ one, Template.render t 1 = .ok one ∧ Template.render t 2 = .ok one) ∧
        checkLabel (.string t) = .error (.lengthHidden t) := by
  simp only [checkLabel, Template.FirstFault, Template.render]
  split
  · next e h =>
    refine .inr (.inl ⟨e, .inl ?_, rfl⟩)
    rw [h]
    rfl
  · next one e h h' =>
    refine .inr (.inl ⟨e, .inr ⟨⟨one.toText, ?_⟩, ?_⟩, rfl⟩)
    · rw [h]
      rfl
    · rw [h']
      rfl
  · next one two h h' =>
    by_cases hsame : one.same two = true
    · rw [dif_pos hsame, h, h']
      refine .inr (.inr ⟨⟨one.toText, rfl, ?_⟩, rfl⟩)
      rw [Blocks.same_iff.1 hsame]
      rfl
    · rw [dif_neg hsame]
      exact .inl ⟨by simp [Template.showsLength, h, h', hsame], rfl⟩

/-! ## Refusals -/

section
variable {version numberLabel : Json} {label pad : Text}

theorem exists_make_iff : (∃ s, make version numberLabel (.string label) (.string pad) = .ok s) ↔
    IsDigit pad ∧ Template.showsLength label = true := by
  constructor
  · rintro ⟨s, h⟩
    obtain ⟨-, -, hlabel, hpad⟩ := make_eq_ok_iff.1 h
    cases hlabel
    cases hpad
    exact ⟨⟨s.pad, rfl, s.pad_digit⟩, s.shows_length⟩
  · rintro ⟨⟨c, rfl, hc⟩, hshows⟩
    exact ⟨⟨version, numberLabel, label, c, hc, hshows⟩, make_eq_ok_iff.2 ⟨rfl, rfl, rfl, rfl⟩⟩

theorem make_error {f : Fault} (h : make version numberLabel (.string label) (.string pad) = .error f) :
    ¬IsDigit pad ∧ f = .padNotDigit (.string pad) ∨
      IsDigit pad ∧ (∃ e, Template.FirstFault label e ∧ f = .label label e) ∨
      IsDigit pad ∧ (∃ one, Template.render label 1 = .ok one ∧ Template.render label 2 = .ok one) ∧
        f = .lengthHidden label := by
  unfold make at h
  rcases checkPad_text pad with ⟨c, hc, rfl, hpad⟩ | ⟨hnot, hpad⟩
  · have hdigit : IsDigit [c] := ⟨c, rfl, hc⟩
    rw [hpad, ok_bind] at h
    rcases checkLabel_text label with ⟨hshows, hlabel⟩ | ⟨e, hfirst, hlabel⟩ | ⟨hsame, hlabel⟩
    · rw [hlabel] at h
      cases h
    · rw [hlabel] at h
      cases h
      exact .inr (.inl ⟨hdigit, e, hfirst, rfl⟩)
    · rw [hlabel] at h
      cases h
      exact .inr (.inr ⟨hdigit, hsame, rfl⟩)
  · rw [hpad] at h
    cases h
    exact .inl ⟨hnot, rfl⟩

end

/-- Rendering the label for the lengths one and two ends in an error of a class that is left as it comes. -/
def Escapes (label : Text) : Prop :=
  ∃ e, Template.FirstFault label e ∧ e.errorClass.handledBy translated = false

/-- **Unusable values.** Settings of texts are made exactly if the pad is a digit and the label can be rendered
for the lengths one and two, differently. They are refused as unusable otherwise, unless the pad is a digit and
rendering the label ends in an error that is not translated; and only a text that is too wide and a name that goes
on after the argument bring that about. -/
theorem make_refusals (version numberLabel : Json) (label pad : Text) :
    ((∃ s, make version numberLabel (.string label) (.string pad) = .ok s) ↔ IsDigit pad ∧
      ∃ one two, Template.render label 1 = .ok one ∧ Template.render label 2 = .ok two ∧ one ≠ two) ∧
    (∀ f, make version numberLabel (.string label) (.string pad) = .error f →
      (f.errorClass = .library .invalidSettings ↔ ¬(IsDigit pad ∧ Escapes label))) ∧
    (Escapes label → Template.FirstFault label (.layout .tooWide) ∨
      ∃ name, Template.HasName label name ∧ Template.GoesOn name) := by
  refine ⟨?_, fun f hf => ?_, fun ⟨e, hfirst, he⟩ => ?_⟩
  · rw [exists_make_iff, Template.showsLength_iff]
  · rcases make_error hf with ⟨hnot, rfl⟩ | ⟨hdigit, e, hfirst, rfl⟩ | ⟨hdigit, ⟨one, h1, h2⟩, rfl⟩
    · exact iff_of_true rfl fun h => hnot h.1
    · have hescapes : Escapes label ↔ e.errorClass.handledBy translated = false :=
        ⟨fun ⟨e', hfirst', he'⟩ => hfirst'.unique hfirst ▸ he', fun he => ⟨e, hfirst, he⟩⟩
      rw [errorClass_label, hescapes]
      simp [hdigit]
    · refine iff_of_true rfl ?_
      rintro ⟨-, e, hfirst, -⟩
      rcases hfirst with h | ⟨-, h⟩ <;> simp_all
  · refine (hfirst.of_not_translated he).imp_left ?_
    rintro rfl
    exact hfirst

end

/-- A label that asks for an attribute that numbers do not have. -/
def attributeLabel : Text := "\x7blength.foo\x7d"

attribute [local instance] Host.usual

theorem make_attributeLabel : ∃ f,
    make (.string defaultVersion) (.string defaultNumberLabel) (.string attributeLabel) (.string "0") = .error f ∧
      f.errorClass = .attribute :=
  ⟨_, rfl, rfl⟩

end Typeahead.Settings
