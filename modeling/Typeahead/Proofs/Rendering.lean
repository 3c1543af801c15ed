import Mathlib.Data.List.TakeWhile
import Typeahead.Proofs.Match
import Typeahead.Settings.Basic

/-!
# Faults of labels

While no name in a template goes on after the argument, all that can be wrong for the lengths one and two is the
wording of the template, and the width that a text is filled up to. What is named beyond the argument is the host's,
and so are its faults.
-/

namespace Typeahead.Template

open Number

/-! ## Names that go on -/

/-- The name is in a field of the template, or in a field inside a specification. -/
inductive HasName : Text → Text → Prop
  | field {t name spec : Text} {conversion : Option CodePoint} (h : .field name conversion spec ∈ pieces t) :
      HasName t name
  | inside {t name spec inner : Text} {conversion : Option CodePoint} (h : .field name conversion spec ∈ pieces t)
      (hinner : HasName spec inner) : HasName t inner

/-- The name goes on to an attribute or an item. -/
def GoesOn (name : Text) : Prop := ∃ c ∈ name, startsAccess c = true

/-! ## Faults of wording -/

/-- The fault is one that is reported together with the label, or a text is too wide. -/
def Fault.OfWording (e : Fault) : Prop :=
  e.errorClass.handledBy Settings.translated = true ∨ e = .layout .tooWide

def LayoutFault.OfWording (f : LayoutFault) : Prop := f.errorClass = .value ∨ f = .tooWide

theorem Fault.ofWording_of_value {e : Fault} (h : e.errorClass = .value) : e.OfWording := by
  refine .inl ?_
  rw [h]
  rfl

theorem LayoutFault.OfWording.layout {f : LayoutFault} (h : f.OfWording) : (Fault.layout f).OfWording := by
  rcases h with h | rfl
  · exact Fault.ofWording_of_value h
  · exact .inr rfl

/-- The lengths at which a label is tried. -/
def IsSample (n : Int) : Prop := n = 1 ∨ n = 2

theorem characterParts_error {spec : Spec} {n : Int} {f : LayoutFault} (hn : IsSample n)
    (h : characterParts spec n = .error f) : f.errorClass = .value := by
  have hword : ¬(n < -(wordLimit : Int) ∨ (wordLimit : Int) ≤ n) := by
    rcases hn with rfl | rfl <;> decide
  have hrange : ¬(n < 0 ∨ 0x10ffff < n) := by
    rcases hn with rfl | rfl <;> decide
  unfold characterParts at h
  rw [if_neg hword, if_neg hrange] at h
  split at h
  · cases h; rfl
  split at h
  · cases h; rfl
  · cases h

theorem ofInt_sample {n : Int} (hn : IsSample n) : ∃ s m e, Binary64.ofInt n = .finite s m e := by
  rcases hn with rfl | rfl
  · exact ⟨false, 0x10000000000000, -52, by decide +kernel⟩
  · exact ⟨false, 0x10000000000000, -51, by decide +kernel⟩

theorem floatParts_error {spec : Spec} {n : Int} {f : LayoutFault} (hn : IsSample n) (h : floatParts spec n = .error f) :
    f.errorClass = .value := by
  obtain ⟨s, m, e, hfinite⟩ := ofInt_sample hn
  unfold floatParts at h
  rw [hfinite] at h
  simp only at h
  split at h
  · cases h; rfl
  · cases h

theorem wholeParts_error {spec : Spec} {n : Int} {f : LayoutFault} (h : wholeParts spec n = .error f) :
    f.errorClass = .value := by
  unfold wholeParts at h
  simp only at h
  split at h
  · cases h; rfl
  · cases h

theorem position?_error {t : Text} {e : Fault} (h : position? t = .error e) : e.OfWording := by
  unfold position? at h
  split at h
  · cases h
  split at h
  · cases h
  · cases h
  · cases h; exact Fault.ofWording_of_value rfl

theorem eq_of_decimal {n : Int} {t : Text} (h : decimal n = .ok t) : t = Text.ofInt n := by
  unfold decimal at h
  split at h
  · cases h; rfl
  · cases h

theorem decimal_error {n : Int} {e : Fault} (h : decimal n = .error e) : e.OfWording := by
  unfold decimal at h
  split at h
  · cases h
  · cases h; exact Fault.ofWording_of_value rfl

section
variable [Host]

theorem checkedWidth_error {spec : Spec} {f : LayoutFault} (h : spec.checkedWidth = .error f) : f = .tooWide := by
  unfold Spec.checkedWidth at h
  simp only at h
  split at h
  · cases h
  · cases h; rfl

theorem Parts.layout_error {spec : Spec} {grouping : Option (Nat × CodePoint)} {parts : Parts} {f : LayoutFault}
    (h : parts.layout spec grouping = .error f) : f = .tooWide := by
  unfold Parts.layout at h
  rcases exists_of_bind_eq_error h with h | ⟨width, _, h⟩
  · exact checkedWidth_error h
  · cases h

theorem layout_parts_error {spec : Spec} {grouping : Option (Nat × CodePoint)} {parts : Except LayoutFault Parts}
    {f : LayoutFault} (hparts : ∀ f, parts = .error f → f.errorClass = .value)
    (h : parts >>= (·.layout spec grouping) = .error f) : f.OfWording := by
  rcases exists_of_bind_eq_error h with h | ⟨_, _, h⟩
  · exact .inl (hparts f h)
  · exact .inr (Parts.layout_error h)

theorem layoutWhole_error {spec : Spec} {n : Int} {f : LayoutFault} (hn : IsSample n) (h : layoutWhole spec n = .error f) :
    f.OfWording := by
  unfold layoutWhole at h
  split at h
  · split at h
    · cases h; exact .inl rfl
    split at h
    · cases h; exact .inl rfl
    split at h
    · exact layout_parts_error (fun _ => characterParts_error hn) h
    · exact layout_parts_error (fun _ => wholeParts_error) h
  split at h
  · exact layout_parts_error (fun _ => floatParts_error hn) h
  · cases h; exact .inl rfl

theorem layoutText_error {spec : Spec} {t : Text} {f : LayoutFault} (h : layoutText spec t = .error f) :
    f.OfWording := by
  unfold layoutText at h
  iterate 6
    split at h
    · cases h; exact .inl rfl
  · cases hw : spec.checkedWidth with
    | error f' =>
      rw [hw] at h
      cases h
      exact .inr (checkedWidth_error hw)
    | ok width =>
      rw [hw] at h
      cases h

theorem format_whole_error {spec : Text} {n : Int} {e : Fault} (hn : IsSample n)
    (h : (Value.whole n).format spec = .error e) : e.OfWording := by
  simp only [Value.format] at h
  split at h
  · exact decimal_error (map_eq_error h)
  split at h
  · obtain ⟨f, hf, rfl⟩ := mapError_eq_error_iff.1 h
    exact (layoutWhole_error hn hf).layout
  · cases h; exact Fault.ofWording_of_value rfl

theorem format_text_error {spec t : Text} {e : Fault} (h : (Value.text t).format spec = .error e) : e.OfWording := by
  simp only [Value.format] at h
  split at h
  · cases h
  split at h
  · obtain ⟨f, hf, rfl⟩ := mapError_eq_error_iff.1 h
    exact (layoutText_error hf).layout
  · cases h; exact Fault.ofWording_of_value rfl

/-! ## The argument itself -/

theorem fieldTarget_of_plain (n : Int) {name : Text} (h : ¬GoesOn name) : fieldTarget n name = argument n name := by
  have hall : ∀ c ∈ name, (!startsAccess c) = true := fun c hc => by simpa using fun hs => h ⟨c, hc, hs⟩
  unfold fieldTarget
  rw [List.takeWhile_eq_self_iff.2 hall, List.dropWhile_eq_nil_iff.2 hall]
  exact bind_pure (argument n name)

theorem argument_ok {n : Int} {first : Text} {target : Target Host.Object} (h : argument n first = .ok target) :
    target = .number n := by
  unfold argument at h
  obtain ⟨position, _, h⟩ := exists_of_bind_eq_ok h
  cases position with
  | some position => cases h
  | none =>
    simp only at h
    split at h
    · cases h
    split at h
    · cases h; rfl
    · cases h

theorem argument_error {n : Int} {first : Text} {e : Fault} (h : argument n first = .error e) : e.OfWording := by
  unfold argument at h
  rcases exists_of_bind_eq_error h with h | ⟨position, _, h⟩
  · exact position?_error h
  cases position with
  | some position => cases h; exact .inl rfl
  | none =>
    simp only at h
    split at h
    · cases h; exact .inl rfl
    split at h
    · cases h
    · cases h; exact .inl rfl

theorem convert_number_ok {n : Int} {conversion : Option CodePoint} {value : Value Host.Object}
    (h : convert (.number n) conversion = .ok value) : value = .whole n ∨ value = .text (Text.ofInt n) := by
  unfold convert at h
  split at h
  · cases h; exact .inl rfl
  · cases h; exact .inl rfl
  · split at h
    · obtain ⟨t, ht, rfl⟩ := map_eq_ok_iff.1 h
      have ht : decimal n = .ok t := ht
      exact .inr (congrArg Value.text (eq_of_decimal ht))
    · cases h

theorem convert_number_error {n : Int} {conversion : Option CodePoint} {e : Fault}
    (h : convert (Target.number n : Target Host.Object) conversion = .error e) : e.OfWording := by
  unfold convert at h
  split at h
  · cases h
  · cases h
  · split at h
    · exact decimal_error (map_eq_error h)
    · cases h; exact Fault.ofWording_of_value rfl

/-! ## Templates -/

theorem renderField_fault {nested : Text → Except Fault Blocks} {n : Int} {name spec : Text}
    {conversion : Option CodePoint} {e : Fault} (h : renderField nested n name conversion spec = .error e) :
    fieldTarget n name = .error e ∨ nested spec = .error e ∨ ∃ target, fieldTarget n name = .ok target ∧
      (convert target conversion = .error e ∨
        ∃ value shown, convert target conversion = .ok value ∧ value.format shown = .error e) := by
  unfold renderField at h
  rcases exists_of_bind_eq_error h with h | ⟨target, htarget, h⟩
  · exact .inl h
  rcases exists_of_bind_eq_error h with h | ⟨value, hvalue, h⟩
  · exact .inr (.inr ⟨target, htarget, .inl h⟩)
  simp only at h
  split at h
  · rcases exists_of_bind_eq_error h with h | ⟨shown, _, h⟩
    · exact .inr (.inl (map_eq_error h))
    · exact .inr (.inr ⟨target, htarget, .inr ⟨value, shown, hvalue, h⟩⟩)
  · exact .inr (.inr ⟨target, htarget, .inr ⟨value, spec, hvalue, h⟩⟩)

theorem renderPieces_fault {nested : Text → Except Fault Blocks} {n : Int} {pieces : List Piece} {e : Fault}
    (h : renderPieces nested n pieces = .error e) :
    (∃ fault, e = .markup fault) ∨ ∃ name conversion spec, .field name conversion spec ∈ pieces ∧
      renderField nested n name conversion spec = .error e := by
  induction pieces with
  | nil => cases h
  | cons piece rest ih =>
    have hrest (h : renderPieces nested n rest = .error e) : (∃ fault, e = .markup fault) ∨
        ∃ name conversion spec, .field name conversion spec ∈ piece :: rest ∧
          renderField nested n name conversion spec = .error e :=
      (ih h).imp_right fun ⟨name, conversion, spec, hmem, hfield⟩ =>
        ⟨name, conversion, spec, List.mem_cons_of_mem piece hmem, hfield⟩
    cases piece with
    | char c =>
      unfold renderPieces at h
      exact hrest (map_eq_error h)
    | field name conversion spec =>
      unfold renderPieces at h
      rcases exists_of_bind_eq_error h with h | ⟨_, _, h⟩
      · exact .inr ⟨name, conversion, spec, List.mem_cons_self, h⟩
      rcases exists_of_bind_eq_error h with h | ⟨_, _, h⟩
      · exact hrest h
      · cases h
    | broken fault => cases h; exact .inl ⟨fault, rfl⟩

/-- While no name goes on, a field stands for the argument itself, and nothing more is asked of it. -/
theorem renderTo_ofWording {n : Int} (hn : IsSample n) {depth : Nat} {t : Text} {e : Fault}
    (hplain : ∀ name, HasName t name → ¬GoesOn name) (h : renderTo depth n t = .error e) : e.OfWording := by
  induction depth generalizing t e with
  | zero => cases h; exact Fault.ofWording_of_value rfl
  | succ depth ih =>
    rcases renderPieces_fault h with ⟨fault, rfl⟩ | ⟨name, conversion, spec, hmem, hfield⟩
    · exact Fault.ofWording_of_value rfl
    have htarget := fieldTarget_of_plain n (hplain name (.field hmem))
    rcases renderField_fault hfield with h | h | ⟨target, h', h⟩
    · exact argument_error (htarget ▸ h)
    · exact ih (fun inner hinner => hplain inner (.inside hmem hinner)) h
    · rw [htarget] at h'
      obtain rfl := argument_ok h'
      rcases h with h | ⟨value, shown, hvalue, h⟩
      · exact convert_number_error h
      rcases convert_number_ok hvalue with rfl | rfl
      · exact format_whole_error hn h
      · exact format_text_error h

/-! ## The first fault -/

/-- The fault that ends the rendering for the lengths one and two. -/
def FirstFault (t : Text) (e : Fault) : Prop :=
  render t 1 = .error e ∨ (∃ one, render t 1 = .ok one) ∧ render t 2 = .error e

theorem FirstFault.goesOn {t : Text} {e : Fault} (h : FirstFault t e) (he : ¬e.OfWording) :
    ∃ name, HasName t name ∧ GoesOn name := by
  refine Classical.byContradiction fun hnone => ?_
  have hplain : ∀ name, HasName t name → ¬GoesOn name := fun name hname hgoes => hnone ⟨name, hname, hgoes⟩
  rcases h with h | ⟨-, h⟩
  · exact he (renderTo_ofWording (.inl rfl) hplain (map_eq_error h))
  · exact he (renderTo_ofWording (.inr rfl) hplain (map_eq_error h))

theorem FirstFault.unique {t : Text} {e e' : Fault} (h : FirstFault t e) (h' : FirstFault t e') :
    e = e' := by
  rcases h with h | ⟨⟨one, hone⟩, h⟩ <;> rcases h' with h' | ⟨⟨one', hone'⟩, h'⟩ <;> simp_all

/-- A fault that is not reported together with the label has to do with the width of a text, or with a name that
goes on. -/
theorem FirstFault.of_not_translated {t : Text} {e : Fault} (h : FirstFault t e)
    (he : e.errorClass.handledBy Settings.translated = false) :
    e = .layout .tooWide ∨ ∃ name, HasName t name ∧ GoesOn name := by
  by_cases hwide : e = .layout .tooWide
  · exact .inl hwide
  · refine .inr (h.goesOn ?_)
    rintro (htranslated | hwide')
    · rw [he] at htranslated
      cases htranslated
    · exact hwide hwide'

end

end Typeahead.Template
