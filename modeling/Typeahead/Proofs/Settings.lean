import Typeahead.Proofs.Match
import Typeahead.Proofs.Printed
import Typeahead.Settings.Codec

/-!
# Settings and objects

Settings whose version and label are null or texts come back from the object that is made of them.
Whatever object settings are taken from, they are such settings.
-/

namespace Typeahead.Settings

theorem isPlain_singleton (c : CodePoint) : (Json.string [c]).IsPlain := .string (t := [c]) trivial

variable [Host]

/-- Settings that JSON gives back as they are. -/
structure IsPlain (s : Settings) : Prop where
  version : s.version.IsPlain
  numberLabel : s.numberLabel.IsPlain
  lengthLabel : s.lengthLabel.Unpaired

/-! ## Checks that pass again -/

theorem checkPad_pad (s : Settings) : checkPad (.string [s.pad]) = .ok ⟨s.pad, s.pad_digit⟩ := by
  simp [checkPad, Json.length?, s.pad_digit]

theorem checkLabel_lengthLabel (s : Settings) :
    checkLabel (.string s.lengthLabel) = .ok ⟨s.lengthLabel, s.shows_length⟩ := by
  have h := s.shows_length
  unfold checkLabel
  simp only
  split
  · next e he => simp [Template.showsLength, he] at h
  · next e he he' => simp [Template.showsLength, he, he'] at h
  · next one two h1 h2 =>
    have : one.same two ≠ true := by simpa [Template.showsLength, h1, h2] using h
    rw [dif_neg this]

theorem make_self (s : Settings) : make s.version s.numberLabel (.string s.lengthLabel) (.string [s.pad]) = .ok s := by
  rw [make, checkPad_pad, ok_bind, checkLabel_lengthLabel]
  rfl

/-! ## What is made -/

theorem checkPad_eq_ok {value : Json} {pad : { c : CodePoint // c.isDigit = true }} (h : checkPad value = .ok pad) :
    value = .string [pad.1] := by
  unfold checkPad at h
  split at h
  · cases h
  · split at h
    · next c _ =>
      split at h
      · cases h; rfl
      · cases h
    · cases h
  · cases h

theorem checkLabel_eq_ok {value : Json} {label : { t : Text // Template.showsLength t = true }}
    (h : checkLabel value = .ok label) : value = .string label.1 := by
  unfold checkLabel at h
  split at h
  · split at h
    · cases h
    · cases h
    · split at h
      · cases h
      · cases h; rfl
  · cases h

theorem make_eq_ok_iff {version numberLabel lengthLabel pad : Json} {s : Settings} :
    make version numberLabel lengthLabel pad = .ok s ↔ version = s.version ∧ numberLabel = s.numberLabel ∧
      lengthLabel = .string s.lengthLabel ∧ pad = .string [s.pad] := by
  constructor
  · intro h
    obtain ⟨c, hpad, h⟩ := exists_of_bind_eq_ok h
    obtain ⟨t, hlabel, h⟩ := exists_of_bind_eq_ok h
    cases h
    exact ⟨rfl, rfl, checkLabel_eq_ok hlabel, checkPad_eq_ok hpad⟩
  · rintro ⟨rfl, rfl, rfl, rfl⟩
    exact make_self s

/-! ## Fields of an object -/

theorem coerce_of_isPlain {value : Json} (h : value.IsPlain) : coerce value = .ok value := by
  cases h <;> rfl

theorem isPlain_of_coerce {given value : Json} (h : coerce given = .ok value)
    (ht : ∀ t, given = .string t → t.Unpaired) : value.IsPlain := by
  have hshown (h : Json.string <$> given.shown.mapError undisplayable = .ok value) : value.IsPlain := by
    obtain ⟨t, hm, rfl⟩ := map_eq_ok_iff.1 h
    rw [mapError_eq_ok_iff, Json.shown] at hm
    split at hm
    · cases hm
      exact .string (Json.isScalar_display given).unpaired
    · cases hm
  cases given with
  | null => cases h; exact .null
  | string t => cases h; exact .string (ht t rfl)
  | bool | int | float | array | object => exact hshown h

theorem field_eq_ok_iff {members : List (Text × Json)} {name : Text} {value : Json} :
    field members name = .ok value ↔ ∃ given, Members.get? members name = some given ∧ coerce given = .ok value := by
  unfold field
  cases Members.get? members name <;> simp

theorem ofMembers_eq_ok_iff {members : List (Text × Json)} {f : Fields} :
    Fields.ofMembers members = .ok f ↔ ∀ m ∈ f.members, ∃ given,
      Members.get? members m.1 = some given ∧ coerce given = .ok m.2 := by
  simp only [← field_eq_ok_iff, Fields.members, List.forall_mem_cons]
  unfold Fields.ofMembers
  constructor
  · intro h
    obtain ⟨_, hversion, h⟩ := exists_of_bind_eq_ok h
    obtain ⟨_, hnumber, h⟩ := exists_of_bind_eq_ok h
    obtain ⟨_, hlength, h⟩ := exists_of_bind_eq_ok h
    obtain ⟨_, hpad, h⟩ := exists_of_bind_eq_ok h
    cases h
    exact ⟨hversion, hnumber, hlength, hpad, nofun⟩
  · rintro ⟨hversion, hnumber, hlength, hpad, -⟩
    rw [hversion, ok_bind, hnumber, ok_bind, hlength, ok_bind, hpad, ok_bind]
    rfl

/-! ## Settings as an object, and back -/

theorem IsPlain.fields {s : Settings} (h : s.IsPlain) : ∀ m ∈ s.fields.members, m.2.IsPlain := by
  simp only [Settings.fields, Fields.members, List.forall_mem_cons]
  exact ⟨h.version, h.numberLabel, .string h.lengthLabel, isPlain_singleton s.pad, nofun⟩

theorem IsPlain.hasTexts {s : Settings} (h : s.IsPlain) : s.fields.HasTexts := by
  rintro ⟨name, value⟩ hm
  cases h.fields _ hm with
  | null => exact .inl rfl
  | string _ => exact .inr ⟨_, rfl⟩

section
variable [Codec] [LawfulCodec]

theorem toJson_of_isPlain {s : Settings} (h : s.IsPlain) : s.toJson = .ok (.object s.fields.members) :=
  LawfulCodec.encode_texts _ h.hasTexts

theorem ofJson_object (members : List (Text × Json)) : ofJson (.object members) =
    (Fields.ofMembers members).mapError .raised >>= fun f => make f.version f.numberLabel f.lengthLabel f.pad := by
  rw [ofJson, LawfulCodec.decode_object]

theorem ofJson_members {s : Settings} (h : s.IsPlain) : ofJson (.object s.fields.members) = .ok s := by
  have hfields : Fields.ofMembers s.fields.members = .ok s.fields := by
    refine ofMembers_eq_ok_iff.2 fun m hm => ⟨m.2, ?_, coerce_of_isPlain (h.fields m hm)⟩
    simp only [Settings.fields, Fields.members, List.mem_cons, List.not_mem_nil, or_false] at hm
    rcases hm with rfl | rfl | rfl | rfl <;> rfl
  rw [ofJson_object, mapError_eq_ok_iff.2 hfields]
  exact make_self s

theorem ofJson_eq_ok_iff {value : Json} {s : Settings} :
    ofJson value = .ok s ↔ ∃ members, value = .object members ∧ Fields.ofMembers members = .ok s.fields := by
  constructor
  · intro h
    obtain ⟨f, hf, hmake⟩ := exists_of_bind_eq_ok h
    rw [mapError_eq_ok_iff] at hf
    obtain ⟨hversion, hnumber, hlength, hpad⟩ := make_eq_ok_iff.1 hmake
    have hfields : f = s.fields := by
      cases f
      rw [Settings.fields]
      congr
    by_cases hobject : ∃ members, value = .object members
    · obtain ⟨members, rfl⟩ := hobject
      rw [LawfulCodec.decode_object] at hf
      exact ⟨members, rfl, hfields ▸ hf⟩
    · obtain ⟨e, he, -⟩ := LawfulCodec.decode_other value fun members h => hobject ⟨members, h⟩
      rw [he] at hf
      cases hf
  · rintro ⟨members, rfl, h⟩
    rw [ofJson_object, mapError_eq_ok_iff.2 h]
    exact make_self s

theorem isPlain_of_ofJson {members : List (Text × Json)} {s : Settings} (h : ofJson (.object members) = .ok s)
    (hm : ∀ name t, Members.get? members name = some (.string t) → t.Unpaired) : s.IsPlain := by
  obtain ⟨_, hobject, hf⟩ := ofJson_eq_ok_iff.1 h
  cases hobject
  have hplain : ∀ m ∈ s.fields.members, m.2.IsPlain := by
    intro m hmem
    obtain ⟨given, hgiven, hcoerce⟩ := ofMembers_eq_ok_iff.1 hf m hmem
    exact isPlain_of_coerce hcoerce fun t ht => hm m.1 t (ht ▸ hgiven)
  simp only [Settings.fields, Fields.members, List.forall_mem_cons] at hplain
  obtain ⟨hversion, hnumber, hlength, -⟩ := hplain
  refine ⟨hversion, hnumber, ?_⟩
  cases hlength with
  | string h => exact h

end

end Typeahead.Settings
