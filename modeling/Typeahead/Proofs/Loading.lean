import Typeahead.Proofs.Refusal
import Typeahead.Proofs.Storage

/-!
# Settings loaded from any file

Whatever a file holds, loading it gives settings or a warning, and changes nothing. Faults of a few classes are
not met in this way: that arrays and objects are nested too deep to be read or displayed, and what rendering a
label comes to if a text is too wide or a name goes on after the argument.
-/

namespace Typeahead.Settings

open Text.Utf8 (Octets)

/-! ## Faults of fields -/

theorem recorded_or_recursion (fault : Json.DisplayFault) :
    fault.errorClass.handledBy recorded = true ∨ fault.errorClass = .recursion := by
  cases fault
  · exact .inr rfl
  · exact .inl rfl

section
variable [Host]

theorem field_error {members : List (Text × Json)} {name : Text} {e : Raised} (h : field members name = .error e) :
    e.kind.handledBy recorded = true ∨ e.kind = .recursion := by
  have hshown {value : Json} (h : Json.string <$> value.shown.mapError undisplayable = .error e) :
      e.kind.handledBy recorded = true ∨ e.kind = .recursion := by
    obtain ⟨fault, -, rfl⟩ := mapError_eq_error_iff.1 (map_eq_error h)
    exact recorded_or_recursion fault
  unfold field at h
  split at h
  · cases h; exact .inl rfl
  · unfold coerce at h
    split at h
    · cases h
    · cases h
    · exact hshown h

theorem ofMembers_error {members : List (Text × Json)} {e : Raised} (h : Fields.ofMembers members = .error e) :
    e.kind.handledBy recorded = true ∨ e.kind = .recursion := by
  unfold Fields.ofMembers at h
  iterate 4
    rcases exists_of_bind_eq_error h with h | ⟨_, _, h⟩
    · exact field_error h
  cases h

theorem checkPad_error {value : Json} {f : Fault} (h : checkPad value = .error f) :
    f.errorClass.handledBy recorded = true ∨ f.errorClass = .recursion := by
  have hrefuse : (refusePad value).errorClass.handledBy recorded = true ∨ (refusePad value).errorClass = .recursion := by
    unfold refusePad Json.refusing
    split
    · exact .inl rfl
    · exact recorded_or_recursion _
  unfold checkPad at h
  split at h
  · cases h; exact .inl rfl
  · split at h
    · split at h
      · cases h
      · cases h; exact hrefuse
    · cases h; exact .inl rfl
  · cases h; exact hrefuse

theorem checkLabel_error {value : Json} {f : Fault} (h : checkLabel value = .error f) :
    f.errorClass.handledBy recorded = true ∨
      ∃ t e, f = .label t e ∧ Template.FirstFault t e ∧ e.errorClass.handledBy translated = false := by
  by_cases htext : ∃ t, value = .string t
  · obtain ⟨t, rfl⟩ := htext
    rcases checkLabel_text t with ⟨_, hlabel⟩ | ⟨e, hfirst, hlabel⟩ | ⟨_, hlabel⟩
    · rw [hlabel] at h
      cases h
    · rw [hlabel] at h
      cases h
      by_cases htranslated : e.errorClass.handledBy translated = true
      · rw [(errorClass_label t e).2 htranslated]
        exact .inl rfl
      · exact .inr ⟨t, e, rfl, hfirst, by simpa using htranslated⟩
    · rw [hlabel] at h
      cases h
      exact .inl rfl
  · unfold checkLabel at h
    split at h
    · next t => exact absurd ⟨t, rfl⟩ htext
    · cases h; exact .inl rfl

/-- Rendering a label ends in an error that is not translated: a text is too wide, or a name goes on. -/
def Fault.OfRendering (f : Fault) : Prop :=
  ∃ t e, f = .label t e ∧ Template.FirstFault t e ∧
    (e = .layout .tooWide ∨ ∃ name, Template.HasName t name ∧ Template.GoesOn name)

theorem make_error_class {version numberLabel lengthLabel pad : Json} {f : Fault}
    (h : make version numberLabel lengthLabel pad = .error f) :
    f.errorClass.handledBy recorded = true ∨ f.errorClass = .recursion ∨ f.OfRendering := by
  unfold make at h
  rcases exists_of_bind_eq_error h with h | ⟨_, _, h⟩
  · exact (checkPad_error h).imp_right .inl
  rcases exists_of_bind_eq_error h with h | ⟨_, _, h⟩
  · rcases checkLabel_error h with hrec | ⟨t, e, rfl, hfirst, he⟩
    · exact .inl hrec
    · exact .inr (.inr ⟨t, e, rfl, hfirst, hfirst.of_not_translated he⟩)
  · cases h

/-! ## Faults of content -/

variable [Codec]

theorem load_of_error {tree : FileTree} {path : Text} {octets : Octets} {fault : ReadFault}
    (h : tree.read path = .ok octets) (hs : ofContent octets = .error fault) : load path tree =
      if fault.errorClass.handledBy recorded then ⟨tree, [unreadableRecord path fault.message], .ok none⟩
      else ⟨tree, [], .error (.content fault)⟩ := by
  rw [load_of_read h, loadExisting, mapError_eq_ok_iff.2 h, ok_bind, hs]

variable [LawfulCodec]

theorem ofJson_error {value : Json} {f : Fault} (h : ofJson value = .error f) :
    f.errorClass.handledBy recorded = true ∨ f.errorClass = .recursion ∨ f.OfRendering := by
  rcases exists_of_bind_eq_error h with h | ⟨fields, _, h⟩
  · obtain ⟨e, he, rfl⟩ := mapError_eq_error_iff.1 h
    by_cases hobject : ∃ members, value = .object members
    · obtain ⟨members, rfl⟩ := hobject
      rw [LawfulCodec.decode_object] at he
      exact (ofMembers_error he).imp_right .inl
    · obtain ⟨e', he', hkind⟩ := LawfulCodec.decode_other value fun members h => hobject ⟨members, h⟩
      obtain rfl := Except.error.inj (he'.symm.trans he)
      refine .inl ?_
      rw [show (Fault.raised e').errorClass = .attribute from hkind]
      rfl
  · exact make_error_class h

theorem ofContent_error {octets : Octets} {fault : ReadFault} (h : ofContent octets = .error fault) :
    fault.errorClass.handledBy recorded = true ∨ fault.errorClass = .recursion ∨
      ∃ f : Fault, fault = .settings f ∧ f.OfRendering := by
  unfold ofContent at h
  rcases exists_of_bind_eq_error h with h | ⟨text, _, h⟩
  · obtain ⟨f, _, rfl⟩ := mapError_eq_error_iff.1 h
    exact .inl rfl
  rcases exists_of_bind_eq_error h with h | ⟨value, _, h⟩
  · obtain ⟨f, _, rfl⟩ := mapError_eq_error_iff.1 h
    cases f with
    | arrayTooDeep | objectTooDeep => exact .inr (.inl rfl)
    | _ => exact .inl rfl
  obtain ⟨f, hf, rfl⟩ := mapError_eq_error_iff.1 h
  rcases ofJson_error hf with hrec | hdeep | hrender
  · exact .inl hrec
  · exact .inr (.inl hdeep)
  · exact .inr (.inr ⟨f, rfl, hrender⟩)

theorem ofContent_eq_ok_iff {octets : Octets} {s : Settings} :
    ofContent octets = .ok s ↔ ∃ text members,
      Text.Utf8.decode octets = .ok text ∧ Json.read (Text.unifyLineEnds text) = .ok (.object members) ∧
        (∀ name ∈ [versionName, numberLabelName, lengthLabelName, padName], (Members.get? members name).isSome) ∧
        ofJson (.object members) = .ok s := by
  unfold ofContent
  constructor
  · intro h
    obtain ⟨text, hdecode, h⟩ := exists_of_bind_eq_ok h
    obtain ⟨value, hread, h⟩ := exists_of_bind_eq_ok h
    rw [mapError_eq_ok_iff] at hdecode hread h
    obtain ⟨members, rfl, hfields⟩ := ofJson_eq_ok_iff.1 h
    refine ⟨text, members, hdecode, hread, fun name hname => ?_, h⟩
    have hfield : name ∈ s.fields.members.map (·.1) := hname
    obtain ⟨m, hm, rfl⟩ := List.mem_map.1 hfield
    obtain ⟨given, hgiven, -⟩ := ofMembers_eq_ok_iff.1 hfields m hm
    rw [hgiven]
    rfl
  · rintro ⟨text, members, hdecode, hread, -, h⟩
    simp only [mapError_eq_ok_iff.2 hdecode, mapError_eq_ok_iff.2 hread, mapError_eq_ok_iff.2 h, ok_bind]

/-- A file that is there is not changed. It gives settings exactly if its text is an object with the four
members, from which settings can be taken. Otherwise there is a warning, and only one, just if the fault is of a
class that is recorded. All others are too deep a nesting, or come of rendering a label: a text is too wide, or
a name goes on after the argument. -/
theorem load_file {tree : FileTree} {path : Text} {octets : Octets} (h : tree.read path = .ok octets) :
    (load path tree).tree = tree ∧
      (∀ s, (load path tree).result = .ok (some s) ↔ ∃ text members,
        Text.Utf8.decode octets = .ok text ∧ Json.read (Text.unifyLineEnds text) = .ok (.object members) ∧
          (∀ name ∈ [versionName, numberLabelName, lengthLabelName, padName], (Members.get? members name).isSome) ∧
          ofJson (.object members) = .ok s) ∧
      ((∃ s, load path tree = ⟨tree, [], .ok (some s)⟩) ∨
          (∃ record, record.level = .warning ∧ load path tree = ⟨tree, [record], .ok none⟩) ↔
        ∀ fault, ofContent octets = .error fault → fault.errorClass.handledBy recorded = true) ∧
      ∀ fault, ofContent octets = .error fault → fault.errorClass.handledBy recorded = false →
        load path tree = ⟨tree, [], .error (.content fault)⟩ ∧
          (fault.errorClass = .recursion ∨ ∃ f : Fault, fault = .settings f ∧ f.OfRendering) := by
  cases hs : ofContent octets with
  | ok s =>
    have hload := load_of_ok h hs
    refine ⟨by rw [hload], fun s' => ?_, iff_of_true (.inl ⟨s, hload⟩) nofun, nofun⟩
    rw [← ofContent_eq_ok_iff, hload, hs]
    simp
  | error fault =>
    have hload := load_of_error h hs
    refine ⟨by rw [hload]; split <;> rfl, fun s => ?_, ?_, fun fault' hf hno => ?_⟩
    · rw [← ofContent_eq_ok_iff, hload, hs]
      split <;> simp
    · by_cases hrec : fault.errorClass.handledBy recorded = true
      · rw [if_pos hrec] at hload
        refine iff_of_true (.inr ⟨_, rfl, hload⟩) fun fault' hf => ?_
        cases hf
        exact hrec
      · rw [if_neg hrec] at hload
        refine iff_of_false (fun hmet => ?_) fun h => hrec (h fault rfl)
        rcases hmet with ⟨s, hmet⟩ | ⟨record, _, hmet⟩ <;> rw [hload] at hmet <;> cases hmet
    · cases hf
      rw [hno] at hload
      refine ⟨hload, ?_⟩
      rcases ofContent_error hs with hrec | h
      · rw [hrec] at hno
        cases hno
      · exact h

end

attribute [local instance] Host.usual Codec.usual lawfulCodec_usual

theorem load_file_broken : FileTree.read (.directory [([0x63], .file [0xff])]) "c" = .ok [0xff] ∧
    ((∃ s, load "c" (.directory [([0x63], .file [0xff])]) = ⟨.directory [([0x63], .file [0xff])], [], .ok (some s)⟩) ∨
      ∃ record, record.level = .warning ∧
        load "c" (.directory [([0x63], .file [0xff])]) = ⟨.directory [([0x63], .file [0xff])], [record], .ok none⟩) := by
  have hread : FileTree.read (.directory [([0x63], .file [0xff])]) "c" = .ok [0xff] := rfl
  have hcontent : ofContent [0xff] = .error (.octets (.invalidStart 0 0xff)) := rfl
  refine ⟨hread, (load_file hread).2.2.1.2 fun fault hf => ?_⟩
  rw [hcontent] at hf
  cases hf
  rfl

/-! ## A label that cannot be rendered -/

def flagsLabel : Text := "\x7blength.__class__.__flags__:c\x7d"

def flagsFields : Fields :=
  ⟨.string defaultVersion, .string defaultNumberLabel, .string flagsLabel, .string [defaultPad]⟩

def flagsContent : Octets := Text.Utf8.encode ((Json.object flagsFields.members).text ++ "\n")

theorem isPlain_flagsFields : ∀ m ∈ flagsFields.members, m.2.IsPlain := by
  have hplain (t : String) : (Json.string t).IsPlain := .string (Text.isScalar_ofString t).unpaired
  simp only [flagsFields, Fields.members, List.forall_mem_cons]
  exact ⟨hplain _, hplain _, hplain _, isPlain_singleton _, fun _ h => absurd h List.not_mem_nil⟩

theorem ofContent_flagsContent :
    ofContent flagsContent = .error (.settings (.label flagsLabel (.layout .characterOutOfRange))) := by
  have hlines : Text.IsPlainLines ((Json.object flagsFields.members).text ++ "\n") :=
    .append (Json.isPlainLines_write 0 _) (by decide)
  have hdecode := Text.Utf8.decode_encode hlines.isAscii
  unfold ofContent flagsContent
  rw [mapError_eq_ok_iff.2 hdecode, ok_bind]
  simp only [Text.unifyLineEnds_of_not_mem hlines.not_mem_return]
  rw [mapError_eq_ok_iff.2 (read_members isPlain_flagsFields), ok_bind]
  rfl

/-- Here loading fails, without a warning. -/
theorem load_flagsContent : FileTree.read (.directory [([0x63], .file flagsContent)]) "c" = .ok flagsContent ∧
    ∃ fault : LoadFault, fault.errorClass = .overflow ∧ load "c" (.directory [([0x63], .file flagsContent)]) =
      ⟨.directory [([0x63], .file flagsContent)], [], .error fault⟩ :=
  have hread : FileTree.read (.directory [([0x63], .file flagsContent)]) "c" = .ok flagsContent := rfl
  ⟨hread, _, rfl, load_of_error hread ofContent_flagsContent⟩

end Typeahead.Settings
