import Typeahead.Proofs.Settings
import Typeahead.Proofs.Tree
import Typeahead.Settings.Store

/-!
# Settings in files, written and read back

Settings that JSON gives back as they are come back from their file, too, also after its lines have been
given other ends. Only the file is changed.
-/

namespace Typeahead.Settings

open Text.Utf8 (Octets)

/-! ## Contents -/

theorem nodup_names (f : Fields) : (f.members.map (·.1)).Nodup :=
  (by decide : [versionName, numberLabelName, lengthLabelName, padName].Nodup)

section
variable [Host]

theorem read_members {f : Fields} (hf : ∀ m ∈ f.members, m.2.IsPlain) :
    Json.read ((Json.object f.members).text ++ "\n") = .ok (.object f.members) := by
  have hname (name : String) : (Text.ofString name).Unpaired := (Text.isScalar_ofString name).unpaired
  apply Json.read_text
  · intro m hm
    refine ⟨?_, hf m hm⟩
    simp only [Fields.members, List.mem_cons, List.not_mem_nil, or_false] at hm
    rcases hm with rfl | rfl | rfl | rfl <;> exact hname _
  · exact nodup_names f
  · decide

section
variable [Codec] [LawfulCodec] {s : Settings} (h : s.IsPlain)
include h

theorem exists_fileText : ∃ t, s.fileText = .ok t ∧ s.content = Text.Utf8.encode t ∧ t.IsPlainLines ∧
    Json.read t = .ok (.object s.fields.members) := by
  have hwrite : s.fileText = .ok ((Json.object s.fields.members).text ++ "\n") := by
    rw [fileText, LawfulCodec.write_texts _ h.hasTexts]
    rfl
  refine ⟨_, hwrite, by rw [content, hwrite], ?_, read_members h.fields⟩
  exact .append (Json.isPlainLines_write 0 _) (by decide)

theorem octet_lt_of_content : ∀ b ∈ s.content, b < 0x80 := by
  obtain ⟨t, -, hcontent, hlines, -⟩ := exists_fileText h
  rw [hcontent]
  exact fun _ hb => Text.Utf8.octet_lt_of_ascii hlines.isAscii hb

/-- What is read back from the text of a file, if its lines are joined to the text that was written. -/
theorem ofContent_of_lines {octets : Octets} {t u : Text} (ht : Text.Utf8.decode octets = .ok t)
    (hlines : Text.unifyLineEnds t = u) (hu : Json.read u = .ok (.object s.fields.members)) :
    ofContent octets = .ok s := by
  unfold ofContent
  rw [mapError_eq_ok_iff.2 ht, ok_bind]
  simp only [hlines]
  rw [mapError_eq_ok_iff.2 hu, ok_bind, mapError_eq_ok_iff.2 (ofJson_members h)]

theorem ofContent_content : ofContent s.content = .ok s := by
  obtain ⟨t, -, hcontent, hlines, hread⟩ := exists_fileText h
  rw [hcontent]
  exact ofContent_of_lines h (Text.Utf8.decode_encode hlines.isAscii)
    (Text.unifyLineEnds_of_not_mem hlines.not_mem_return) hread

theorem ofContent_crlf : ofContent (Text.Utf8.crlf s.content) = .ok s := by
  obtain ⟨t, -, hcontent, hlines, hread⟩ := exists_fileText h
  rw [hcontent, Text.Utf8.crlf_encode hlines.isAscii]
  exact ofContent_of_lines h (Text.Utf8.decode_encode (Text.isAscii_crlf hlines.isAscii))
    (Text.unifyLineEnds_crlf hlines.not_mem_return) hread

theorem save_of_write {path : Text} {tree tree' : FileTree} (hw : tree.write path s.content = .ok tree') :
    s.save path tree = (.ok (), tree') := by
  obtain ⟨t, ht, -⟩ := exists_fileText h
  rw [save, hw]
  simp only [ht]
  rfl

end

/-! ## Files -/

section
variable [Codec]

theorem load_of_read {tree : FileTree} {path : Text} {octets : Octets} (h : tree.read path = .ok octets) :
    load path tree = loadExisting path tree := by
  have hf := FileTree.find_of_read h
  rw [load, FileTree.ensureDirectory_splitLast hf]
  simp only [FileTree.isFile_iff.2 ⟨octets, hf⟩, if_true]

theorem load_of_ok {tree : FileTree} {path : Text} {octets : Octets} {s : Settings} (h : tree.read path = .ok octets)
    (hs : ofContent octets = .ok s) : load path tree = ⟨tree, [], .ok (some s)⟩ := by
  rw [load_of_read h, loadExisting, mapError_eq_ok_iff.2 h, ok_bind, hs]

theorem load_write {tree tree' : FileTree} {path : Text} {octets : Octets} {s : Settings}
    (hw : tree.write path octets = .ok tree') (h : ofContent octets = .ok s) :
    load path tree' = ⟨tree', [], .ok (some s)⟩ := by
  obtain ⟨_, _, w, rfl⟩ := FileTree.write_eq_ok_iff.1 hw
  exact load_of_ok (FileTree.read_of_find (w.find_put octets)) h

/-- Settings of null and texts, such as all that are taken from an object of such texts, are loaded from
the file that they are saved in, whatever ends its lines have. Saved again they give the same file. -/
theorem file_round_trip [LawfulCodec] :
    (∀ (s : Settings), s.IsPlain → ∀ (tree written : FileTree) (path : Text) (octets : Octets),
      tree.write path octets = .ok written → ∃ (place : Location) (saved : FileTree),
        s.save path tree = (.ok (), saved) ∧
        saved.get? place = some (.file s.content) ∧ (∀ b ∈ s.content, b < 0x80) ∧
        (∀ other ≠ place, saved.get? other = tree.get? other) ∧
        load path saved = ⟨saved, [], .ok (some s)⟩ ∧
        (∃ changed, saved.write path (Text.Utf8.crlf s.content) = .ok changed ∧
          changed.get? place = some (.file (Text.Utf8.crlf s.content)) ∧
          load path changed = ⟨changed, [], .ok (some s)⟩) ∧
        (∃ again, s.save path saved = (.ok (), again) ∧ ∀ any, again.get? any = saved.get? any) ∧
        ∃ value, s.toJson = .ok value ∧ ofJson value = .ok s) ∧
      ∀ (members : List (Text × Json)) (s : Settings), ofJson (.object members) = .ok s →
        (∀ name t, Members.get? members name = some (.string t) → t.Unpaired) → s.IsPlain := by
  refine ⟨?_, fun members s h hm => isPlain_of_ofJson h hm⟩
  intro s h tree written path octets hw
  obtain ⟨place, name, w, _⟩ := FileTree.write_eq_ok_iff.1 hw
  have w' := w.writable_put s.content
  have hsaved := w.write_eq s.content
  have hchanged := w'.write_eq (Text.Utf8.crlf s.content)
  refine ⟨place ++ [name], _, save_of_write h hsaved, FileTree.get?_put_self _ _ _, octet_lt_of_content h,
    fun other hne => w.get?_put_of_ne s.content hne, load_write hsaved (ofContent_content h),
    ⟨_, hchanged, FileTree.get?_put_self _ _ _, load_write hchanged (ofContent_crlf h)⟩,
    ⟨_, save_of_write h (w'.write_eq s.content), fun any => ?_⟩, _, toJson_of_isPlain h, ofJson_members h⟩
  by_cases hany : any = place ++ [name]
  · rw [hany, FileTree.get?_put_self, FileTree.get?_put_self]
  · exact w'.get?_put_of_ne s.content hany

end

end

attribute [local instance] Host.usual Codec.usual lawfulCodec_usual

theorem file_round_trip_lines :
    (∃ saved, { (default : Settings) with version := .string "é😀\r\n" }.save "d/c" (.directory [([0x64], .empty)]) =
        (.ok (), saved) ∧
      load "d/c" saved = ⟨saved, [], .ok (some { (default : Settings) with version := .string "é😀\r\n" })⟩) ∧
      { (default : Settings) with version := .string "1", numberLabel := .null }.IsPlain := by
  have hplain : { (default : Settings) with version := .string "é😀\r\n" }.IsPlain :=
    ⟨.string (Text.isScalar_ofString _).unpaired, .string (Text.isScalar_ofString _).unpaired,
      (Text.isScalar_ofString _).unpaired⟩
  obtain ⟨_, saved, hsave, _, _, _, hload, _⟩ :=
    file_round_trip.1 _ hplain (.directory [([0x64], .empty)]) _ "d/c" [] rfl
  refine ⟨⟨saved, hsave, hload⟩, file_round_trip.2 [("version", .int 1), ("number_placeholder", .null),
    ("fixed_length_number_placeholder", .string defaultLengthLabel), ("pad_character", .int 0)] _ ?_ ?_⟩
  · exact make_self { (default : Settings) with version := .string "1", numberLabel := .null }
  · intro name t ht
    obtain ⟨m, hm, hv⟩ := Option.map_eq_some_iff.1 ht
    have hmem := List.mem_of_find?_eq_some hm
    simp only [List.mem_cons, List.not_mem_nil, or_false] at hmem
    rcases hmem with rfl | rfl | rfl | rfl <;> cases hv
    exact (Text.isScalar_ofString _).unpaired

end Typeahead.Settings
