import Mathlib.Logic.Function.Iterate
import Typeahead.Proofs.Directories
import Typeahead.Proofs.Storage

/-!
# Settings where there is no file

Where there is no file, one is made with the settings used by default and read back; or nothing is changed.
The directories on the way are made first, and all that could keep the file from being made shows before
the first of them is, but for a name that cannot be made octets.
-/

namespace Typeahead.Settings

open FileTree
open Text.Utf8 (Octets)

theorem handledBy_system (error : FileError) : error.errorClass.handledBy [.system] = true := by
  cases error <;> decide

section
variable [Host]

theorem isPlain_default : (default : Settings).IsPlain where
  version := .string (Text.isScalar_ofString _).unpaired
  numberLabel := .string (Text.isScalar_ofString _).unpaired
  lengthLabel := (Text.isScalar_ofString _).unpaired

variable [Codec]

/-- A file with the settings used by default is made and read back, and from then on it is read only. -/
structure Makes (names : List Text) (tree made : FileTree) : Prop where
  first : load (pathTo names) tree = ⟨made, [writingRecord (pathTo names)], .ok (some default)⟩
  again : load (pathTo names) made = ⟨made, [], .ok (some default)⟩

/-- Loading fails with an error of the file system, and the tree is as it was. -/
def Refuses (names : List Text) (tree : FileTree) : Prop :=
  ∃ records fault, load (pathTo names) tree = ⟨tree, records, .error fault⟩ ∧ fault.errorClass.handledBy [.system] = true

/-! ## The steps of loading -/

section
variable {tree tree' : FileTree} {front : List Text} {name : Text}

theorem load_of_no_directory (h : Nameable (front ++ [name])) {fault : FileFault}
    (hd : ensureDirectory (pathTo front) tree = (.error fault, tree')) :
    load (pathTo (front ++ [name])) tree = ⟨tree', [], .error (.directory fault)⟩ := by
  rw [load, splitLast_pathTo h]
  simp only [hd]

theorem load_of_directory (h : Nameable (front ++ [name])) (hd : ensureDirectory (pathTo front) tree = (.ok (), tree'))
    (hfile : tree'.isFile (pathTo (front ++ [name])) = false) : load (pathTo (front ++ [name])) tree =
    match (default : Settings).save (pathTo (front ++ [name])) tree' with
    | (.error fault, made) => ⟨made, [writingRecord (pathTo (front ++ [name]))], .error (.save fault)⟩
    | (.ok (), made) =>
      let loading := loadExisting (pathTo (front ++ [name])) made
      { loading with records := writingRecord (pathTo (front ++ [name])) :: loading.records } := by
  rw [load, splitLast_pathTo h]
  simp only [hd, hfile]
  rfl

theorem load_of_write_error (h : Nameable (front ++ [name]))
    (hd : ensureDirectory (pathTo front) tree = (.ok (), tree'))
    (hfile : tree'.isFile (pathTo (front ++ [name])) = false) {fault : FileFault}
    (hw : tree'.write (pathTo (front ++ [name])) (default : Settings).content = .error fault) :
    load (pathTo (front ++ [name])) tree =
      ⟨tree', [writingRecord (pathTo (front ++ [name]))], .error (.save (.file fault))⟩ := by
  rw [load_of_directory h hd hfile, save, hw]

theorem load_of_file {names : List Text} (h : Reachable names) (hne : names ≠ []) {content : Octets}
    (hfile : tree.get? (location names) = some (.file content)) : (load (pathTo names) tree).tree = tree := by
  rcases List.eq_nil_or_concat names with rfl | ⟨front, name, rfl⟩
  · exact absurd rfl hne
  rw [List.concat_eq_append] at h hfile ⊢
  rw [location_concat] at hfile
  rw [load_of_read (read_of_find ((find_pathTo h).2 hfile)), loadExisting]
  split
  · rfl
  · split <;> rfl

section
variable (h : Reachable (front ++ [name]))
include h

theorem refuses_of_unwritable (hd : ensureDirectory (pathTo front) tree = (.ok (), tree))
    (hfile : ∀ content, tree.get? (location front ++ [octets name]) ≠ some (.file content))
    {e : Entry} (he : tree.get? (location front) = some e)
    (hno : e = .directory → tree.get? (location front ++ [octets name]) = some .directory) :
    Refuses (front ++ [name]) tree := by
  obtain ⟨error, hw⟩ := write_pathTo_error h (default : Settings).content he hno
  exact ⟨_, _, load_of_write_error h.toNameable hd (isFile_pathTo_eq_false h hfile) hw, handledBy_system error⟩

theorem makes_of_writable [LawfulCodec] (hd : ensureDirectory (pathTo front) tree = (.ok (), tree'))
    (hfile : ∀ content, tree'.get? (location front ++ [octets name]) ≠ some (.file content))
    (hfront : tree'.get? (location front) = some .directory)
    (hfree : tree'.get? (location front ++ [octets name]) ≠ some .directory) :
    Makes (front ++ [name]) tree (put (location front ++ [octets name]) (.file (default : Settings).content) tree') := by
  have w := writable_pathTo h hfront hfree
  have hread := read_of_find (w.find_put (default : Settings).content)
  have hagain := load_of_ok hread (ofContent_content isPlain_default)
  have hsave := save_of_write isPlain_default (w.write_eq (default : Settings).content)
  refine ⟨?_, hagain⟩
  rw [load_of_directory h.toNameable hd (isFile_pathTo_eq_false h hfile), hsave]
  rw [load_of_read hread] at hagain
  simp only [hagain]

/-! ## What becomes of the tree -/

section
variable (hfile : ∀ content, tree.get? (location front ++ [octets name]) ≠ some (.file content))
  (hle : missing tree (location front) ≤ Host.directoryDepth)
include hfile hle

theorem makes_of_clear [LawfulCodec] (hclear : WayClear tree (location front ++ [octets name]))
    (hfree : tree.get? (location front ++ [octets name]) ≠ some .directory) :
    Makes (front ++ [name]) tree (put (location front ++ [octets name]) (.file (default : Settings).content) tree) := by
  obtain ⟨habove, hno⟩ := wayClear_concat_iff.1 hclear
  cases he : tree.get? (location front) with
  | some e =>
    cases e with
    | file content => exact absurd he (hno content)
    | directory =>
      exact makes_of_writable h (ensureDirectory_of_directory h.of_concat (.inr he)) hfile he hfree
  | none =>
    -- the file is put into a directory that was made for it, which comes to the same as putting it there at once
    have hmade := ((ensureDirectory_of_none h.of_concat he).2 hle).1 habove
    have hnew : get? (put (location front) empty tree) (location front ++ [octets name]) = none :=
      get?_put_below (octets name)
    have hfront : get? (put (location front) empty tree) (location front) = some .directory :=
      get?_put_self (location front) empty tree
    rw [← put_put_empty he]
    exact makes_of_writable h hmade (by simp [hnew]) hfront (by simp [hnew])

/-- A file on the way, or a directory in the place of the file, shows before anything is made. -/
theorem refuses_of_blocked (hblocked : ¬(WayClear tree (location front ++ [octets name]) ∧
    tree.get? (location front ++ [octets name]) ≠ some .directory)) : Refuses (front ++ [name]) tree := by
  cases he : tree.get? (location front) with
  | some e =>
    have hthere : tree.get? (location front) ≠ none := by simp [he]
    cases e with
    | directory =>
      have hclear : WayClear tree (location front ++ [octets name]) :=
        wayClear_concat_iff.2 ⟨wayClear_of_get? hthere, by simp [he]⟩
      have htaken : tree.get? (location front ++ [octets name]) = some .directory :=
        Decidable.byContradiction fun hfree => hblocked ⟨hclear, hfree⟩
      exact refuses_of_unwritable h (ensureDirectory_of_directory h.of_concat (.inr he)) hfile he fun _ => htaken
    | file content =>
      -- the top is not asked to be a directory before the file is written, every other place is
      by_cases hnil : front = []
      · exact refuses_of_unwritable h (ensureDirectory_of_directory h.of_concat (.inl hnil)) hfile he nofun
      · obtain ⟨path, hfailed⟩ := ensureDirectory_of_file h.of_concat hnil he
        exact ⟨[], _, load_of_no_directory h.toNameable hfailed, handledBy_system .alreadyThere⟩
  | none =>
    have hfree : tree.get? (location front ++ [octets name]) ≠ some .directory := by
      simp [get?_concat_of_none he (octets name)]
    have hfront : ¬WayClear tree (location front) := by
      intro hclear
      apply hblocked
      exact ⟨wayClear_concat_iff.2 ⟨hclear, by simp [he]⟩, hfree⟩
    obtain ⟨path, hfailed⟩ := ((ensureDirectory_of_none h.of_concat he).2 hle).2 hfront
    exact ⟨[], _, load_of_no_directory h.toNameable hfailed, handledBy_system .notDirectory⟩

end

theorem load_of_tooDeep (hdeep : Host.directoryDepth < missing tree (location front)) :
    load (pathTo (front ++ [name])) tree = ⟨tree, [], .error (.directory .tooDeep)⟩ := by
  have hnone : tree.get? (location front) = none := by
    apply Decidable.byContradiction
    intro hthere
    rw [missing_of_get? hthere] at hdeep
    exact Nat.not_lt_zero _ hdeep
  exact load_of_no_directory h.toNameable ((ensureDirectory_of_none h.of_concat hnone).1 hdeep)

end

end

/-! ## A name that cannot be made octets -/

section
variable (tree : FileTree) {front rest : List Text} {bad : Text}

/-- How loading ends below a place: with an error, after the directories up to there were made, if none of them
is a file and if they and the others that the path names are not too many. -/
def Strays (path : Text) (place : Location) (more : Nat) (tree : FileTree) : Prop :=
  ∃ records fault after, load path tree = ⟨after, records, .error fault⟩ ∧
    (NoFile tree place ∧ missing tree place + more ≤ Host.directoryDepth →
      fault.errorClass = .encoding ∧ after = withDirectory place tree) ∧
    (¬(NoFile tree place ∧ missing tree place + more ≤ Host.directoryDepth) → after = tree)

/-- The name is the file's, so the directories are made as for any other file. -/
theorem strays_last (hfront : HaveOctets front) (hbad : bad.all isEncodable = false) (h : Nameable (front ++ [bad])) :
    Strays (pathTo (front ++ [bad])) (location front) 0 tree := by
  have hreach : Reachable front := ⟨h.of_append, hfront⟩
  have hno : ¬HaveOctets (front ++ [bad]) := not_haveOctets hbad []
  have hends {after : FileTree} (hd : ensureDirectory (pathTo front) tree = (.ok (), after)) :
      ∃ records fault, load (pathTo (front ++ [bad])) tree = ⟨after, records, .error fault⟩ ∧
        fault.errorClass = .encoding := by
    obtain ⟨_, _, hw⟩ := write_unencodable hno after (default : Settings).content
    exact ⟨_, _, load_of_write_error h hd (isFile_unencodable hno after) hw, rfl⟩
  cases he : tree.get? (location front) with
  | some e =>
    have hthere : tree.get? (location front) ≠ none := by simp [he]
    have hsame : withDirectory (location front) tree = tree := if_neg hthere
    by_cases hd : front = [] ∨ e = .directory
    · obtain ⟨records, fault, hload, hclass⟩ :=
        hends (ensureDirectory_of_directory hreach (hd.imp_right fun hd => he.trans (congrArg some hd)))
      exact ⟨records, fault, tree, hload, fun _ => ⟨hclass, hsame.symm⟩, fun _ => rfl⟩
    · cases e with
      | directory => exact absurd (.inr rfl) hd
      | file content =>
        obtain ⟨path, hfailed⟩ := ensureDirectory_of_file hreach (fun hnil => hd (.inl hnil)) he
        exact ⟨_, _, tree, load_of_no_directory h hfailed, fun hclear => absurd he (hclear.1.2 content), fun _ => rfl⟩
  | none =>
    obtain ⟨hdeep, hmade⟩ := ensureDirectory_of_none hreach he
    by_cases hle : missing tree (location front) ≤ Host.directoryDepth
    · by_cases hclear : WayClear tree (location front)
      · obtain ⟨records, fault, hload, hclass⟩ := hends ((hmade hle).1 hclear)
        refine ⟨records, fault, _, hload, fun _ => ⟨hclass, (if_pos he).symm⟩, fun hno => absurd ⟨⟨hclear, ?_⟩, hle⟩ hno⟩
        simp [he]
      · obtain ⟨path, hfailed⟩ := (hmade hle).2 hclear
        exact ⟨_, _, tree, load_of_no_directory h hfailed, fun hno => absurd hno.1.1 hclear, fun _ => rfl⟩
    · exact ⟨_, _, tree, load_of_no_directory h (hdeep (Nat.lt_of_not_le hle)), fun hno => absurd hno.2 hle, fun _ => rfl⟩

theorem strays (hfront : HaveOctets front) (hbad : bad.all isEncodable = false) (h : Nameable (front ++ bad :: rest)) :
    Strays (pathTo (front ++ bad :: rest)) (location front) rest.length tree := by
  rcases List.eq_nil_or_concat rest with rfl | ⟨before, last, rfl⟩
  · exact strays_last tree hfront hbad h
  have hsplit : front ++ bad :: before.concat last = front ++ bad :: before ++ [last] := by simp
  have hlength : (before.concat last).length = before.length + 1 := by simp
  rw [hsplit] at h ⊢
  rw [hlength]
  have hensure := ensureDirectory_unencodable tree h.of_concat (not_haveOctets hbad before)
  obtain ⟨hdeep, hstops⟩ := makeDirectories_unencodable hfront hbad tree Host.directoryDepth h.of_concat
  by_cases hle : missing tree (location front) + (before.length + 1) ≤ Host.directoryDepth
  · obtain ⟨fault, after, hfailed, -, hafter⟩ := hstops hle
    refine ⟨_, _, after, load_of_no_directory h (hensure.trans hfailed), fun hno => hafter.encoding hno.1, fun hno => ?_⟩
    exact hafter.kept fun hclear => hno ⟨hclear, hle⟩
  · exact ⟨_, _, tree, load_of_no_directory h (hensure.trans (hdeep (Nat.lt_of_not_le hle))),
      fun hno => absurd hno.2 hle, fun _ => rfl⟩

end

/-! ## The whole -/

section
variable [LawfulCodec] {names : List Text} (h : Nameable names) (hne : names ≠ []) (tree : FileTree)
include h hne

theorem load_of_haveOctets (encodable : HaveOctets names)
    (hfile : ∀ content, tree.get? (location names) ≠ some (.file content)) :
    (missing tree (location names.dropLast) ≤ Host.directoryDepth →
      (WayClear tree (location names) ∧ tree.get? (location names) ≠ some .directory →
        Makes names tree (put (location names) (.file (default : Settings).content) tree)) ∧
      (¬(WayClear tree (location names) ∧ tree.get? (location names) ≠ some .directory) → Refuses names tree)) ∧
    (Host.directoryDepth < missing tree (location names.dropLast) →
      load (pathTo names) tree = ⟨tree, [], .error (.directory .tooDeep)⟩) := by
  rcases List.eq_nil_or_concat names with rfl | ⟨front, name, rfl⟩
  · exact absurd rfl hne
  rw [List.concat_eq_append] at *
  have hreach : Reachable (front ++ [name]) := ⟨h, encodable⟩
  rw [location_concat] at hfile ⊢
  rw [List.dropLast_concat]
  refine ⟨fun hle => ⟨fun ⟨hclear, hfree⟩ => ?_, refuses_of_blocked hreach hfile hle⟩, load_of_tooDeep hreach⟩
  exact makes_of_clear hreach hfile hle hclear hfree

theorem load_keeps {q : Location} {e : Entry} (hq : tree.get? q = some e) :
    (load (pathTo names) tree).tree.get? q = some e := by
  by_cases encodable : HaveOctets names
  · by_cases hfile : ∃ content, tree.get? (location names) = some (.file content)
    · obtain ⟨content, hcontent⟩ := hfile
      rw [load_of_file ⟨h, encodable⟩ hne hcontent, hq]
    · have hno : ∀ content, tree.get? (location names) ≠ some (.file content) := not_exists.1 hfile
      obtain ⟨hmakes, hdeep⟩ := load_of_haveOctets h hne tree encodable hno
      by_cases hle : missing tree (location names.dropLast) ≤ Host.directoryDepth
      · by_cases hcan : WayClear tree (location names) ∧ tree.get? (location names) ≠ some .directory
        · rw [((hmakes hle).1 hcan).first]
          exact get?_put_new_of_some hno hcan.2 hcan.1 _ hq
        · obtain ⟨records, fault, hload, -⟩ := (hmakes hle).2 hcan
          rw [hload, hq]
      · rw [hdeep (Nat.lt_of_not_le hle), hq]
  · obtain ⟨front, bad, rest, rfl, hfront, hbad⟩ := exists_first_unencodable encodable
    obtain ⟨records, fault, after, hload, hstops, hkeeps⟩ := strays tree hfront hbad h
    rw [hload]
    by_cases hcan : NoFile tree (location front) ∧ missing tree (location front) + rest.length ≤ Host.directoryDepth
    · rw [(hstops hcan).2]
      exact get?_withDirectory_of_some hcan.1 hq
    · rw [hkeeps hcan, hq]

/-- **Where there is no file.** If no file is on the way and no directory in its place, a file with the settings
used by default is made together with the directories that are missing, and nothing else is changed; a record
says so, and from then on the file is read and no more is said. Otherwise loading fails with an error of the file
system, and the tree is as it was; and so it is, with another error, if more directories are missing than can be
made at once. If a name cannot be made octets, loading fails, too, and the directories above it stay. What was
there stays in any case. -/
theorem load_creates :
    (HaveOctets names → (∀ content, tree.get? (location names) ≠ some (.file content)) →
      (missing tree (location names.dropLast) ≤ Host.directoryDepth →
        (WayClear tree (location names) ∧ tree.get? (location names) ≠ some .directory → ∃ text made,
          (default : Settings).fileText = .ok text ∧
          load (pathTo names) tree = ⟨made, [writingRecord (pathTo names)], .ok (some default)⟩ ∧
          (writingRecord (pathTo names)).level = .debug ∧
          made.get? (location names) = some (.file (Text.Utf8.encode text)) ∧
          (∀ q ≠ location names, made.get? q = if q <+: location names then some .directory else tree.get? q) ∧
          ∀ n, load (pathTo names) ((fun t => (load (pathTo names) t).tree)^[n] made) =
            ⟨made, [], .ok (some default)⟩) ∧
        (¬(WayClear tree (location names) ∧ tree.get? (location names) ≠ some .directory) → ∃ records fault,
          load (pathTo names) tree = ⟨tree, records, .error fault⟩ ∧
          fault.errorClass.handledBy [.system] = true)) ∧
      (Host.directoryDepth < missing tree (location names.dropLast) →
        load (pathTo names) tree = ⟨tree, [], .error (.directory .tooDeep)⟩)) ∧
    (∀ front bad rest, names = front ++ bad :: rest → HaveOctets front → bad.all isEncodable = false →
      ∃ records fault after, load (pathTo names) tree = ⟨after, records, .error fault⟩ ∧
        (NoFile tree (location front) ∧ missing tree (location front) + rest.length ≤ Host.directoryDepth →
          fault.errorClass = .encoding ∧
          ∀ q, after.get? q = if q <+: location front then some .directory else tree.get? q) ∧
        (¬(NoFile tree (location front) ∧ missing tree (location front) + rest.length ≤ Host.directoryDepth) →
          after = tree)) ∧
    ∀ q e, tree.get? q = some e → (load (pathTo names) tree).tree.get? q = some e := by
  refine ⟨fun encodable hfile => ?_, ?_, fun q e => load_keeps h hne tree⟩
  · obtain ⟨hmakes, hdeep⟩ := load_of_haveOctets h hne tree encodable hfile
    refine ⟨fun hle => ⟨fun hcan => ?_, (hmakes hle).2⟩, hdeep⟩
    obtain ⟨text, htext, hcontent, -⟩ := exists_fileText isPlain_default
    have hmade := (hmakes hle).1 hcan
    refine ⟨text, _, htext, hmade.first, rfl, ?_, fun q hq => get?_put_new hcan.2 rfl hq, fun n => ?_⟩
    · rw [get?_put_self, ← hcontent]
      rfl
    · rw [Function.iterate_fixed (congrArg Loading.tree hmade.again), hmade.again]
  · rintro front bad rest rfl hfront hbad
    obtain ⟨records, fault, after, hload, hstops, hkeeps⟩ := strays tree hfront hbad h
    refine ⟨records, fault, after, hload, fun hcan => ?_, hkeeps⟩
    obtain ⟨hclass, rfl⟩ := hstops hcan
    exact ⟨hclass, get?_withDirectory hcan.1⟩

end

end

/-! ## The empty tree -/

theorem get?_empty {place : Location} (h : place ≠ []) : FileTree.empty.get? place = none := by
  cases place with
  | nil => exact absurd rfl h
  | cons name rest => rfl

theorem wayClear_empty (place : Location) : WayClear .empty place := by
  intro q _ _ content hq
  by_cases hnil : q = []
  · rw [hnil] at hq
    cases hq
  · rw [get?_empty hnil] at hq
    cases hq

theorem missing_empty (place : Location) : missing .empty place = place.length := by
  cases place <;> rfl

def deep (n : Nat) : List Text := List.replicate n ("a" : Text) ++ [("x" : Text)]

theorem deep_ne_nil (n : Nat) : deep n ≠ [] := by
  simp [deep]

theorem octetCount_pathTo_deep (n : Nat) : octetCount (pathTo (deep n)) = 2 * n + 1 := by
  induction n with
  | zero => rfl
  | succ n ih =>
    have hcons : deep (n + 1) = ("a" : Text) :: deep n := rfl
    rw [hcons, pathTo_cons _ (deep_ne_nil n), octetCount_append, ← List.singleton_append, octetCount_append, ih]
    have hletter : octetCount "a" = 1 := rfl
    have hslash : octetCount [.scalar '/'] = 1 := rfl
    omega

theorem mem_deep {n : Nat} {name : Text} (h : name ∈ deep n) : name = "a" ∨ name = "x" := by
  rcases List.mem_append.1 h with h | h
  · exact .inl (List.eq_of_mem_replicate h)
  · exact .inr (List.mem_singleton.1 h)

theorem reachable_deep {n : Nat} (h : 2 * n + 1 ≤ pathLimit) : Reachable (deep n) where
  ordinary := by
    intro name hname
    rcases mem_deep hname with rfl | rfl <;> decide
  short := by rwa [octetCount_pathTo_deep]
  encodable := by
    intro name hname
    rcases mem_deep hname with rfl | rfl <;> decide

attribute [local instance] Host.usual Codec.usual lawfulCodec_usual

theorem load_creates_dc : Nameable ["d", "c"] ∧ (["d", "c"] : List Text) ≠ [] ∧ HaveOctets ["d", "c"] ∧
    (∀ content, FileTree.empty.get? (location ["d", "c"]) ≠ some (.file content)) ∧
    ∃ text made, load "d/c" .empty = ⟨made, [writingRecord "d/c"], .ok (some default)⟩ ∧
      made.get? [[0x64]] = some .directory ∧ made.get? [[0x64], [0x63]] = some (.file (Text.Utf8.encode text)) := by
  have h : Nameable ["d", "c"] := by decide
  have hne : (["d", "c"] : List Text) ≠ [] := nofun
  have encodable : HaveOctets ["d", "c"] := by decide
  have hfile : ∀ content, FileTree.empty.get? (location ["d", "c"]) ≠ some (.file content) := fun _ => nofun
  obtain ⟨hmade, _⟩ := (load_creates h hne .empty).1 encodable hfile
  obtain ⟨text, made, _, hload, _, hcontent, hothers, _⟩ := (hmade (by decide)).1 ⟨wayClear_empty _, nofun⟩
  refine ⟨h, hne, encodable, hfile, text, made, hload, ?_, hcontent⟩
  rw [hothers [[0x64]] (by decide)]
  exact if_pos (by decide)

/-- Nothing is in the way of the file, and it is not made. -/
theorem load_deep : Reachable (deep 1200) ∧ WayClear .empty (location (deep 1200)) ∧
    FileTree.empty.get? (location (deep 1200)) = none ∧
    load (pathTo (deep 1200)) .empty = ⟨.empty, [], .error (.directory .tooDeep)⟩ := by
  have h : Reachable (deep 1200) := reachable_deep (by decide)
  refine ⟨h, wayClear_empty _, get?_empty (mt location_eq_nil_iff.1 (deep_ne_nil _)), load_of_tooDeep h ?_⟩
  rw [missing_empty, location, List.length_map, List.length_replicate]
  decide

end Typeahead.Settings
