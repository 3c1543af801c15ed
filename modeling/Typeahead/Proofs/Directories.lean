import Typeahead.Proofs.OrdinaryPath

/-!
# Making directories

A directory is made after those that are missing on the way to it. If a file is on the way, or if more of
them are missing than can be made at once, the tree is as before. If a name on the way cannot be made octets,
the directories before it are made all the same.
-/

namespace Typeahead.Members

variable {κ α : Type} [DecidableEq κ]

theorem put_put (name : κ) (new old : α) (members : List (κ × α)) :
    put name new (put name old members) = put name new members := by
  induction members with
  | nil => simp [put]
  | cons m rest ih =>
    obtain ⟨k, v⟩ := m
    by_cases h : k = name
    · simp [put, h]
    · simp [put, h, ih]

end Typeahead.Members

namespace Typeahead.FileTree

open Text.Utf8 (Octets)

/-! ## Changes one after another -/

theorem put_put (place : Location) (new old tree : FileTree) : put place new (put place old tree) = put place new tree := by
  induction place generalizing tree with
  | nil => rfl
  | cons name rest ih => simp only [put, members_directory, Members.get?_put_self, Option.getD_some, ih, Members.put_put]

theorem at?_empty_getD (place : Location) : (empty.at? place).getD empty = empty := by
  cases place <;> rfl

theorem put_append (place below : Location) (new tree : FileTree) :
    put (place ++ below) new tree = put place (put below new ((tree.at? place).getD empty)) tree := by
  induction place generalizing tree with
  | nil => rfl
  | cons name rest ih =>
    rw [List.cons_append, put, put, at?, ih]
    cases Members.get? tree.members name with
    | none => rw [Option.getD_none, at?_empty_getD, Option.bind_none, Option.getD_none]
    | some t => rfl

/-- Where there is nothing, it makes no difference whether a directory is made first. -/
theorem put_put_empty {place : Location} {tree : FileTree} (h : tree.get? place = none) (below : Location)
    (new : FileTree) : put (place ++ below) new (put place empty tree) = put (place ++ below) new tree := by
  have hat : tree.at? place = none := Option.map_eq_none_iff.1 h
  have hput := at?_put_append place [] empty tree
  rw [List.append_nil] at hput
  rw [put_append, put_append, hput, hat, put_put]
  rfl

theorem get?_put_below {place : Location} {tree : FileTree} (name : Octets) :
    get? (put place empty tree) (place ++ [name]) = none := by
  rw [get?, at?_put_append]
  rfl

/-! ## What is on the way -/

/-- How many directories are missing on the way to a location, the last name included. -/
def missing : FileTree → Location → Nat
  | _, [] => 0
  | tree, name :: rest =>
    match Members.get? tree.members name with
    | some below => missing below rest
    | none => rest.length + 1

/-- No file is above a location. -/
def WayClear (tree : FileTree) (place : Location) : Prop :=
  ∀ q, q <+: place → q ≠ place → ∀ content, tree.get? q ≠ some (.file content)

section
variable {tree : FileTree} {front : Location} {name : Octets}

theorem missing_concat (tree : FileTree) (front : Location) (name : Octets) :
    missing tree (front ++ [name]) =
      missing tree front + if tree.get? (front ++ [name]) = none then 1 else 0 := by
  induction front generalizing tree with
  | nil =>
    simp only [List.nil_append, missing, get?, at?]
    cases Members.get? tree.members name <;> rfl
  | cons first front ih =>
    simp only [List.cons_append, missing, get?, at?]
    cases Members.get? tree.members first with
    | none => simp
    | some below => exact ih below

theorem missing_of_get? {place : Location} (h : tree.get? place ≠ none) : missing tree place = 0 := by
  induction place generalizing tree with
  | nil => rfl
  | cons name rest ih =>
    rw [get?, at?] at h
    rw [missing]
    cases hm : Members.get? tree.members name with
    | none =>
      rw [hm] at h
      exact absurd rfl h
    | some below =>
      rw [hm] at h
      exact ih h

theorem ne_nil_of_get? {place : Location} (h : tree.get? place = none) : place ≠ [] := by
  intro hnil
  rw [hnil] at h
  cases h

theorem missing_pos {place : Location} (h : tree.get? place = none) : 0 < missing tree place := by
  rcases List.eq_nil_or_concat place with rfl | ⟨front, name, rfl⟩
  · exact absurd rfl (ne_nil_of_get? h)
  · rw [List.concat_eq_append] at h ⊢
    rw [missing_concat, if_pos h]
    exact Nat.succ_pos _

theorem get?_concat_of_none (h : tree.get? front = none) (name : Octets) : tree.get? (front ++ [name]) = none := by
  have hat : tree.at? front = none := Option.map_eq_none_iff.1 h
  rw [get?, at?_append, hat]
  rfl

theorem wayClear_concat_iff :
    WayClear tree (front ++ [name]) ↔ WayClear tree front ∧ ∀ content, tree.get? front ≠ some (.file content) := by
  have hfront : front ≠ front ++ [name] := fun h => by simp at h
  constructor
  · intro h
    refine ⟨?_, h front (List.prefix_append _ _) hfront⟩
    intro q hq _
    apply h q (hq.trans (List.prefix_append _ _))
    intro heq
    have hlen := hq.length_le
    rw [heq, List.length_append, List.length_singleton] at hlen
    omega
  · intro ⟨habove, hno⟩ q hq hne
    rcases List.prefix_concat_iff.1 hq with heq | hq
    · exact absurd heq hne
    · by_cases heq : q = front
      · exact heq ▸ hno
      · exact habove q hq heq

theorem wayClear_of_get? {place : Location} (h : tree.get? place ≠ none) : WayClear tree place := by
  intro q hq hne content hfile
  rw [get?_of_isPrefix h hq hne] at hfile
  cases hfile

end

/-! ## One level of a path -/

section
variable {tree tree' : FileTree} {front : List Text} {name : Text}

theorem pathTo_eq_nil_iff (h : Nameable front) : pathTo front = [] ↔ front = [] := by
  rcases List.eq_nil_or_concat front with rfl | ⟨before, last, rfl⟩
  · exact iff_of_true rfl rfl
  · rw [List.concat_eq_append] at h ⊢
    exact iff_of_false (pathTo_ne_nil h.last) (by simp)

variable (h : Nameable (front ++ [name])) {levels : Nat}
include h

theorem makeDirectories_of_there (hthere : front = [] ∨ tree.leadsSomewhere (pathTo front) = true) :
    makeDirectories (levels + 1) (pathTo (front ++ [name])) tree =
      match tree.makeDirectory (pathTo (front ++ [name])) with
      | .ok tree' => (.ok (), tree')
      | .error fault => (.error fault, tree) := by
  have hno : ¬(pathTo front ≠ [] ∧ name ≠ [] ∧ (!tree.leadsSomewhere (pathTo front)) = true) := by
    rintro ⟨hpath, -, hmissing⟩
    rcases hthere with hnil | hthere
    · exact hpath ((pathTo_eq_nil_iff h.of_concat).2 hnil)
    · rw [hthere] at hmissing
      cases hmissing
  rw [makeDirectories]
  simp only [splitLast_pathTo h]
  rw [if_neg h.last.ne_nil]
  dsimp only
  exact if_neg hno

section
variable (hne : front ≠ []) (hmissing : tree.leadsSomewhere (pathTo front) = false)
include hne hmissing

theorem makeDirectories_of_made (hmade : makeDirectories levels (pathTo front) tree = (.ok (), tree')) :
    makeDirectories (levels + 1) (pathTo (front ++ [name])) tree =
      match tree'.makeDirectory (pathTo (front ++ [name])) with
      | .ok tree'' => (.ok (), tree'')
      | .error fault => (.error fault, tree') := by
  rw [makeDirectories]
  simp only [splitLast_pathTo h]
  rw [if_neg h.last.ne_nil]
  dsimp only
  rw [if_pos ⟨mt (pathTo_eq_nil_iff h.of_concat).1 hne, h.last.ne_nil, by rw [hmissing]; rfl⟩, hmade]
  exact if_neg h.last.ne_dot

theorem makeDirectories_of_error {fault : FileFault} (hfault : ∀ path, fault ≠ .failed .alreadyThere path)
    (hfailed : makeDirectories levels (pathTo front) tree = (.error fault, tree')) :
    makeDirectories (levels + 1) (pathTo (front ++ [name])) tree = (.error fault, tree') := by
  rw [makeDirectories]
  simp only [splitLast_pathTo h]
  rw [if_neg h.last.ne_nil]
  dsimp only
  rw [if_pos ⟨mt (pathTo_eq_nil_iff h.of_concat).1 hne, h.last.ne_nil, by rw [hmissing]; rfl⟩, hfailed]
  split
  · next heq =>
    cases heq
    exact absurd rfl (hfault _)
  · next heq => cases heq
  · next heq => cases heq; rfl

end

end

/-! ## Names that can be made octets -/

theorem leadsSomewhere_eq {tree : FileTree} {names : List Text} (h : Reachable names) (hne : names ≠ []) :
    tree.leadsSomewhere (pathTo names) = (tree.get? (location names)).isSome := by
  rcases List.eq_nil_or_concat names with rfl | ⟨front, name, rfl⟩
  · exact absurd rfl hne
  · rw [List.concat_eq_append] at h ⊢
    rw [location_concat, Bool.eq_iff_iff, leadsSomewhere_pathTo h, Option.isSome_iff_ne_none]

theorem location_eq_nil_iff {names : List Text} : location names = [] ↔ names = [] := List.map_eq_nil_iff

theorem ne_nil_of_missing {tree : FileTree} {names : List Text} (h : tree.get? (location names) = none) : names ≠ [] :=
  mt location_eq_nil_iff.2 (ne_nil_of_get? h)

theorem there_of_get? {tree : FileTree} {names : List Text} (h : Reachable names)
    (hsome : tree.get? (location names) ≠ none) : names = [] ∨ tree.leadsSomewhere (pathTo names) = true := by
  refine Classical.or_iff_not_imp_left.2 fun hne => ?_
  rw [leadsSomewhere_eq h hne]
  exact Option.isSome_iff_ne_none.2 hsome

theorem not_leadsSomewhere {tree : FileTree} {names : List Text} (h : Reachable names)
    (hnone : tree.get? (location names) = none) : tree.leadsSomewhere (pathTo names) = false := by
  rw [leadsSomewhere_eq h (ne_nil_of_missing hnone), hnone]
  rfl

/-- A directory that is not there is made with all that are missing above it, or none is made. -/
theorem makeDirectories_pathTo (levels : Nat) {tree : FileTree} {names : List Text} (h : Reachable names)
    (hnone : tree.get? (location names) = none) :
    (levels < missing tree (location names) → makeDirectories levels (pathTo names) tree = (.error .tooDeep, tree)) ∧
      (missing tree (location names) ≤ levels →
        (WayClear tree (location names) →
          makeDirectories levels (pathTo names) tree = (.ok (), put (location names) empty tree)) ∧
        (¬WayClear tree (location names) → ∃ path,
          makeDirectories levels (pathTo names) tree = (.error (.failed .notDirectory path), tree))) := by
  -- each level makes what is missing before the last name with one level less
  induction levels generalizing names with
  | zero => exact ⟨fun _ => rfl, fun hle => absurd hle (Nat.not_le.2 (missing_pos hnone))⟩
  | succ levels ih =>
    rcases List.eq_nil_or_concat names with rfl | ⟨front, name, rfl⟩
    · exact absurd rfl (ne_nil_of_missing hnone)
    rw [List.concat_eq_append] at h hnone ⊢
    rw [location_concat] at hnone ⊢
    rw [missing_concat, if_pos hnone, wayClear_concat_iff]
    cases he : tree.get? (location front) with
    | some e =>
      have hsome : tree.get? (location front) ≠ none := by simp [he]
      rw [missing_of_get? hsome, makeDirectories_of_there h.toNameable (there_of_get? h.of_concat hsome),
        makeDirectory_pathTo h he]
      refine ⟨fun hlt => by omega, fun _ => ⟨fun ⟨_, hdirectory⟩ => ?_, fun hblocked => ?_⟩⟩
      · cases e with
        | directory => simp only [hnone, if_true, Option.isSome_none, Bool.false_eq_true, if_false]
        | file content => exact absurd rfl (hdirectory content)
      · cases e with
        | directory => exact absurd ⟨wayClear_of_get? hsome, nofun⟩ hblocked
        | file content => exact ⟨pathTo (front ++ [name]), rfl⟩
    | none =>
      have hne := ne_nil_of_missing he
      have hmissing := not_leadsSomewhere h.of_concat he
      obtain ⟨hdeep, hmade⟩ := ih h.of_concat he
      refine ⟨fun hlt => ?_, fun hle => ⟨fun ⟨hclear, _⟩ => ?_, fun hblocked => ?_⟩⟩
      · exact makeDirectories_of_error h.toNameable hne hmissing nofun (hdeep (by omega))
      · have hfront : get? (put (location front) empty tree) (location front) = some .directory :=
          get?_put_self (location front) empty tree
        rw [makeDirectories_of_made h.toNameable hne hmissing ((hmade (by omega)).1 hclear),
          makeDirectory_pathTo h hfront, if_pos rfl, get?_put_below, put_put_empty he]
        rfl
      · have hfront : ¬WayClear tree (location front) := fun hclear => hblocked ⟨hclear, nofun⟩
        obtain ⟨path, hfailed⟩ := (hmade (by omega)).2 hfront
        exact ⟨path, makeDirectories_of_error h.toNameable hne hmissing nofun hfailed⟩

/-! ## A name that cannot be made octets -/

/-- No file is at the location or above it. -/
def NoFile (tree : FileTree) (place : Location) : Prop :=
  WayClear tree place ∧ ∀ content, tree.get? place ≠ some (.file content)

section
variable {names : List Text} (h : ¬HaveOctets names) (tree : FileTree)
include h

theorem exists_first_unencodable :
    ∃ front bad rest, names = front ++ bad :: rest ∧ HaveOctets front ∧ bad.all isEncodable = false := by
  induction names with
  | nil => exact absurd nofun h
  | cons name names ih =>
    by_cases hname : name.all isEncodable = true
    · obtain ⟨front, bad, rest, rfl, hfront, hbad⟩ := ih fun hnames => h (List.forall_mem_cons.2 ⟨hname, hnames⟩)
      exact ⟨name :: front, bad, rest, rfl, List.forall_mem_cons.2 ⟨hname, hfront⟩, hbad⟩
    · exact ⟨[], name, names, rfl, nofun, Bool.eq_false_iff.2 hname⟩

theorem exists_checkPath : ∃ position surrogates, checkPath (pathTo names) = .error (.unencodable position surrogates) := by
  have hno : (!(pathTo names).all isEncodable) = true := by
    rw [Bool.not_eq_true', Bool.eq_false_iff]
    exact mt all_isEncodable_pathTo.1 h
  rw [checkPath, if_pos hno]
  exact ⟨_, _, rfl⟩

theorem find_unencodable : ∃ position surrogates, tree.find (pathTo names) = .error (.unencodable position surrogates) := by
  obtain ⟨position, surrogates, hcheck⟩ := exists_checkPath h
  exact ⟨position, surrogates, by rw [find, hcheck, error_bind]⟩

theorem leadsSomewhere_unencodable : tree.leadsSomewhere (pathTo names) = false := by
  obtain ⟨_, _, hfind⟩ := find_unencodable h tree
  rw [leadsSomewhere, hfind]
  rfl

theorem isDirectory_unencodable : tree.isDirectory (pathTo names) = false := by
  obtain ⟨_, _, hfind⟩ := find_unencodable h tree
  rw [isDirectory, hfind]

theorem isFile_unencodable : tree.isFile (pathTo names) = false := by
  obtain ⟨_, _, hfind⟩ := find_unencodable h tree
  rw [isFile, hfind]

theorem makeDirectory_unencodable :
    ∃ position surrogates, tree.makeDirectory (pathTo names) = .error (.unencodable position surrogates) := by
  obtain ⟨position, surrogates, hcheck⟩ := exists_checkPath h
  exact ⟨position, surrogates, by rw [makeDirectory, hcheck, error_bind]⟩

theorem write_unencodable (content : Octets) :
    ∃ position surrogates, tree.write (pathTo names) content = .error (.unencodable position surrogates) := by
  obtain ⟨position, surrogates, hcheck⟩ := exists_checkPath h
  exact ⟨position, surrogates, by rw [write, hcheck, error_bind]⟩

end

/-- The tree with a directory at a place where there may be one already. -/
def withDirectory (place : Location) (tree : FileTree) : FileTree :=
  if tree.get? place = none then put place empty tree else tree

theorem get?_withDirectory {place : Location} {tree : FileTree} (h : NoFile tree place) (q : Location) :
    get? (withDirectory place tree) q = if q <+: place then some .directory else tree.get? q := by
  by_cases hnone : tree.get? place = none
  · rw [withDirectory, if_pos hnone]
    by_cases hq : q = place
    · rw [hq, get?_put_self, if_pos (List.prefix_refl place)]
      rfl
    · exact get?_put_new (by simp [hnone]) rfl hq
  · rw [withDirectory, if_neg hnone]
    by_cases hp : q <+: place
    · rw [if_pos hp]
      by_cases hq : q = place
      · obtain ⟨e, he⟩ := Option.ne_none_iff_exists'.1 hnone
        cases e with
        | file content => exact absurd he (h.2 content)
        | directory => rw [hq, he]
      · exact get?_of_isPrefix hnone hp hq
    · rw [if_neg hp]

section
variable {tree : FileTree} {place : Location} (hfile : ∀ content, tree.get? place ≠ some (.file content))
  (hfree : tree.get? place ≠ some .directory)
include hfile hfree

theorem get?_ne_some (e : Entry) : tree.get? place ≠ some e := by
  cases e with
  | file content => exact hfile content
  | directory => exact hfree

theorem get?_put_new_of_some (hclear : WayClear tree place) (content : Octets) {q : Location} {e : Entry}
    (hq : tree.get? q = some e) : get? (put place (.file content) tree) q = some e := by
  have hne : q ≠ place := by
    intro heq
    rw [heq] at hq
    exact get?_ne_some hfile hfree e hq
  rw [get?_put_new hfree rfl hne]
  by_cases hp : q <+: place
  · rw [if_pos hp]
    cases e with
    | directory => rfl
    | file content' => exact absurd hq (hclear q hp hne content')
  · rw [if_neg hp, hq]

end

theorem get?_withDirectory_of_some {place : Location} {tree : FileTree} (h : NoFile tree place) {q : Location} {e : Entry}
    (hq : tree.get? q = some e) : get? (withDirectory place tree) q = some e := by
  rw [get?_withDirectory h]
  by_cases hp : q <+: place
  · rw [if_pos hp]
    cases e with
    | directory => rfl
    | file content =>
      by_cases heq : q = place
      · exact absurd (heq ▸ hq) (h.2 content)
      · exact absurd hq (h.1 q hp heq content)
  · rw [if_neg hp, hq]

/-- What is left of a tree where a name below a place could not be made octets: the directories up to there, or
all is as before. -/
structure StopsBelow (place : Location) (tree : FileTree) (kind : ErrorClass) (after : FileTree) : Prop where
  encoding : NoFile tree place → kind = .encoding ∧ after = withDirectory place tree
  kept : ¬NoFile tree place → after = tree

section
variable {tree : FileTree} {front rest : List Text} {bad : Text} (hfront : HaveOctets front)
  (hbad : bad.all isEncodable = false)

theorem Nameable.of_append {names : List Text} (h : Nameable (front ++ names)) : Nameable front := by
  induction names generalizing front with
  | nil => rwa [List.append_nil] at h
  | cons name names ih =>
    have hsplit : front ++ name :: names = (front ++ [name]) ++ names := by simp
    rw [hsplit] at h
    exact (ih h).of_concat

include hbad in
theorem not_haveOctets (rest : List Text) : ¬HaveOctets (front ++ bad :: rest) := fun h => by
  have := h bad (List.mem_append_right _ (List.mem_cons_self ..))
  rw [hbad] at this
  cases this

theorem stopsBelow_there {position : Nat} {surrogates : Text} (hthere : tree.get? (location front) ≠ none) :
    StopsBelow (location front) tree (FileFault.unencodable position surrogates).errorClass tree where
  encoding := fun _ => ⟨rfl, (if_neg hthere).symm⟩
  kept := fun _ => rfl

include hfront hbad in
theorem makeDirectories_unencodable_last (tree : FileTree) (levels : Nat) (h : Nameable (front ++ [bad])) :
    (levels < missing tree (location front) →
      makeDirectories (levels + 1) (pathTo (front ++ [bad])) tree = (.error .tooDeep, tree)) ∧
    (missing tree (location front) ≤ levels → ∃ fault after,
      makeDirectories (levels + 1) (pathTo (front ++ [bad])) tree = (.error fault, after) ∧
        (∀ path, fault ≠ .failed .alreadyThere path) ∧
        StopsBelow (location front) tree fault.errorClass after) := by
  have hreach : Reachable front := ⟨h.of_append, hfront⟩
  have hno : ¬HaveOctets (front ++ [bad]) := not_haveOctets hbad []
  cases he : tree.get? (location front) with
  | some e =>
    have hsome : tree.get? (location front) ≠ none := by simp [he]
    obtain ⟨position, surrogates, hmake⟩ := makeDirectory_unencodable hno tree
    rw [makeDirectories_of_there h (there_of_get? hreach hsome), hmake, missing_of_get? hsome]
    exact ⟨fun hlt => by simp at hlt, fun _ => ⟨_, _, rfl, nofun, stopsBelow_there hsome⟩⟩
  | none =>
    have hne := ne_nil_of_missing he
    have hmissing := not_leadsSomewhere hreach he
    obtain ⟨hdeep, hmade⟩ := makeDirectories_pathTo levels hreach he
    refine ⟨fun hlt => makeDirectories_of_error h hne hmissing nofun (hdeep hlt), fun hle => ?_⟩
    obtain ⟨hclear, hblocked⟩ := hmade hle
    by_cases hway : WayClear tree (location front)
    · obtain ⟨position, surrogates, hmake⟩ := makeDirectory_unencodable hno (put (location front) empty tree)
      rw [makeDirectories_of_made h hne hmissing (hclear hway), hmake]
      refine ⟨_, _, rfl, nofun, fun _ => ⟨rfl, (if_pos he).symm⟩, fun hfile => ?_⟩
      exact absurd ⟨hway, by simp [he]⟩ hfile
    · obtain ⟨path, hfailed⟩ := hblocked hway
      have hfault : ∀ other, FileFault.failed .notDirectory path ≠ .failed .alreadyThere other := nofun
      refine ⟨_, _, makeDirectories_of_error h hne hmissing hfault hfailed, hfault, fun hno => ?_, fun _ => rfl⟩
      exact absurd hno.1 hway

include hfront hbad in
/-- The directories before the name are made first, and then it shows that it cannot be made octets. -/
theorem makeDirectories_unencodable (tree : FileTree) (levels : Nat) (h : Nameable (front ++ bad :: rest)) :
    (levels < missing tree (location front) + (rest.length + 1) →
      makeDirectories levels (pathTo (front ++ bad :: rest)) tree = (.error .tooDeep, tree)) ∧
    (missing tree (location front) + (rest.length + 1) ≤ levels → ∃ fault after,
      makeDirectories levels (pathTo (front ++ bad :: rest)) tree = (.error fault, after) ∧
        (∀ path, fault ≠ .failed .alreadyThere path) ∧
        StopsBelow (location front) tree fault.errorClass after) := by
  induction levels generalizing rest with
  | zero => exact ⟨fun _ => rfl, fun hle => by omega⟩
  | succ levels ih =>
    rcases List.eq_nil_or_concat rest with rfl | ⟨before, last, rfl⟩
    · obtain ⟨hdeep, hstops⟩ := makeDirectories_unencodable_last hfront hbad tree levels h
      exact ⟨fun hlt => hdeep (by simpa using hlt), fun hle => hstops (by simpa using hle)⟩
    · have hsplit : front ++ bad :: before.concat last = front ++ bad :: before ++ [last] := by simp
      have hlength : (before.concat last).length = before.length + 1 := by simp
      rw [hsplit] at h ⊢
      rw [hlength]
      have hno : ¬HaveOctets (front ++ bad :: before) := not_haveOctets hbad before
      have hne : front ++ bad :: before ≠ [] := by simp
      have hmissing : tree.leadsSomewhere (pathTo (front ++ bad :: before)) = false :=
        leadsSomewhere_unencodable hno tree
      obtain ⟨hdeep, hstops⟩ := ih h.of_concat
      refine ⟨fun hlt => ?_, fun hle => ?_⟩
      · exact makeDirectories_of_error h hne hmissing nofun (hdeep (by omega))
      · obtain ⟨fault, after, hfailed, hfault, hafter⟩ := hstops (by omega)
        exact ⟨fault, after, makeDirectories_of_error h hne hmissing hfault hfailed, hfault, hafter⟩

end

/-! ## A directory at a path -/

section
variable [Host] {tree : FileTree} {names : List Text} (h : Reachable names)
include h

theorem ensureDirectory_of_directory (hd : names = [] ∨ tree.get? (location names) = some .directory) :
    ensureDirectory (pathTo names) tree = (.ok (), tree) := by
  rcases List.eq_nil_or_concat names with rfl | ⟨front, name, rfl⟩
  · rfl
  · rw [List.concat_eq_append] at h hd ⊢
    have hdirectory := hd.resolve_left (by simp)
    rw [location_concat] at hdirectory
    rw [ensureDirectory, if_pos (.inr ((isDirectory_pathTo h).2 hdirectory))]

theorem ensureDirectory_of_not_directory (hne : names ≠ []) (hno : tree.get? (location names) ≠ some .directory) :
    ensureDirectory (pathTo names) tree = makeDirectories Host.directoryDepth (pathTo names) tree := by
  rcases List.eq_nil_or_concat names with rfl | ⟨front, name, rfl⟩
  · exact absurd rfl hne
  · rw [List.concat_eq_append] at h hno ⊢
    rw [location_concat] at hno
    rw [ensureDirectory, if_neg]
    rintro (hnil | hdirectory)
    · exact pathTo_ne_nil h.toNameable.last hnil
    · exact hno ((isDirectory_pathTo h).1 hdirectory)

omit h in
theorem ensureDirectory_unencodable (tree : FileTree) (h : Nameable names) (hno : ¬HaveOctets names) :
    ensureDirectory (pathTo names) tree = makeDirectories Host.directoryDepth (pathTo names) tree := by
  have hne : names ≠ [] := by
    rintro rfl
    exact hno nofun
  rw [ensureDirectory, if_neg]
  rw [pathTo_eq_nil_iff h, isDirectory_unencodable hno]
  simp [hne]

theorem ensureDirectory_of_none (hnone : tree.get? (location names) = none) :
    (Host.directoryDepth < missing tree (location names) →
      ensureDirectory (pathTo names) tree = (.error .tooDeep, tree)) ∧
    (missing tree (location names) ≤ Host.directoryDepth →
      (WayClear tree (location names) →
        ensureDirectory (pathTo names) tree = (.ok (), put (location names) empty tree)) ∧
      (¬WayClear tree (location names) → ∃ path,
        ensureDirectory (pathTo names) tree = (.error (.failed .notDirectory path), tree))) := by
  rw [ensureDirectory_of_not_directory h (ne_nil_of_missing hnone) (by simp [hnone])]
  exact makeDirectories_pathTo Host.directoryDepth h hnone

theorem ensureDirectory_of_file (hne : names ≠ []) {content : Octets}
    (hfile : tree.get? (location names) = some (.file content)) :
    ∃ path, ensureDirectory (pathTo names) tree = (.error (.failed .alreadyThere path), tree) := by
  rw [ensureDirectory_of_not_directory h hne (by simp [hfile])]
  rcases List.eq_nil_or_concat names with rfl | ⟨front, name, rfl⟩
  · exact absurd rfl hne
  · rw [List.concat_eq_append] at h hfile ⊢
    rw [location_concat] at hfile
    obtain ⟨t, hat, _⟩ := Option.map_eq_some_iff.1 hfile
    have hfront : tree.get? (location front) = some .directory := get?_of_at?_below hat
    have hthere : front = [] ∨ tree.leadsSomewhere (pathTo front) = true := there_of_get? h.of_concat (by simp [hfront])
    obtain ⟨levels, hlevels⟩ := Nat.exists_eq_succ_of_ne_zero (Nat.ne_of_gt Host.directoryDepth_pos)
    refine ⟨pathTo (front ++ [name]), ?_⟩
    rw [hlevels, makeDirectories_of_there h.toNameable hthere, makeDirectory_pathTo h hfront, if_pos rfl, hfile]
    rfl

end

end Typeahead.FileTree
