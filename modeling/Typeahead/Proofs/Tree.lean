import Typeahead.Proofs.Match
import Typeahead.Proofs.Path

/-!
# Trees in which a file is written

A path can be written to if it leads to a directory and names a file in it, or nothing. What is written
is read back at the path, every other entry of the tree stays as it is, and the path can be written to
again.
-/

namespace Typeahead.FileTree

open Text.Utf8 (Octets)

/-! ## Steps from directories -/

theorem entry_eq_directory_iff {tree : FileTree} : tree.entry = .directory ↔ ∃ ms, tree = directory ms := by
  cases tree with
  | file content => exact ⟨fun h => (by cases h), fun ⟨ms, h⟩ => (by cases h)⟩
  | directory ms => exact ⟨fun _ => ⟨ms, rfl⟩, fun _ => rfl⟩

theorem step_eq_ok_iff {top : FileTree} {way next : Way} {name : Octets} :
    step top way name = .ok next ↔ ∃ ms, way.reached top = directory ms ∧
      ((name = here ∧ next = way) ∨ (name ≠ here ∧ name = above ∧ next = way.tail) ∨
        (name ≠ here ∧ name ≠ above ∧ name.length ≤ nameLimit ∧
          ∃ tree, Members.get? ms name = some tree ∧ next = (name, tree) :: way)) := by
  unfold step
  cases way.reached top with
  | file content => simp
  | directory ms =>
    by_cases hhere : name = here
    · simp [hhere, eq_comm]
    by_cases habove : name = above
    · subst habove
      simp [hhere, eq_comm]
    by_cases hlong : nameLimit < name.length
    · simp [hhere, habove, hlong, Nat.not_le.2 hlong]
    · cases hm : Members.get? ms name <;> simp [hhere, habove, hlong, Nat.le_of_not_lt hlong, hm, eq_comm]

theorem directory_of_step {top : FileTree} {way next : Way} {name : Octets} (h : step top way name = .ok next) :
    (way.reached top).entry = .directory := by
  obtain ⟨ms, hr, _⟩ := step_eq_ok_iff.1 h
  exact entry_eq_directory_iff.2 ⟨ms, hr⟩

theorem directory_of_foldlM {top : FileTree} {start way : Way} {names : List Octets}
    (h : names.foldlM (step top) start = .ok way) (hd : (way.reached top).entry = .directory) :
    (start.reached top).entry = .directory := by
  cases names with
  | nil => cases h; exact hd
  | cons name rest =>
    rw [List.foldlM_cons] at h
    obtain ⟨next, hs, _⟩ := exists_of_bind_eq_ok h
    exact directory_of_step hs

theorem follow_concat (top : FileTree) (front : List Octets) (name : Octets) :
    follow top (front ++ [name]) = follow top front >>= fun way => step top way name := by
  simp [follow, List.foldlM_append]

/-! ## Following a path in a changed tree -/

/-- All directories of a tree are directories of the other one, too. -/
def KeepsDirectories (top top' : FileTree) : Prop :=
  ∀ place, top.get? place = some .directory → top'.get? place = some .directory

theorem get?_place {top : FileTree} {way : Way} (h : way.leadsFrom top) :
    top.get? way.place = some (way.reached top).entry := by
  rw [get?, Way.at?_place h, Option.map_some]

theorem Way.place_eq_of_names {way way' : Way} (h : way'.map (·.1) = way.map (·.1)) : way'.place = way.place := by
  simp only [Way.place, List.map_reverse, h]

section
variable {top top' : FileTree} (keeps : KeepsDirectories top top')
include keeps

/-- One step, in both trees: the trees on the ways differ, but their names do not. -/
theorem exists_step {way way' next : Way} {name : Octets} (h : way.leadsFrom top) (h' : way'.leadsFrom top')
    (hnames : way'.map (·.1) = way.map (·.1)) (hs : step top way name = .ok next)
    (hd : (next.reached top).entry = .directory) :
    ∃ next', step top' way' name = .ok next' ∧ next'.map (·.1) = next.map (·.1) := by
  have hget := keeps _ ((get?_place h).trans (congrArg some (directory_of_step hs)))
  rw [← Way.place_eq_of_names hnames, get?_place h'] at hget
  obtain ⟨ms', hr'⟩ := entry_eq_directory_iff.1 (Option.some.inj hget)
  have hnext := leadsFrom_of_step h hs
  obtain ⟨ms, hr, hcases⟩ := step_eq_ok_iff.1 hs
  rcases hcases with ⟨hhere, rfl⟩ | ⟨hhere, habove, rfl⟩ | ⟨hhere, habove, hshort, tree, hm, rfl⟩
  · exact ⟨way', step_eq_ok_iff.2 ⟨ms', hr', .inl ⟨hhere, rfl⟩⟩, hnames⟩
  · refine ⟨way'.tail, step_eq_ok_iff.2 ⟨ms', hr', .inr (.inl ⟨hhere, habove, rfl⟩)⟩, ?_⟩
    rw [List.map_tail, List.map_tail, hnames]
  · -- the member is a directory at its place, so there is one in the other tree
    have hplace : Way.place ((name, tree) :: way) = way'.place ++ [name] := by
      rw [Way.place_eq_of_names hnames]
      simp [Way.place]
    have hget := keeps _ ((get?_place hnext).trans (congrArg some hd))
    rw [hplace, get?, at?_append, Way.at?_place h', Option.bind_some, hr', at?] at hget
    cases hm' : Members.get? ms' name with
    | none => simp [hm'] at hget
    | some tree' =>
      refine ⟨(name, tree') :: way', step_eq_ok_iff.2 ⟨ms', hr', .inr (.inr ⟨hhere, habove, hshort, tree', hm', rfl⟩)⟩, ?_⟩
      simp [hnames]

theorem exists_foldlM {names : List Octets} {start start' way : Way} (h : start.leadsFrom top)
    (h' : start'.leadsFrom top') (hnames : start'.map (·.1) = start.map (·.1))
    (hf : names.foldlM (step top) start = .ok way) (hd : (way.reached top).entry = .directory) :
    ∃ way', names.foldlM (step top') start' = .ok way' ∧ way'.map (·.1) = way.map (·.1) := by
  induction names generalizing start start' with
  | nil => cases hf; exact ⟨start', rfl, hnames⟩
  | cons name rest ih =>
    rw [List.foldlM_cons] at hf ⊢
    obtain ⟨next, hs, hrest⟩ := exists_of_bind_eq_ok hf
    obtain ⟨next', hs', hnames'⟩ := exists_step keeps h h' hnames hs (directory_of_foldlM hrest hd)
    rw [hs', ok_bind]
    exact ih (leadsFrom_of_step h hs) (leadsFrom_of_step h' hs') hnames' hrest

theorem exists_follow {names : List Octets} {way : Way} (hf : follow top names = .ok way)
    (hd : (way.reached top).entry = .directory) :
    ∃ way', follow top' names = .ok way' ∧ way'.place = way.place ∧ (way'.reached top').entry = .directory := by
  have hstart : Way.leadsFrom top [] := trivial
  have hstart' : Way.leadsFrom top' [] := trivial
  obtain ⟨way', hf', hnames⟩ := exists_foldlM keeps hstart hstart' rfl hf hd
  have hplace := Way.place_eq_of_names hnames
  refine ⟨way', hf', hplace, ?_⟩
  have hget := keeps _ ((get?_place (leadsFrom_of_follow hf)).trans (congrArg some hd))
  rw [← hplace, get?_place (leadsFrom_of_follow hf')] at hget
  exact Option.some.inj hget

end

/-! ## A file in a tree -/

theorem at?_cons_of_no_members {tree : FileTree} (h : tree.members = []) (name : Octets) (below : Location) :
    tree.at? (name :: below) = none := by
  rw [at?, h]
  rfl

theorem get?_of_at?_below {tree below : FileTree} {place rest : Location} {name : Octets}
    (h : tree.at? (place ++ name :: rest) = some below) : tree.get? place = some .directory := by
  rw [at?_append] at h
  cases hp : tree.at? place with
  | none => simp [hp] at h
  | some t =>
    cases t with
    | file content => simp [hp, at?_cons_of_no_members (show (file content).members = [] from rfl)] at h
    | directory ms => simp [get?, hp, entry]

/-- Two locations: one is below the other, or they part somewhere. -/
theorem location_cases : ∀ target q : Location, (∃ below, q = target ++ below) ∨
    (∃ name below, target = q ++ name :: below) ∨
      ∃ common name other below below', other ≠ name ∧ target = common ++ name :: below ∧
        q = common ++ other :: below'
  | [], q => .inl ⟨q, rfl⟩
  | name :: target, [] => .inr (.inl ⟨name, target, rfl⟩)
  | name :: target, other :: q => by
    by_cases h : other = name
    · subst h
      rcases location_cases target q with ⟨below, rfl⟩ | ⟨n, below, rfl⟩ | ⟨common, n, o, below, below', hne, rfl, rfl⟩
      · exact .inl ⟨below, rfl⟩
      · exact .inr (.inl ⟨n, below, rfl⟩)
      · exact .inr (.inr ⟨other :: common, n, o, below, below', hne, rfl, rfl⟩)
    · exact .inr (.inr ⟨[], name, other, target, q, h, rfl, rfl⟩)

theorem get?_of_isPrefix {tree : FileTree} {place q : Location} (h : tree.get? place ≠ none) (hq : q <+: place)
    (hne : q ≠ place) : tree.get? q = some .directory := by
  obtain ⟨below, rfl⟩ := hq
  cases below with
  | nil => exact absurd (List.append_nil q).symm hne
  | cons name below =>
    obtain ⟨e, he⟩ := Option.ne_none_iff_exists'.1 h
    obtain ⟨t, hat, _⟩ := Option.map_eq_some_iff.1 he
    exact get?_of_at?_below hat

theorem not_isPrefix_of_apart {common below below' : Location} {name other : Octets} (h : other ≠ name) :
    ¬common ++ other :: below' <+: common ++ name :: below := by
  intro hp
  exact h (List.cons_prefix_cons.1 ((List.prefix_append_right_inj common).1 hp)).1

/-- What is on the way to a new entry becomes a directory; all else is as before, unless the entry takes the
place of a directory. -/
theorem get?_put_new {tree new : FileTree} {place : Location} (hfree : tree.get? place ≠ some .directory)
    (hnew : new.members = []) {q : Location} (hq : q ≠ place) :
    get? (put place new tree) q = if q <+: place then some .directory else tree.get? q := by
  rcases location_cases place q with ⟨below, rfl⟩ | ⟨name, below, rfl⟩ | ⟨common, name, other, below, below', hne, rfl, rfl⟩
  · cases below with
    | nil => exact absurd (List.append_nil _) hq
    | cons name below =>
      -- below the entry there is nothing, and there was nothing before
      have hlonger : ¬place ++ name :: below <+: place := by
        intro hp
        have hlen := hp.length_le
        rw [List.length_append, List.length_cons] at hlen
        omega
      have hold : tree.at? (place ++ name :: below) = none :=
        Option.eq_none_iff_forall_ne_some.2 fun t hat => hfree (get?_of_at?_below hat)
      rw [if_neg hlonger, get?, at?_put_append, at?_cons_of_no_members hnew, get?, hold]
  · rw [get?_put_above, if_pos (List.prefix_append _ _)]
  · rw [if_neg (not_isPrefix_of_apart hne), get?, at?_put_apart common hne]
    rfl

/-- A file put into a directory changes no other entry, unless it takes the place of a directory. -/
theorem get?_put_file {tree : FileTree} {place : Location} {name : Octets} (hd : tree.get? place = some .directory)
    (hfree : tree.get? (place ++ [name]) ≠ some .directory) (content : Octets) {q : Location}
    (hq : q ≠ place ++ [name]) : get? (put (place ++ [name]) (file content) tree) q = tree.get? q := by
  rw [get?_put_new hfree rfl hq]
  by_cases hp : q <+: place ++ [name]
  · rw [if_pos hp]
    rcases List.prefix_concat_iff.1 hp with heq | hp
    · exact absurd heq hq
    by_cases heq : q = place
    · rw [heq, hd]
    · exact (get?_of_isPrefix (by simp [hd]) hp heq).symm
  · rw [if_neg hp]

/-! ## Reading -/

theorem find_eq_ok_iff {tree : FileTree} {path : Text} {e : Entry} :
    tree.find path = .ok e ↔ checkPath path = .ok () ∧ ∃ way, follow tree (names path).1 = .ok way ∧
      (way.reached tree).entry = e ∧ ((names path).2 = true → e = .directory) := by
  unfold find
  cases checkPath path with
  | error fault => simp [bind, Except.bind]
  | ok u =>
    rw [ok_bind]
    obtain ⟨ns, slash⟩ := names path
    simp only [true_and]
    cases follow tree ns with
    | error fault => simp [throw, throwThe, MonadExceptOf.throw]
    | ok way =>
      cases hr : way.reached tree with
      | file content =>
        cases slash with
        | true =>
          simp only [Except.ok.injEq, exists_eq_left', hr, entry, if_true]
          exact ⟨fun h => (by cases h), fun ⟨he, h⟩ => (by rw [← he] at h; cases h trivial)⟩
        | false => simp [hr, entry, pure, Except.pure]
      | directory ms =>
        simp only [Except.ok.injEq, exists_eq_left', hr, entry, pure, Except.pure]
        exact ⟨fun h => ⟨h, fun _ => h.symm⟩, fun h => h.1⟩

theorem read_of_find {tree : FileTree} {path : Text} {content : Octets} (h : tree.find path = .ok (.file content)) :
    tree.read path = .ok content := by
  rw [read, h]
  rfl

theorem find_of_read {tree : FileTree} {path : Text} {content : Octets} (h : tree.read path = .ok content) :
    tree.find path = .ok (.file content) := by
  unfold read at h
  obtain ⟨e, he, h⟩ := exists_of_bind_eq_ok h
  cases e with
  | file content' => cases h; exact he
  | directory => cases h

theorem isFile_iff {tree : FileTree} {path : Text} :
    tree.isFile path = true ↔ ∃ content, tree.find path = .ok (.file content) := by
  unfold isFile
  cases tree.find path with
  | error e => simp
  | ok e => cases e <;> simp

/-! ## Writing -/

theorem parent_eq_ok_iff {top : FileTree} {names : List Octets} {place : Location} {name : Option Octets} :
    parent top names = .ok (place, name) ↔ ∃ way, follow top names.dropLast = .ok way ∧
      (way.reached top).entry = .directory ∧ place = way.place ∧
        name = names.getLast?.filter fun name => !isDots name := by
  unfold parent
  cases follow top names.dropLast with
  | error fault => simp [bind, Except.bind]
  | ok way =>
    rw [ok_bind]
    by_cases hd : (way.reached top).entry = .directory
    · simp [hd, pure, Except.pure, eq_comm]
    · simp [hd, bind, Except.bind, throw, throwThe, MonadExceptOf.throw]

/-- A path that can be written to, with the place of the directory that it leads to and the name of the
file there. -/
structure Writable (tree : FileTree) (path : Text) (place : Location) (name : Octets) : Prop where
  check : checkPath path = .ok ()
  parent : parent tree (names path).1 = .ok (place, some name)
  noSlash : (names path).2 = false
  short : name.length ≤ nameLimit
  free : tree.get? (place ++ [name]) ≠ some .directory

theorem write_eq_ok_iff {tree tree' : FileTree} {path : Text} {content : Octets} :
    tree.write path content = .ok tree' ↔ ∃ place name, Writable tree path place name ∧
      tree' = put (place ++ [name]) (file content) tree := by
  unfold write
  constructor
  · intro h
    obtain ⟨u, hcheck, h⟩ := exists_of_bind_eq_ok h
    generalize hn : names path = np at h
    obtain ⟨ns, slash⟩ := np
    simp only at h
    split at h
    · cases h
    · cases h
    · next place name hparent =>
      split at h
      · cases h
      · next hslash =>
        split at h
        · cases h
        · next hshort =>
          split at h
          · cases h
          · next hfree =>
            cases h
            refine ⟨place, name, ⟨hcheck, ?_, ?_, Nat.le_of_not_lt hshort, hfree⟩, rfl⟩
            · rw [hn]
              exact hparent
            · rw [hn]
              simpa using hslash
  · intro ⟨place, name, w, htree⟩
    have hn : names path = ((names path).1, false) := by rw [← w.noSlash]
    rw [w.check, ok_bind, hn]
    simp only [w.parent, Bool.false_eq_true, if_false, Nat.not_lt.2 w.short, w.free, htree]
    rfl

namespace Writable

variable {tree : FileTree} {path : Text} {place : Location} {name : Octets} (w : Writable tree path place name)
include w

theorem write_eq (content : Octets) : tree.write path content = .ok (put (place ++ [name]) (file content) tree) :=
  write_eq_ok_iff.2 ⟨place, name, w, rfl⟩

theorem exists_follow_front : ∃ front way, (names path).1 = front ++ [name] ∧ follow tree front = .ok way ∧
    (way.reached tree).entry = .directory ∧ place = way.place ∧ isDots name = false := by
  obtain ⟨way, hf, hd, hplace, hname⟩ := parent_eq_ok_iff.1 w.parent
  obtain ⟨hlast, hdots⟩ := Option.filter_eq_some_iff.1 hname.symm
  obtain ⟨front, hfront⟩ := List.getLast?_eq_some_iff.1 hlast
  rw [hfront, List.dropLast_concat] at hf
  exact ⟨front, way, hfront, hf, hd, hplace, by simpa using hdots⟩

theorem get?_place_eq : tree.get? place = some .directory := by
  obtain ⟨_, way, _, hf, hd, rfl, _⟩ := w.exists_follow_front
  rw [get?_place (leadsFrom_of_follow hf), hd]

theorem get?_put_of_ne (content : Octets) {q : Location} (hq : q ≠ place ++ [name]) :
    get? (put (place ++ [name]) (file content) tree) q = tree.get? q :=
  get?_put_file w.get?_place_eq w.free content hq

theorem keepsDirectories (content : Octets) :
    KeepsDirectories tree (put (place ++ [name]) (file content) tree) := by
  intro q hq
  have hne : q ≠ place ++ [name] := fun e => w.free (e ▸ hq)
  rwa [w.get?_put_of_ne content hne]

theorem writable_put (content : Octets) :
    Writable (put (place ++ [name]) (file content) tree) path place name := by
  obtain ⟨way, hf, hd, hplace, hname⟩ := parent_eq_ok_iff.1 w.parent
  obtain ⟨way', hf', hplace', hd'⟩ := exists_follow (w.keepsDirectories content) hf hd
  refine ⟨w.check, ?_, w.noSlash, w.short, ?_⟩
  · exact parent_eq_ok_iff.2 ⟨way', hf', hd', by rw [hplace, hplace'], hname⟩
  · rw [get?_put_self]
    simp [entry]

theorem find_put (content : Octets) :
    (put (place ++ [name]) (file content) tree).find path = .ok (.file content) := by
  obtain ⟨front, way, hfront, hf, hd, rfl, hdots⟩ := (w.writable_put content).exists_follow_front
  obtain ⟨ms, hr⟩ := entry_eq_directory_iff.1 hd
  have hm : Members.get? ms name = some (file content) := by
    have hat := at?_put_append (way.place ++ [name]) [] (file content) tree
    rw [List.append_nil, at?_append, at?_place_of_follow hf, hr] at hat
    simpa [at?] using hat
  simp only [isDots, Bool.or_eq_false_iff, decide_eq_false_iff_not] at hdots
  have hstep := step_eq_ok_iff.2 ⟨ms, hr, .inr (.inr ⟨hdots.1, hdots.2, w.short, _, hm, rfl⟩)⟩
  refine find_eq_ok_iff.2 ⟨w.check, (name, file content) :: way, ?_, rfl, ?_⟩
  · rw [hfront, follow_concat, hf, ok_bind, hstep]
  · rw [w.noSlash]
    exact fun h => (by cases h)

end Writable

/-! ## The directory of a file -/

theorem isDirectory_splitLast {tree : FileTree} {path : Text} {content : Octets}
    (h : tree.find path = .ok (.file content)) :
    (splitLast path).1 = [] ∨ tree.isDirectory (splitLast path).1 = true := by
  obtain ⟨hcheck, way, hf, he, hslash⟩ := find_eq_ok_iff.1 h
  by_cases hfront : (splitLast path).1 = []
  · exact .inl hfront
  have hlast : path.getLast? ≠ some (.scalar '/') := by
    intro hl
    cases hslash (by simp [names, hl])
  rw [names_eq_splitLast (checkPath_eq_ok_iff.1 hcheck).2.2.1 hlast, follow_concat] at hf
  obtain ⟨before, hbefore, hstep⟩ := exists_of_bind_eq_ok hf
  have hfind : tree.find (splitLast path).1 = .ok .directory :=
    find_eq_ok_iff.2 ⟨checkPath_of_isPrefix (splitLast_isPrefix path) hfront hcheck, before, hbefore,
      directory_of_step hstep, fun _ => rfl⟩
  exact .inr (by rw [isDirectory, hfind])

theorem ensureDirectory_splitLast [Host] {tree : FileTree} {path : Text} {content : Octets}
    (h : tree.find path = .ok (.file content)) :
    ensureDirectory (splitLast path).1 tree = (.ok (), tree) := by
  rw [ensureDirectory, if_pos (isDirectory_splitLast h)]

end Typeahead.FileTree
