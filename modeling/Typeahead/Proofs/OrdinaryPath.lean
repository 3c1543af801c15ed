import Typeahead.Proofs.Tree

/-!
# Paths of ordinary names

A name is ordinary if it leads to a member: it is short, holds no slash, and is no dots. A path of ordinary
names with a slash between neighbours says a location, name by name. So what can be done at the path is
decided by what is at the location.
-/

namespace Typeahead.FileTree

open Text.Utf8 (Octets)

structure IsOrdinary (name : Text) : Prop where
  ne_nil : name ≠ []
  ne_dot : name ≠ "."
  ne_dots : name ≠ ".."
  noSlash : name.all (!isSlash ·) = true
  noNull : .scalar '\x00' ∉ name
  short : octetCount name ≤ nameLimit

def pathTo (names : List Text) : Text := Text.join "/" names

/-- A path can say the names: they are ordinary, and it is not too long. -/
structure Nameable (names : List Text) : Prop where
  ordinary : ∀ name ∈ names, IsOrdinary name
  short : octetCount (pathTo names) ≤ pathLimit

/-- Names that can be made octets, so that they say a location. -/
def HaveOctets (names : List Text) : Prop := ∀ name ∈ names, name.all isEncodable = true

def location (names : List Text) : Location := names.map octets

structure Reachable (names : List Text) : Prop extends Nameable names where
  encodable : HaveOctets names

instance (name : Text) : Decidable (IsOrdinary name) :=
  decidable_of_iff (name ≠ [] ∧ name ≠ "." ∧ name ≠ ".." ∧ name.all (!isSlash ·) = true ∧ .scalar '\x00' ∉ name ∧
    octetCount name ≤ nameLimit)
    ⟨fun ⟨h₁, h₂, h₃, h₄, h₅, h₆⟩ => ⟨h₁, h₂, h₃, h₄, h₅, h₆⟩, fun ⟨h₁, h₂, h₃, h₄, h₅, h₆⟩ => ⟨h₁, h₂, h₃, h₄, h₅, h₆⟩⟩

instance (names : List Text) : Decidable (HaveOctets names) :=
  inferInstanceAs (Decidable (∀ name ∈ names, name.all isEncodable = true))

instance (names : List Text) : Decidable (Nameable names) :=
  decidable_of_iff ((∀ name ∈ names, IsOrdinary name) ∧ octetCount (pathTo names) ≤ pathLimit)
    ⟨fun ⟨h₁, h₂⟩ => ⟨h₁, h₂⟩, fun ⟨h₁, h₂⟩ => ⟨h₁, h₂⟩⟩

theorem location_concat (front : List Text) (name : Text) : location (front ++ [name]) = location front ++ [octets name] :=
  List.map_append

/-! ## Names as octets -/

theorem toNat_of_mem_encodeCodePoint {c : CodePoint} {o : UInt8} (h : o ∈ Text.Utf8.encodeCodePoint c)
    (ho : o.toNat < 0x80) : c.toNat = o.toNat := by
  have hlt := c.toNat_lt
  have hhigh {n : Nat} (hn : o = .ofNat n) (hlow : 0x80 ≤ n) (hlim : n < 0x100) : False := by
    rw [hn, UInt8.toNat_ofNat', Nat.mod_eq_of_lt hlim] at ho
    omega
  simp only [Text.Utf8.encodeCodePoint] at h
  by_cases h1 : c.toNat < 0x80
  · rw [if_pos h1, List.mem_singleton] at h
    rw [h, UInt8.toNat_ofNat', Nat.mod_eq_of_lt (by omega)]
  by_cases h2 : c.toNat < 0x800
  · simp only [if_neg h1, if_pos h2, List.mem_cons, List.not_mem_nil, or_false] at h
    rcases h with h | h <;> exact (hhigh h (by omega) (by omega)).elim
  by_cases h3 : c.toNat < 0x10000
  · simp only [if_neg h1, if_neg h2, if_pos h3, List.mem_cons, List.not_mem_nil, or_false] at h
    rcases h with h | h | h <;> exact (hhigh h (by omega) (by omega)).elim
  · simp only [if_neg h1, if_neg h2, if_neg h3, List.mem_cons, List.not_mem_nil, or_false] at h
    rcases h with h | h | h | h <;> exact (hhigh h (by omega) (by omega)).elim

theorem nameOctets?_ne_nil (c : CodePoint) : nameOctets? c ≠ some [] := by
  cases c with
  | scalar c =>
    simp only [nameOctets?, ne_eq, Option.some.injEq, Text.Utf8.encodeCodePoint]
    repeat' split
    all_goals nofun
  | surrogate n =>
    rw [nameOctets?]
    split <;> nofun

theorem eq_dot_of_mem {c : CodePoint} {os : Octets} (h : nameOctets? c = some os) (hmem : 0x2e ∈ os) : c = '.' := by
  cases c with
  | scalar c =>
    cases h
    exact CodePoint.toNat_inj.1 (toNat_of_mem_encodeCodePoint hmem (by decide))
  | surrogate n =>
    rw [nameOctets?] at h
    split at h
    · cases h
      have hn := congrArg UInt8.toNat (List.mem_singleton.1 hmem)
      rw [UInt8.toNat_ofNat', Nat.mod_eq_of_lt (by omega)] at hn
      have hdot : (0x2e : UInt8).toNat = 0x2e := rfl
      omega
    · cases h

theorem octets_dots (n : Nat) : octets (List.replicate n '.') = List.replicate n 0x2e := by
  induction n with
  | zero => rfl
  | succ n ih => exact congrArg (0x2e :: ·) ih

theorem eq_dots_of_octets {t : Text} {n : Nat} (ht : t.all isEncodable = true) (h : octets t = List.replicate n 0x2e) :
    t = List.replicate n (.scalar '.') := by
  have hdot : ∀ c ∈ t, c = .scalar '.' := by
    intro c hc
    obtain ⟨os, hos⟩ := Option.isSome_iff_exists.1 (List.all_eq_true.1 ht c hc)
    cases os with
    | nil => exact absurd hos (nameOctets?_ne_nil c)
    | cons o os =>
      have hmem : o ∈ octets t := List.mem_flatMap.2 ⟨c, hc, by simp [hos]⟩
      rw [h] at hmem
      exact eq_dot_of_mem hos (List.mem_cons.2 (.inl (List.eq_of_mem_replicate hmem).symm))
  have heq : t = List.replicate t.length (.scalar '.') := List.eq_replicate_iff.2 ⟨rfl, hdot⟩
  have hlength : t.length = n := by
    have hlengths := congrArg List.length h
    rwa [heq, octets_dots, List.length_replicate, List.length_replicate] at hlengths
  rw [heq, hlength]

section
variable {name : Text} (h : IsOrdinary name) (hname : name.all isEncodable = true)
include h hname

theorem IsOrdinary.ne_here : octets name ≠ here := fun heq => h.ne_dot (eq_dots_of_octets (n := 1) hname heq)

theorem IsOrdinary.ne_above : octets name ≠ above := fun heq => h.ne_dots (eq_dots_of_octets (n := 2) hname heq)

theorem IsOrdinary.isDots_eq : isDots (octets name) = false := by
  simp [isDots, h.ne_here hname, h.ne_above hname]

end

/-! ## The text of a path -/

section
variable {front : List Text} {name : Text}

theorem pathTo_cons (name : Text) (h : front ≠ []) : pathTo (name :: front) = name ++ .scalar '/' :: pathTo front := by
  cases front with
  | nil => exact absurd rfl h
  | cons other front =>
    show name ++ ("/" : Text) ++ Text.join "/" (other :: front) = _
    rw [List.append_assoc]
    rfl

theorem pathTo_concat (h : front ≠ []) (name : Text) : pathTo (front ++ [name]) = pathTo front ++ .scalar '/' :: name := by
  induction front with
  | nil => exact absurd rfl h
  | cons first front ih =>
    rw [List.cons_append, pathTo_cons first (by simp)]
    by_cases hnil : front = []
    · subst hnil
      rfl
    · rw [ih hnil, pathTo_cons first hnil, List.append_assoc, List.cons_append]

theorem pathTo_isPrefix (front : List Text) (name : Text) : pathTo front <+: pathTo (front ++ [name]) := by
  by_cases hnil : front = []
  · subst hnil
    exact List.nil_prefix
  · rw [pathTo_concat hnil]
    exact List.prefix_append _ _

theorem Nameable.of_concat (h : Nameable (front ++ [name])) : Nameable front where
  ordinary := fun other hother => h.ordinary other (List.mem_append_left _ hother)
  short := Nat.le_trans (octetCount_le_of_isPrefix (pathTo_isPrefix front name)) h.short

theorem Nameable.last (h : Nameable (front ++ [name])) : IsOrdinary name :=
  h.ordinary name (List.mem_append_right _ (List.mem_singleton_self _))

theorem Reachable.of_concat (h : Reachable (front ++ [name])) : Reachable front where
  toNameable := h.toNameable.of_concat
  encodable := fun other hother => h.encodable other (List.mem_append_left _ hother)

theorem Reachable.last (h : Reachable (front ++ [name])) : name.all isEncodable = true :=
  h.encodable name (List.mem_append_right _ (List.mem_singleton_self _))

theorem Reachable.not_long (h : Reachable (front ++ [name])) : ¬nameLimit < (octets name).length :=
  Nat.not_lt.2 h.toNameable.last.short

section
variable {names : List Text} (ordinary : ∀ name ∈ names, IsOrdinary name)
include ordinary

theorem null_not_mem_pathTo : .scalar '\x00' ∉ pathTo names := by
  induction names with
  | nil => nofun
  | cons name names ih =>
    obtain ⟨hname, hnames⟩ := List.forall_mem_cons.1 ordinary
    by_cases hnil : names = []
    · subst hnil
      exact hname.noNull
    · rw [pathTo_cons name hnil]
      intro hmem
      rcases List.mem_append.1 hmem with hmem | hmem
      · exact hname.noNull hmem
      · rcases List.mem_cons.1 hmem with hmem | hmem
        · cases hmem
        · exact ih hnames hmem

theorem splitPath_pathTo (hne : names ≠ []) : splitPath (pathTo names) = names := by
  induction names with
  | nil => exact absurd rfl hne
  | cons name names ih =>
    obtain ⟨hname, hnames⟩ := List.forall_mem_cons.1 ordinary
    by_cases hnil : names = []
    · subst hnil
      exact splitPath_of_no_slash hname.noSlash
    · rw [pathTo_cons name hnil, splitPath_append_slash, splitPath_of_no_slash hname.noSlash, ih hnames hnil]
      rfl

end

theorem IsOrdinary.getLast?_ne_slash (h : IsOrdinary name) : name.getLast? ≠ some (.scalar '/') := by
  intro hlast
  have hslash := List.all_eq_true.1 h.noSlash _ (List.mem_of_getLast? hlast)
  cases hslash

theorem pathTo_ne_nil (ordinary : IsOrdinary name) : pathTo (front ++ [name]) ≠ [] := by
  by_cases hnil : front = []
  · subst hnil
    exact ordinary.ne_nil
  · rw [pathTo_concat hnil]
    exact List.append_ne_nil_of_right_ne_nil _ nofun

theorem getLast?_pathTo (ordinary : IsOrdinary name) : (pathTo (front ++ [name])).getLast? = name.getLast? := by
  by_cases hnil : front = []
  · subst hnil
    rfl
  · rw [pathTo_concat hnil]
    rcases List.eq_nil_or_concat name with rfl | ⟨t, c, rfl⟩
    · exact absurd rfl ordinary.ne_nil
    · rw [List.concat_eq_append, ← List.cons_append, ← List.append_assoc, List.getLast?_concat, List.getLast?_concat]

theorem all_isEncodable_pathTo {names : List Text} : (pathTo names).all isEncodable = true ↔ HaveOctets names := by
  induction names with
  | nil => exact ⟨fun _ => nofun, fun _ => rfl⟩
  | cons name names ih =>
    rw [HaveOctets, List.forall_mem_cons, ← HaveOctets, ← ih]
    by_cases hnil : names = []
    · subst hnil
      exact ⟨fun h => ⟨h, rfl⟩, fun h => h.1⟩
    · rw [pathTo_cons name hnil, List.all_append, Bool.and_eq_true]
      rfl

section
variable (h : Reachable (front ++ [name]))
include h

theorem names_pathTo : names (pathTo (front ++ [name])) = (location front ++ [octets name], false) := by
  have hsplit := splitPath_pathTo h.ordinary (by simp)
  have hfilter : (front ++ [name]).filter (· ≠ []) = front ++ [name] :=
    List.filter_eq_self.2 fun other hother => by simpa using (h.ordinary other hother).ne_nil
  rw [names, hsplit, hfilter, getLast?_pathTo h.toNameable.last, ← location_concat]
  simp only [location, Prod.mk.injEq, true_and, decide_eq_false_iff_not]
  exact h.toNameable.last.getLast?_ne_slash

theorem checkPath_pathTo : checkPath (pathTo (front ++ [name])) = .ok () := by
  apply checkPath_eq_ok_iff.2
  exact ⟨all_isEncodable_pathTo.2 h.encodable, null_not_mem_pathTo h.ordinary, pathTo_ne_nil h.toNameable.last, h.short⟩

end

/-! ## The last name of a path -/

theorem takeWhile_no_slash_append {t : Text} (h : t.all (!isSlash ·) = true) (u : Text) :
    (t.reverse ++ .scalar '/' :: u).takeWhile (!isSlash ·) = t.reverse := by
  rw [List.takeWhile_append_of_pos fun c hc => List.all_eq_true.1 h c (List.mem_reverse.1 hc)]
  simp [isSlash]

theorem dropWhile_slash_of_getLast? {t : Text} (h : t.getLast? ≠ some (.scalar '/')) :
    (t.reverse.dropWhile isSlash).reverse = t := by
  rcases List.eq_nil_or_concat t with rfl | ⟨u, c, rfl⟩
  · rfl
  · have hc : isSlash c = false := by
      simpa [isSlash] using h
    simp [hc]

theorem splitLast_of_no_slash (h : name.all (!isSlash ·) = true) : splitLast name = ([], name) := by
  have hname : (name.reverse.takeWhile (!isSlash ·)).reverse = name := by
    have hall : (name.reverse ++ []).takeWhile (!isSlash ·) = name.reverse ++ [] :=
      List.takeWhile_append_of_pos fun c hc => List.all_eq_true.1 h c (List.mem_reverse.1 hc)
    rw [List.append_nil] at hall
    rw [hall, List.reverse_reverse]
  simp [splitLast, hname]

theorem splitLast_append_slash {t : Text} (hne : t ≠ []) (ht : t.getLast? ≠ some (.scalar '/'))
    (hname : name.all (!isSlash ·) = true) : splitLast (t ++ .scalar '/' :: name) = (t, name) := by
  have hlast : ((t ++ .scalar '/' :: name).reverse.takeWhile (!isSlash ·)).reverse = name := by
    rw [List.reverse_append, List.reverse_cons, List.append_assoc, List.singleton_append,
      takeWhile_no_slash_append hname, List.reverse_reverse]
  have hfront : (t ++ .scalar '/' :: name).take ((t ++ .scalar '/' :: name).length - name.length) =
      t ++ [.scalar '/'] := by
    rw [← List.singleton_append, ← List.append_assoc]
    apply List.take_left'
    simp only [List.length_append]
    omega
  have htrimmed : ((t ++ [CodePoint.scalar '/']).reverse.dropWhile isSlash).reverse = t := by
    rw [List.reverse_append, List.reverse_singleton, List.singleton_append, List.dropWhile_cons_of_pos (by rfl),
      dropWhile_slash_of_getLast? ht]
  simp only [splitLast, hlast, hfront, htrimmed, hne, if_false]

theorem splitLast_pathTo (h : Nameable (front ++ [name])) :
    splitLast (pathTo (front ++ [name])) = (pathTo front, name) := by
  rcases List.eq_nil_or_concat front with rfl | ⟨before, other, rfl⟩
  · exact splitLast_of_no_slash h.last.noSlash
  · rw [List.concat_eq_append] at h ⊢
    have hother := h.of_concat.last
    rw [pathTo_concat (by simp)]
    refine splitLast_append_slash (pathTo_ne_nil hother) ?_ h.last.noSlash
    rw [getLast?_pathTo hother]
    exact hother.getLast?_ne_slash

end

/-! ## Following a path of ordinary names -/

section
variable {top : FileTree}

theorem step_ordinary_iff {way next : Way} {name : Text} (h : IsOrdinary name) (hname : name.all isEncodable = true) :
    step top way (octets name) = .ok next ↔
      ∃ tree, Members.get? (way.reached top).members (octets name) = some tree ∧
        next = (octets name, tree) :: way := by
  rw [step_eq_ok_iff]
  constructor
  · rintro ⟨ms, hr, ⟨hhere, _⟩ | ⟨_, habove, _⟩ | ⟨_, _, _, tree, hm, rfl⟩⟩
    · exact absurd hhere (h.ne_here hname)
    · exact absurd habove (h.ne_above hname)
    · rw [hr]
      exact ⟨tree, hm, rfl⟩
  · rintro ⟨tree, hm, rfl⟩
    cases hr : way.reached top with
    | file content =>
      rw [hr] at hm
      cases hm
    | directory ms =>
      rw [hr] at hm
      exact ⟨ms, rfl, .inr (.inr ⟨h.ne_here hname, h.ne_above hname, h.short, tree, hm, rfl⟩)⟩

/-- From where a way ends, a path of ordinary names leads on just where there is something below. -/
theorem foldlM_ordinary {names : List Text} (ordinary : ∀ name ∈ names, IsOrdinary name) (encodable : HaveOctets names)
    (start : Way) :
    (((location names).foldlM (step top) start).toOption.map fun way => (way.place, way.reached top)) =
      ((start.reached top).at? (location names)).map fun tree => (start.place ++ location names, tree) := by
  induction names generalizing start with
  | nil =>
    simp only [location, List.map_nil, List.append_nil]
    rfl
  | cons name names ih =>
    obtain ⟨hname, hnames⟩ := List.forall_mem_cons.1 ordinary
    obtain ⟨hoctets, hothers⟩ := List.forall_mem_cons.1 encodable
    have hcons : location (name :: names) = octets name :: location names := rfl
    rw [hcons, List.foldlM_cons, at?]
    cases hm : Members.get? (start.reached top).members (octets name) with
    | none =>
      cases hstep : step top start (octets name) with
      | error e => rfl
      | ok next =>
        obtain ⟨tree, hm', _⟩ := (step_ordinary_iff hname hoctets).1 hstep
        rw [hm] at hm'
        cases hm'
    | some tree =>
      have split : start.place ++ octets name :: location names =
          Way.place ((octets name, tree) :: start) ++ location names := by simp [Way.place]
      rw [(step_ordinary_iff hname hoctets).2 ⟨tree, hm, rfl⟩, ok_bind, ih hnames hothers, Option.bind_some, split]
      rfl

section
variable {names : List Text} (ordinary : ∀ name ∈ names, IsOrdinary name) (encodable : HaveOctets names)
include ordinary encodable

variable (top) in
theorem follow_ordinary : ((follow top (location names)).toOption.map fun way => (way.place, way.reached top)) =
    (top.at? (location names)).map fun tree => (location names, tree) :=
  foldlM_ordinary ordinary encodable []

theorem place_of_follow {way : Way} (h : follow top (location names) = .ok way) :
    way.place = location names ∧ top.at? (location names) = some (way.reached top) := by
  have hfollow := follow_ordinary top ordinary encodable
  rw [h] at hfollow
  obtain ⟨tree, hat, heq⟩ := Option.map_eq_some_iff.1 hfollow.symm
  obtain ⟨hplace, hreached⟩ := Prod.mk.inj heq
  exact ⟨hplace.symm, hreached ▸ hat⟩

theorem exists_follow_of_at? {tree : FileTree} (h : top.at? (location names) = some tree) :
    ∃ way, follow top (location names) = .ok way ∧ way.place = location names ∧ way.reached top = tree := by
  have hfollow := follow_ordinary top ordinary encodable
  cases hf : follow top (location names) with
  | error e =>
    rw [h, hf] at hfollow
    cases hfollow
  | ok way =>
    obtain ⟨hplace, hat⟩ := place_of_follow ordinary encodable hf
    rw [h] at hat
    exact ⟨way, rfl, hplace, (Option.some.inj hat).symm⟩

end

end

/-! ## What is found at a path of ordinary names -/

section
variable {tree : FileTree} {front : List Text} {name : Text} (h : Reachable (front ++ [name]))
include h

theorem find_pathTo {e : Entry} :
    tree.find (pathTo (front ++ [name])) = .ok e ↔ tree.get? (location front ++ [octets name]) = some e := by
  rw [find_eq_ok_iff, names_pathTo h, ← location_concat]
  constructor
  · rintro ⟨_, way, hf, rfl, _⟩
    rw [get?, (place_of_follow h.ordinary h.encodable hf).2, Option.map_some]
  · intro hget
    obtain ⟨t, hat, rfl⟩ := Option.map_eq_some_iff.1 hget
    obtain ⟨way, hf, _, rfl⟩ := exists_follow_of_at? h.ordinary h.encodable hat
    exact ⟨checkPath_pathTo h, way, hf, rfl, fun hslash => by cases hslash⟩

theorem isFile_pathTo : tree.isFile (pathTo (front ++ [name])) = true ↔
    ∃ content, tree.get? (location front ++ [octets name]) = some (.file content) := by
  simp only [isFile_iff, find_pathTo h]

theorem isFile_pathTo_eq_false (hfile : ∀ content, tree.get? (location front ++ [octets name]) ≠ some (.file content)) :
    tree.isFile (pathTo (front ++ [name])) = false := by
  rw [Bool.eq_false_iff]
  intro hthere
  obtain ⟨content, hcontent⟩ := (isFile_pathTo h).1 hthere
  exact hfile content hcontent

theorem isDirectory_pathTo :
    tree.isDirectory (pathTo (front ++ [name])) = true ↔ tree.get? (location front ++ [octets name]) = some .directory := by
  rw [← find_pathTo h, isDirectory]
  cases tree.find (pathTo (front ++ [name])) with
  | error fault => simp
  | ok e => cases e <;> simp

theorem leadsSomewhere_pathTo :
    tree.leadsSomewhere (pathTo (front ++ [name])) = true ↔ tree.get? (location front ++ [octets name]) ≠ none := by
  rw [Option.ne_none_iff_exists']
  simp only [← find_pathTo h, leadsSomewhere]
  cases tree.find (pathTo (front ++ [name])) <;> simp [Except.toOption]

theorem parent_pathTo {e : Entry} (he : tree.get? (location front) = some e) :
    parent tree (location front ++ [octets name]) =
      if e = .directory then .ok (location front, some (octets name)) else .error .notDirectory := by
  obtain ⟨t, hat, rfl⟩ := Option.map_eq_some_iff.1 he
  obtain ⟨way, hf, hplace, rfl⟩ := exists_follow_of_at? h.of_concat.ordinary h.of_concat.encodable hat
  have hlast : (location front ++ [octets name]).getLast?.filter (fun name => !isDots name) = some (octets name) := by
    simp [h.toNameable.last.isDots_eq h.last]
  rw [parent, List.dropLast_concat, hf, ok_bind, hlast, hplace]
  by_cases hd : (way.reached tree).entry = .directory
  · rw [if_neg (not_not_intro hd), if_pos hd]
    rfl
  · rw [if_pos hd, if_neg hd]
    rfl

/-! ## Changes at a path of ordinary names -/

theorem writable_pathTo (hd : tree.get? (location front) = some .directory)
    (hfree : tree.get? (location front ++ [octets name]) ≠ some .directory) :
    Writable tree (pathTo (front ++ [name])) (location front) (octets name) where
  check := checkPath_pathTo h
  parent := by rw [names_pathTo h, parent_pathTo h hd, if_pos rfl]
  noSlash := by rw [names_pathTo h]
  short := h.toNameable.last.short
  free := hfree

theorem write_pathTo_error (content : Octets) {e : Entry} (he : tree.get? (location front) = some e)
    (hno : e = .directory → tree.get? (location front ++ [octets name]) = some .directory) :
    ∃ error, tree.write (pathTo (front ++ [name])) content = .error (.failed error (pathTo (front ++ [name]))) := by
  rw [write, checkPath_pathTo h, ok_bind, names_pathTo h]
  by_cases hd : e = .directory
  · simp only [parent_pathTo h he, if_pos hd, Bool.false_eq_true, if_false, h.not_long, hno hd, if_true]
    exact ⟨.isDirectory, rfl⟩
  · simp only [parent_pathTo h he, if_neg hd]
    exact ⟨.notDirectory, rfl⟩

theorem makeDirectory_pathTo {e : Entry} (he : tree.get? (location front) = some e) :
    tree.makeDirectory (pathTo (front ++ [name])) =
      if e = .directory then
        if (tree.get? (location front ++ [octets name])).isSome then .error (.failed .alreadyThere (pathTo (front ++ [name])))
        else .ok (put (location front ++ [octets name]) empty tree)
      else .error (.failed .notDirectory (pathTo (front ++ [name]))) := by
  rw [makeDirectory, checkPath_pathTo h, ok_bind, names_pathTo h]
  by_cases hd : e = .directory
  · simp only [parent_pathTo h he, if_pos hd, h.not_long, if_false]
    by_cases hthere : (tree.get? (location front ++ [octets name])).isSome
    · simp only [hthere, if_true]
      rfl
    · simp only [hthere]
      rfl
  · simp only [parent_pathTo h he, if_neg hd]
    rfl

end

end Typeahead.FileTree
