import Typeahead.FileTree

/-!
# The names of a path

A path is split at its slashes, and how many of them stand between two names plays no role. So the path
without its last name leads to the directory that holds what the path leads to.
-/

namespace Typeahead.FileTree

/-! ## Splitting at slashes -/

theorem splitPath_ne_nil (t : Text) : splitPath t ≠ [] := by
  cases t with
  | nil => simp [splitPath]
  | cons c t =>
    simp only [splitPath]
    split
    · simp
    · split <;> simp

theorem splitPath_append_slash (b : Text) : ∀ a : Text, splitPath (a ++ .scalar '/' :: b) = splitPath a ++ splitPath b
  | [] => by simp [splitPath, isSlash]
  | c :: a => by
    rw [List.cons_append, splitPath, splitPath, splitPath_append_slash b a]
    split
    · rfl
    · cases h : splitPath a with
      | nil => exact absurd h (splitPath_ne_nil a)
      | cons name names => rfl

theorem splitPath_of_no_slash : ∀ {t : Text}, t.all (!isSlash ·) = true → splitPath t = [t]
  | [], _ => rfl
  | c :: t, h => by
    simp only [List.all_cons, Bool.and_eq_true, Bool.not_eq_true'] at h
    rw [splitPath, splitPath_of_no_slash h.2, if_neg (by simp [h.1])]

/-! ## Names -/

@[simp] theorem names_nil : (names []).1 = [] := rfl

theorem names_append_slash (a b : Text) : (names (a ++ .scalar '/' :: b)).1 = (names a).1 ++ (names b).1 := by
  simp [names, splitPath_append_slash]

theorem names_of_no_slash {t : Text} (h : t.all (!isSlash ·) = true) (hne : t ≠ []) : (names t).1 = [octets t] := by
  simp [names, splitPath_of_no_slash h, hne]

theorem names_slashes : ∀ {s : Text}, s.all isSlash = true → (names s).1 = []
  | [], _ => rfl
  | c :: s, h => by
    simp only [List.all_cons, Bool.and_eq_true, isSlash, decide_eq_true_eq] at h
    rw [h.1]
    exact (names_append_slash [] s).trans (names_slashes h.2)

theorem names_append_slashes (a : Text) {s : Text} (h : s.all isSlash = true) : (names (a ++ s)).1 = (names a).1 := by
  cases s with
  | nil => rw [List.append_nil]
  | cons c s =>
    simp only [List.all_cons, Bool.and_eq_true, isSlash, decide_eq_true_eq] at h
    rw [h.1, names_append_slash, names_slashes h.2, List.append_nil]

/-! ## The last name -/

theorem dropEnd_append_takeEnd (f : CodePoint → Bool) (t : Text) :
    (t.reverse.dropWhile f).reverse ++ (t.reverse.takeWhile f).reverse = t := by
  rw [← List.reverse_append, List.takeWhile_append_dropWhile, List.reverse_reverse]

theorem all_takeEnd (f : CodePoint → Bool) (t : Text) : (t.reverse.takeWhile f).reverse.all f = true := by
  rw [List.all_reverse]
  exact List.all_takeWhile

theorem dropEnd_eq (f : CodePoint → Bool) (t : Text) :
    (t.reverse.dropWhile f).reverse = [] ∨
      ∃ u c, (t.reverse.dropWhile f).reverse = u ++ [c] ∧ f c = false := by
  cases h : t.reverse.dropWhile f with
  | nil => exact .inl rfl
  | cons c u =>
    have hc := List.head?_dropWhile_not f t.reverse
    rw [h] at hc
    exact .inr ⟨u.reverse, c, by simp, hc⟩

theorem take_sub_takeEnd (f : CodePoint → Bool) (t : Text) :
    t.take (t.length - (t.reverse.takeWhile f).reverse.length) = (t.reverse.dropWhile f).reverse := by
  have h := dropEnd_append_takeEnd f t
  have hlen := congrArg List.length h
  rw [List.length_append] at hlen
  conv => lhs; rw [← h]
  rw [List.take_left']
  rw [h]
  omega

/-- What is split off is put back with some slashes in between. The last name holds no slash, and if
anything is before it, a slash is. -/
theorem splitLast_spec (path : Text) : ∃ slashes : Text,
    path = (splitLast path).1 ++ slashes ++ (splitLast path).2 ∧ slashes.all isSlash = true ∧
      (splitLast path).2.all (!isSlash ·) = true ∧
      ((splitLast path).1 ++ slashes = [] ∨ ∃ f, (splitLast path).1 ++ slashes = f ++ [.scalar '/']) := by
  have hsplit := dropEnd_append_takeEnd (!isSlash ·) path
  have hends := dropEnd_eq (!isSlash ·) path
  simp only [splitLast, take_sub_takeEnd]
  generalize (path.reverse.dropWhile (!isSlash ·)).reverse = front at hsplit hends ⊢
  have hends' : front = [] ∨ ∃ f, front = f ++ [.scalar '/'] := by
    refine hends.imp id fun ⟨u, c, hu, hc⟩ => ⟨u, ?_⟩
    have : c = .scalar '/' := by simpa [isSlash] using hc
    rw [hu, this]
  by_cases htrimmed : (front.reverse.dropWhile isSlash).reverse = []
  · rw [if_pos htrimmed]
    refine ⟨[], ?_, rfl, all_takeEnd _ path, ?_⟩
    · rw [List.append_nil, hsplit]
    · rwa [List.append_nil]
  · rw [if_neg htrimmed]
    refine ⟨(front.reverse.takeWhile isSlash).reverse, ?_, all_takeEnd _ front, all_takeEnd _ path, ?_⟩
    · rw [dropEnd_append_takeEnd, hsplit]
    · rwa [dropEnd_append_takeEnd]

theorem splitLast_isPrefix (path : Text) : (splitLast path).1 <+: path := by
  obtain ⟨slashes, h, _⟩ := splitLast_spec path
  exact ⟨slashes ++ (splitLast path).2, by rw [← List.append_assoc, ← h]⟩

theorem names_eq_splitLast {path : Text} (hne : path ≠ []) (hslash : path.getLast? ≠ some (.scalar '/')) :
    (names path).1 = (names (splitLast path).1).1 ++ [octets (splitLast path).2] := by
  obtain ⟨slashes, hpath, hs, hname, hends⟩ := splitLast_spec path
  generalize (splitLast path).1 = front at hpath hends ⊢
  generalize (splitLast path).2 = name at hpath hname ⊢
  subst hpath
  have hfront : (names (front ++ slashes)).1 = (names front).1 := names_append_slashes front hs
  have hname' : name ≠ [] := by
    intro hnil
    subst hnil
    rw [List.append_nil] at hne hslash
    rcases hends with h | ⟨f, h⟩
    · exact hne h
    · rw [h] at hslash
      simp at hslash
  rcases hends with h | ⟨f, h⟩
  · rw [← hfront, h, List.nil_append, names_nil, List.nil_append]
    exact names_of_no_slash hname hname'
  · have hf : (names (f ++ [.scalar '/'])).1 = (names f).1 := names_append_slashes f (by simp [isSlash])
    rw [← hfront, h, hf, List.append_assoc, List.singleton_append, names_append_slash,
      names_of_no_slash hname hname']

/-! ## What can be a path -/

theorem checkPath_eq_ok_iff {path : Text} :
    checkPath path = .ok () ↔
      path.all isEncodable = true ∧ .scalar '\x00' ∉ path ∧ path ≠ [] ∧ octetCount path ≤ pathLimit := by
  unfold checkPath
  by_cases hall : path.all isEncodable = false
  · simp [hall]
  rw [Bool.not_eq_false] at hall
  rw [hall]
  by_cases hnul : .scalar '\x00' ∈ path
  · simp [hnul]
  by_cases hnil : path = []
  · simp [hnil]
  by_cases hlong : pathLimit < octetCount path
  · simp [hnul, hnil, hlong, Nat.not_le.2 hlong]
  · simp [hnul, hnil, hlong, Nat.le_of_not_lt hlong]

theorem octetCount_append (t u : Text) : octetCount (t ++ u) = octetCount t + octetCount u := by
  simp only [octetCount, octets, List.flatMap_append, List.length_append]

theorem octetCount_le_of_isPrefix {t u : Text} (h : t <+: u) : octetCount t ≤ octetCount u := by
  obtain ⟨v, rfl⟩ := h
  rw [octetCount_append]
  exact Nat.le_add_right _ _

theorem checkPath_of_isPrefix {front path : Text} (hp : front <+: path) (hne : front ≠ [])
    (h : checkPath path = .ok ()) : checkPath front = .ok () := by
  obtain ⟨hall, hnul, _, hlong⟩ := checkPath_eq_ok_iff.1 h
  apply checkPath_eq_ok_iff.2
  exact ⟨List.all_eq_true.2 fun c hc => List.all_eq_true.1 hall c (hp.subset hc), fun hmem => hnul (hp.subset hmem), hne, Nat.le_trans (octetCount_le_of_isPrefix hp) hlong⟩

end Typeahead.FileTree
