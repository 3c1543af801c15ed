import Typeahead.Proofs.Validation

/-!
# Matches of a text that grows

Text that is typed at the end does not bring a lost match back, takes nothing away from what is consumed and
makes no full match a beginning. A full match is lost only where a number of fixed length gets more digits.
-/

namespace Typeahead

/-! ## Words -/

section
variable {W : Text → Prop} {rest s : Text}

theorem WordMatch.full_of_append {found : Option Match} {k : Int} (h : WordMatch W rest (some (.full k)))
    (h' : WordMatch W (rest ++ s) found) : ∃ k', found = some (.full k') := by
  obtain ⟨w, hw, hp, _⟩ := h.longest
  exact h'.full_iff.2 ⟨w, hw, hp.trans (List.prefix_append _ _)⟩

theorem WordMatch.eq_none_of_append {found : Option Match} (h : WordMatch W rest none)
    (h' : WordMatch W (rest ++ s) found) : found = none := by
  have hn := h.eq_none_iff.1 rfl
  refine h'.eq_none_iff.2 fun w hw => ⟨fun hp => ?_, fun hr => ?_⟩
  · rcases List.prefix_or_prefix_of_prefix hp (List.prefix_append rest s) with h | h
    · exact (hn w hw).1 h
    · exact (hn w hw).2 h
  · exact (hn w hw).2 ((List.prefix_append rest s).trans hr)

theorem WordMatch.consumed_le_append {m m' : Match} (h : WordMatch W rest (some m))
    (h' : WordMatch W (rest ++ s) (some m')) : m.consumed ≤ m'.consumed := by
  generalize hm : some m = found at h
  generalize hm' : some m' = found' at h'
  cases h with
  | @full w hw hp _ =>
    cases hm
    have hlong := hp.trans (List.prefix_append rest s)
    cases h' with
    | @full w' _ _ hmax =>
      cases hm'
      have hle := hmax w hw hlong
      rw [consumed_full, consumed_full]
      omega
    | begun hn _ _ => exact absurd hlong (hn w hw)
    | apart => cases hm'
  | begun hn _ _ =>
    cases hm
    show (rest.length : Int) ≤ _
    cases h' with
    | @full w' hw' hp' _ =>
      cases hm'
      -- the longer text starts with a word and the shorter one does not, so the word is longer
      have hlong : rest <+: w' := by
        rcases List.prefix_or_prefix_of_prefix hp' (List.prefix_append rest s) with h | h
        · exact absurd h (hn w' hw')
        · exact h
      have hle := hlong.length_le
      rw [consumed_full]
      omega
    | begun =>
      cases hm'
      show (rest.length : Int) ≤ ((rest ++ s).length : Nat)
      rw [List.length_append]
      omega
    | apart => cases hm'
  | apart => cases hm

theorem WordMatch.matched_of_append {found : Option Match} {m' : Match} (h : WordMatch W rest found)
    (h' : WordMatch W (rest ++ s) (some m')) : ∃ m, found = some m ∧ m.consumed ≤ m'.consumed := by
  cases found with
  | none => cases h.eq_none_of_append h'
  | some m => exact ⟨m, rfl, h.consumed_le_append h'⟩

end

/-! ## Runs of digits -/

/-- A run grows with the text if it ends with the text, and else it stays as it is. -/
theorem exists_longer_run (rest s : Text) : ∃ run more tail tail',
    rest = run ++ tail ∧ rest ++ s = run ++ more ++ tail' ∧ run.all CodePoint.isDigit = true ∧
      (run ++ more).all CodePoint.isDigit = true ∧ EndsRun tail ∧ EndsRun tail' ∧
      (tail ≠ [] → more = [] ∧ tail' ≠ []) := by
  obtain ⟨run, tail, rfl, hrun, htail⟩ := exists_run rest
  cases tail with
  | nil =>
    obtain ⟨more, tail', rfl, hmore, htail'⟩ := exists_run s
    refine ⟨run, more, [], tail', rfl, ?_, hrun, ?_, htail, htail', fun h => absurd rfl h⟩
    · rw [List.append_nil, List.append_assoc]
    · rw [List.all_append, hrun, hmore]
      rfl
  | cons c t =>
    refine ⟨run, [], c :: t, c :: t ++ s, rfl, ?_, hrun, ?_, htail, endsRun_cons (htail c t rfl), ?_⟩
    · rw [List.append_nil, List.append_assoc]
    · rwa [List.append_nil]
    · intro _
      exact ⟨rfl, by simp⟩

theorem fixedLength_matched_of_append {length : Nat} {rest s : Text} {m' : Match}
    (h : fixedLengthMatchRest length (rest ++ s) = some m') :
    ∃ m, fixedLengthMatchRest length rest = some m ∧ m.consumed ≤ m'.consumed := by
  obtain ⟨run, more, tail, tail', rfl, heq, hrun, hmore, htail, htail', hstop⟩ := exists_longer_run rest s
  rw [heq] at h
  have hk := consumed_fixedLength hmore htail' h
  obtain ⟨hdigits, hle⟩ := (matched_append_iff hmore htail').1 ⟨m', h⟩
  rw [List.length_append] at hk hle
  have hshort : ¬(run = [] ∧ tail ≠ []) := by
    intro ⟨hnil, hne⟩
    obtain ⟨hmnil, hne'⟩ := hstop hne
    exact hdigits ⟨by rw [hnil, hmnil]; rfl, hne'⟩
  have hmatched : ∃ m, fixedLengthMatchRest length (run ++ tail) = some m :=
    (matched_append_iff hrun htail).2 ⟨hshort, by omega⟩
  obtain ⟨m, hm⟩ := hmatched
  refine ⟨m, hm, ?_⟩
  rw [consumed_fixedLength hrun htail hm]
  omega

theorem fixedLength_append_of_full {length : Nat} (pos : 0 < length) {rest s : Text} {k : Int}
    (h : fixedLengthMatchRest length rest = some (.full k)) :
    ∃ run, digitRun? (rest ++ s) = some run ∧
      fixedLengthMatchRest length (rest ++ s) = if length < run.length then none else some (.full length) := by
  obtain ⟨run, more, tail, tail', rfl, heq, hrun, hmore, htail, htail', _⟩ := exists_longer_run rest s
  obtain ⟨_, hlen, _⟩ := (full_append_iff hrun htail).1 h
  have hne : ¬(run ++ more = [] ∧ tail' ≠ []) := by
    intro ⟨hnil, _⟩
    rw [(List.append_eq_nil_iff.1 hnil).1] at hlen
    exact absurd hlen (Nat.ne_of_lt pos)
  have hle : length ≤ (run ++ more).length := by
    rw [List.length_append]
    omega
  rw [heq]
  refine ⟨run ++ more, ?_, ?_⟩
  · rw [digitRun?_append hmore htail', if_neg hne]
  · rw [fixedLengthMatchRest_append hmore htail', if_neg hne]
    by_cases hlt : length < (run ++ more).length
    · rw [if_pos hlt, if_neg (by omega), if_neg (by omega)]
    · rw [if_neg hlt, if_pos (by omega), Nat.le_antisymm (Nat.le_of_not_lt hlt) hle]

/-! ## Parts -/

section
variable [Host]

theorem Part.matched_of_append {p : Part} {rest s : Text} {m' : Match}
    (h : p.matchRest (rest ++ s) = some m') :
    ∃ m, p.matchRest rest = some m ∧ m.consumed ≤ m'.consumed := by
  rcases p.eq_fixedLength_or with ⟨length, pos, settings, rfl⟩ | hp
  · exact fixedLength_matched_of_append h
  · have hw := Part.wordMatch hp (rest ++ s)
    rw [h] at hw
    exact (Part.wordMatch hp rest).matched_of_append hw

/-- The part is a number of fixed length, and there are more digits at the position. -/
def Part.TooManyDigits (p : Part) (value : Text) (n : Nat) : Prop :=
  ∃ length pos settings run, p = .fixedLength length pos settings ∧
    numberAt value n = .ok (some run) ∧ length < run.length

theorem Part.not_tooManyDigits {p : Part} (hp : ∀ length pos s, p ≠ .fixedLength length pos s)
    (value : Text) (n : Nat) : ¬p.TooManyDigits value n := by
  intro ⟨length, pos, settings, _, he, _⟩
  exact hp length pos settings he

theorem Part.tooManyDigits_fixedLength_iff {length : Nat} {pos : 0 < length} {settings : Settings}
    {value run : Text} {n : Nat} (hrun : numberAt value n = .ok (some run)) :
    (Part.fixedLength length pos settings).TooManyDigits value n ↔ length < run.length := by
  constructor
  · intro ⟨length', _, _, run', he, hrun', hlt⟩
    cases he
    rw [hrun] at hrun'
    cases hrun'
    exact hlt
  · intro hlt
    exact ⟨length, pos, settings, run, rfl, hrun, hlt⟩

theorem Part.finds_append_of_full {p : Part} {value : Text} {n : Nat} (hn : n ≤ value.length) (s : Text)
    {k : Int} (h : p.Finds value n (some (.full k))) :
    ∃ found, p.Finds (value ++ s) n found ∧ (∀ k', found ≠ some (.begun k')) ∧
      (found = none ↔ p.TooManyDigits (value ++ s) n) := by
  refine ⟨_, (p.finds_append_iff hn s).2 rfl, ?_⟩
  rw [p.finds_iff hn] at h
  rcases p.eq_fixedLength_or with ⟨length, pos, settings, rfl⟩ | hp
  · obtain ⟨run, hrun, heq⟩ := fixedLength_append_of_full pos (s := s) h
    have hat : numberAt (value ++ s) n = .ok (some run) := by
      rw [numberAt_natCast (by rw [List.length_append]; omega), List.drop_append_of_le_length hn, hrun]
    rw [Part.tooManyDigits_fixedLength_iff hat]
    show (∀ k', fixedLengthMatchRest length (value.drop n ++ s) ≠ _) ∧
      (fixedLengthMatchRest length (value.drop n ++ s) = none ↔ _)
    rw [heq]
    split
    · next hlt => exact ⟨fun k' hk => (by cases hk), fun _ => hlt, fun _ => rfl⟩
    · next hge => exact ⟨fun k' hk => (by cases hk), fun hk => (by cases hk), fun hlt => absurd hlt hge⟩
  · have hw := Part.wordMatch hp (value.drop n)
    rw [h] at hw
    obtain ⟨k', hk'⟩ := hw.full_of_append (Part.wordMatch hp (value.drop n ++ s))
    rw [hk']
    refine ⟨fun k'' hk => (by cases hk), fun hk => (by cases hk), fun hmany => ?_⟩
    exact absurd hmany (Part.not_tooManyDigits hp _ n)

/-- **Growing texts.** Where nothing is found, nothing is found in any longer text. A full match stays full,
unless it is of a number of fixed length and gets more digits: then it is lost. And what a longer text
finds, the shorter one finds too, with no more consumed. -/
theorem Part.finds_append_mono (p : Part) {value : Text} {n : Nat} (hn : n ≤ value.length) (s : Text) :
    (p.Finds value n none → p.Finds (value ++ s) n none) ∧
      (∀ k, p.Finds value n (some (.full k)) →
        ∃ found, p.Finds (value ++ s) n found ∧ (∀ k', found ≠ some (.begun k')) ∧
          (found = none ↔ p.TooManyDigits (value ++ s) n)) ∧
      ∀ m', p.Finds (value ++ s) n (some m') →
        ∃ m, p.Finds value n (some m) ∧ m.consumed ≤ m'.consumed := by
  refine ⟨fun h => ?_, fun k h => Part.finds_append_of_full hn s h, fun m' h => ?_⟩
  · rw [p.finds_iff hn] at h
    rw [p.finds_append_iff hn]
    cases hm : p.matchRest (value.drop n ++ s) with
    | none => rfl
    | some m' =>
      obtain ⟨m, hm, _⟩ := Part.matched_of_append hm
      rw [h] at hm
      cases hm
  · obtain ⟨m, hm, hle⟩ := Part.matched_of_append ((p.finds_append_iff hn s).1 h)
    exact ⟨m, (p.finds_iff hn).2 hm, hle⟩

end

attribute [local instance] Host.usual

theorem Part.finds_append_mono_x123 :
    1 ≤ ("x123" : Text).length ∧
      (Part.fixedLength 3 (by decide) default).Finds "x123" (1 : Nat) (some (.full 3)) ∧
      (Part.fixedLength 3 (by decide) default).Finds ("x123" ++ "4") (1 : Nat) none := by
  have hn : 1 ≤ ("x123" : Text).length := by decide
  have h : (Part.fixedLength 3 (by decide) default).Finds "x123" (1 : Nat) (some (.full 3)) :=
    (Part.finds_iff _ hn).2 rfl
  obtain ⟨found, hfound, _, hnone⟩ := (Part.finds_append_mono _ hn "4").2.1 3 h
  have hmany : (Part.fixedLength 3 (by decide) default).TooManyDigits ("x123" ++ "4") 1 :=
    ⟨3, by decide, default, "1234", rfl, rfl, by decide⟩
  rw [hnone.2 hmany] at hfound
  exact ⟨hn, h, hfound⟩

end Typeahead
