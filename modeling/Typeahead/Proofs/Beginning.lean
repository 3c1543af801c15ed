import Typeahead.Proofs.FixedLength

/-!
# Beginnings of words

What is typed so far may still become a word if it begins one. A match reaches its end just there, unless
a choice has a shorter word in front: that one is found, and it stops too early for the longer word.
-/

namespace Typeahead

/-! ## Matches that reach the end -/

theorem WordMatch.reaches_iff {W : Text → Prop} {rest : Text} {found : Option Match}
    (h : WordMatch W rest found) :
    (∃ m, found = some m ∧ m.consumed = rest.length) ↔
      (∃ w, W w ∧ rest <+: w) ∧ ¬(¬W rest ∧ ∃ v, W v ∧ v <+: rest) := by
  cases h with
  | @full w hw hp hmax =>
    constructor
    · intro ⟨m, hm, hk⟩
      cases hm
      rw [consumed_full] at hk
      have heq : w = rest := hp.eq_of_length (by omega)
      subst heq
      exact ⟨⟨w, hw, List.prefix_refl _⟩, fun h => h.1 hw⟩
    · intro ⟨_, hno⟩
      -- the rest is the longest word that it starts with
      have hrest : W rest := Classical.byContradiction fun hn => hno ⟨hn, w, hw, hp⟩
      have hle := hmax rest hrest (List.prefix_refl _)
      refine ⟨_, rfl, ?_⟩
      rw [consumed_full, Nat.le_antisymm hp.length_le hle]
  | @begun w hn hw hr =>
    refine ⟨fun _ => ⟨⟨w, hw, hr⟩, ?_⟩, fun _ => ⟨_, rfl, rfl⟩⟩
    intro ⟨_, v, hv, hp⟩
    exact hn v hv hp
  | apart hn =>
    constructor
    · intro ⟨m, hm, _⟩
      cases hm
    · intro ⟨⟨w, hw, hr⟩, _⟩
      exact absurd hr (hn w hw).2

theorem reaches_append_iff {found : Option Match} {run tail : Text}
    (h : ∀ m, found = some m → m.consumed = run.length) :
    (∃ m, found = some m ∧ m.consumed = (run ++ tail).length) ↔ (∃ m, found = some m) ∧ tail = [] := by
  constructor
  · intro ⟨m, hm, hk⟩
    rw [h m hm, List.length_append] at hk
    exact ⟨⟨m, hm⟩, List.length_eq_zero_iff.1 (by omega)⟩
  · intro ⟨⟨m, hm⟩, ht⟩
    exact ⟨m, hm, by rw [h m hm, ht, List.append_nil]⟩

/-! ## Starts of words -/

section
variable [Host]

/-- The rest is the start of a word. -/
def Leaf.Begins (l : Leaf) (rest : Text) : Prop := ∃ w, l.Word w ∧ rest <+: w

def Part.Begins (p : Part) (rest : Text) : Prop := ∃ w, p.Word w ∧ rest <+: w

/-- The rest goes on after a word and is no word itself. -/
def Part.Overruns (p : Part) (rest : Text) : Prop := ¬p.Word rest ∧ ∃ v, p.Word v ∧ v <+: rest

theorem Leaf.begins_number_iff {s : Settings} {rest : Text} :
    (Leaf.number s).Begins rest ↔ rest.all CodePoint.isDigit = true := by
  constructor
  · intro ⟨w, ⟨_, hw⟩, hp⟩
    exact all_isDigit_mono hp hw
  · intro h
    have hd : (rest ++ [('0' : CodePoint)]).all CodePoint.isDigit = true := by
      rw [List.all_append, h]
      rfl
    exact ⟨_, ⟨by simp, hd⟩, List.prefix_append _ _⟩

theorem Leaf.begins_fixedLength_iff {length : Nat} {pos : 0 < length} {s : Settings} {rest : Text} :
    (Leaf.fixedLength length pos s).Begins rest ↔
      rest.all CodePoint.isDigit = true ∧ rest.length ≤ length := by
  constructor
  · intro ⟨w, ⟨hlen, hw⟩, hp⟩
    exact ⟨all_isDigit_mono hp hw, hlen ▸ hp.length_le⟩
  · intro ⟨hd, hle⟩
    exact ⟨_, Leaf.word_padRight pos s s.pad_digit hd hle, List.prefix_append _ _⟩

theorem Leaf.begins_literal_iff {l : Literal} {rest : Text} :
    (Leaf.literal l).Begins rest ↔ rest <+: l.text :=
  ⟨fun ⟨_, hw, hp⟩ => hw ▸ hp, fun h => ⟨_, rfl, h⟩⟩

theorem Leaf.word_between {l : Leaf} {v rest : Text} (hv : l.Word v) (hp : v <+: rest)
    (h : l.Begins rest) : l.Word rest := by
  obtain ⟨w, hw, hr⟩ := h
  cases l with
  | literal l =>
    have hvw : v = w := Eq.trans hv (Eq.symm hw)
    subst hvw
    have heq : v = rest := hp.eq_of_length_le hr.length_le
    exact heq ▸ hv
  | number s =>
    have hne : rest ≠ [] := by
      intro hnil
      exact hv.1 (List.prefix_nil.1 (hnil ▸ hp))
    exact ⟨hne, all_isDigit_mono hr hw.2⟩
  | fixedLength length pos s =>
    have hle : rest.length ≤ length := hw.1 ▸ hr.length_le
    have hge : length ≤ rest.length := hv.1 ▸ hp.length_le
    exact ⟨Nat.le_antisymm hle hge, all_isDigit_mono hr hw.2⟩

theorem Leaf.not_overruns_of_begins {l : Leaf} {rest : Text} (h : l.Begins rest) :
    ¬(Part.leaf l).Overruns rest := by
  intro ⟨hn, v, hv, hp⟩
  exact hn (Leaf.word_between hv hp h)

theorem Leaf.reaches_fixedLength_iff {length : Nat} (pos : 0 < length) (s : Settings) (rest : Text) :
    (∃ m, (Leaf.fixedLength length pos s).matchRest rest = some m ∧ m.consumed = rest.length) ↔
      (Leaf.fixedLength length pos s).Begins rest := by
  rw [Leaf.begins_fixedLength_iff]
  obtain ⟨run, tail, rfl, hrun, htail⟩ := exists_run rest
  rw [all_isDigit_append_iff hrun htail, Leaf.matchRest,
    reaches_append_iff fun m hm => consumed_fixedLength hrun htail hm, matched_append_iff hrun htail]
  constructor
  · intro h
    obtain ⟨⟨_, hle⟩, ht⟩ := h
    rw [ht, List.append_nil]
    exact ⟨rfl, hle⟩
  · intro h
    obtain ⟨ht, hle⟩ := h
    rw [ht, List.append_nil] at hle
    exact ⟨⟨fun h => h.2 ht, hle⟩, ht⟩

theorem Leaf.reaches_iff (l : Leaf) (rest : Text) :
    (∃ m, l.matchRest rest = some m ∧ m.consumed = rest.length) ↔ l.Begins rest := by
  have hno := fun h : l.Begins rest => Leaf.not_overruns_of_begins h
  cases l with
  | literal l => exact (l.wordMatch rest).reaches_iff.trans (and_iff_left_of_imp hno)
  | number s => exact (numberMatchRest_wordMatch rest).reaches_iff.trans (and_iff_left_of_imp hno)
  | fixedLength length pos s => exact Leaf.reaches_fixedLength_iff pos s rest

theorem Part.reaches_iff (p : Part) (rest : Text) :
    (∃ m, p.matchRest rest = some m ∧ m.consumed = rest.length) ↔ p.Begins rest ∧ ¬p.Overruns rest := by
  cases p with
  | leaf l => exact (l.reaches_iff rest).trans (and_iff_left_of_imp Leaf.not_overruns_of_begins).symm
  | options o => exact (wordMatch_literals rest o.literals o.longest_first).reaches_iff

end

end Typeahead
