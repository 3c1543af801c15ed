import Typeahead.Proofs.Beginning
import Typeahead.Proofs.Validation

/-!
# Verdicts while a text is typed

The lenient verdict accepts the beginnings of words, so what it accepts can be completed. Of a choice it
refuses some of them: where a word is in front and the rest goes on to a longer one, the shorter word is
matched and what follows it is not expected.
-/

namespace Typeahead

/-! ## The lenient verdict -/

theorem Verdict.ofMatch_lenient_iff (index length : Int) (found : Option Match) :
    ofMatch true index length found = .valid ↔ ∃ m, found = some m ∧ length ≤ index + m.consumed := by
  cases found with
  | none =>
    constructor
    · intro h
      cases h
    · intro h
      obtain ⟨m, hm, _⟩ := h
      cases hm
  | some m =>
    simp only [ofMatch, Bool.not_true, Bool.false_eq_true, and_false, if_false]
    by_cases hlt : index + m.consumed < length
    · rw [if_pos hlt]
      constructor
      · intro h
        cases h
      · intro h
        obtain ⟨m', hm, hle⟩ := h
        cases hm
        omega
    · rw [if_neg hlt]
      exact ⟨fun _ => ⟨m, rfl, by omega⟩, fun _ => rfl⟩

section
variable [Host]

theorem Part.accepts_lenient_iff (p : Part) (n : Nat) (text : Text) :
    p.Accepts n true text ↔
      n ≤ text.length ∧ p.Begins (text.drop n) ∧ ¬p.Overruns (text.drop n) := by
  unfold Part.Accepts
  rcases Nat.lt_or_ge text.length n with hlt | hn
  · rw [p.validate_of_lt true hlt]
    simp [Nat.not_le.2 hlt]
  · rw [p.validate_of_le true hn, Except.ok.injEq, Verdict.ofMatch_lenient_iff, ← p.reaches_iff]
    have hlen : (text.drop n).length = text.length - n := List.length_drop
    constructor
    · intro ⟨m, hm, hle⟩
      obtain ⟨k, hk, hmax⟩ := Part.exists_consumed hm
      exact ⟨hn, m, hm, by omega⟩
    · intro ⟨_, m, hm, hk⟩
      exact ⟨m, hm, by omega⟩

/-! ## Both verdicts -/

/-- **Verdicts and words.** The strict verdict accepts just the words, and what the lenient verdict accepts
goes on to a text that the strict one accepts. -/
theorem Part.accepts_words (p : Part) (n : Nat) (text : Text) :
    (p.Accepts n false text ↔ n ≤ text.length ∧ p.Word (text.drop n)) ∧
      (p.Accepts n true text → ∃ s, p.Accepts n false (text ++ s)) := by
  refine ⟨p.accepts_iff_word n text, fun h => ?_⟩
  obtain ⟨hn, ⟨w, hw, s, hs⟩, _⟩ := (p.accepts_lenient_iff n text).1 h
  refine ⟨s, (p.accepts_iff_word n _).2 ⟨?_, ?_⟩⟩
  · rw [List.length_append]
    omega
  · rwa [List.drop_append_of_le_length hn, hs]

end

section
attribute [local instance] Host.usual

theorem Part.accepts_words_x12 :
    (Part.fixedLength 3 (by decide) default).Accepts (1 : Nat) true "x12" ∧
      ∃ s, (Part.fixedLength 3 (by decide) default).Accepts (1 : Nat) false ("x12" ++ s) := by
  have h : (Part.fixedLength 3 (by decide) default).Accepts (1 : Nat) true "x12" := rfl
  exact ⟨h, (Part.accepts_words _ 1 "x12").2 h⟩

end

section
variable [Host]

/-- **Beginnings of what is accepted.** While a text is typed that the strict verdict will accept, the lenient
verdict accepts what is there of the part, unless it goes on after a word without being one; only in a
choice does it ever. -/
theorem Part.lenient_on_prefix_iff {p : Part} {n : Nat} {text before : Text}
    (h : p.Accepts n false text) (hp : before <+: text) (hn : n ≤ before.length) :
    (p.Accepts n true before ↔ ¬p.Overruns (before.drop n)) ∧
      ((∀ o, p ≠ .options o) → p.Accepts n true before) := by
  obtain ⟨_, hw⟩ := (p.accepts_iff_word n text).1 h
  have hbegins : p.Begins (before.drop n) := by
    obtain ⟨s, rfl⟩ := hp
    rw [List.drop_append_of_le_length hn] at hw
    exact ⟨_, hw, List.prefix_append _ _⟩
  have hiff : p.Accepts n true before ↔ ¬p.Overruns (before.drop n) := by
    rw [p.accepts_lenient_iff]
    exact ⟨fun h => h.2.2, fun h => ⟨hn, hbegins, h⟩⟩
  refine ⟨hiff, fun hno => hiff.2 ?_⟩
  cases p with
  | leaf l => exact Leaf.not_overruns_of_begins hbegins
  | options o => exact absurd rfl (hno o)

end

attribute [local instance] Host.usual

theorem Part.lenient_on_prefix_abcOrA :
    (Part.options .abcOrA).Accepts (1 : Nat) false "xabc" ∧ ("xa" : Text) <+: "xabc" ∧
      1 ≤ ("xa" : Text).length ∧ (Part.options .abcOrA).Accepts (1 : Nat) true "xa" := by
  have h : (Part.options .abcOrA).Accepts (1 : Nat) false "xabc" :=
    (Part.accepts_iff_word _ 1 _).2 ⟨by decide, (Part.word_abcOrA_iff _).2 (.inl rfl)⟩
  have hp : ("xa" : Text) <+: "xabc" := by decide
  have hn : 1 ≤ ("xa" : Text).length := by decide
  have hword : (Part.options .abcOrA).Word (("xa" : Text).drop 1) := (Part.word_abcOrA_iff _).2 (.inr rfl)
  exact ⟨h, hp, hn, (Part.lenient_on_prefix_iff h hp hn).1.2 fun hover => hover.1 hword⟩

/-- `ab` is refused on the way to `abc`, because `a` is matched in front. -/
theorem Part.abcOrA_ab :
    (Part.options .abcOrA).Accepts (0 : Nat) false "abc" ∧ ("ab" : Text) <+: "abc" ∧
      ¬(Part.options .abcOrA).Accepts (0 : Nat) true "ab" := by
  refine ⟨(Part.accepts_iff_word _ 0 _).2 ⟨by decide, (Part.word_abcOrA_iff _).2 (.inl rfl)⟩, by decide, ?_⟩
  intro h
  obtain ⟨_, _, hno⟩ := (Part.accepts_lenient_iff _ 0 _).1 h
  refine hno ⟨fun hw => ?_, "a", (Part.word_abcOrA_iff _).2 (.inr rfl), by decide⟩
  rcases (Part.word_abcOrA_iff _).1 hw with h | h
  · exact absurd h (by decide)
  · exact absurd h (by decide)

end Typeahead
