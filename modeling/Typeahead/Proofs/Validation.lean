import Typeahead.Proofs.FixedLength
import Typeahead.Validation

/-!
# Validation by words

A full match reaches over a word of the part, and a word by itself is a full match. So the strict
verdict accepts a text just if a word reaches from the position to its end.
-/

namespace Typeahead

section
variable [Host]

/-! ## Full matches and words -/

theorem Part.eq_fixedLength_or (p : Part) :
    (∃ length pos s, p = .fixedLength length pos s) ∨ ∀ length pos s, p ≠ .fixedLength length pos s := by
  by_cases h : ∃ length pos s, p = .fixedLength length pos s
  · exact .inl h
  · exact .inr fun length pos s e => h ⟨length, pos, s, e⟩

theorem Part.exists_consumed {p : Part} {rest : Text} {m : Match} (h : p.matchRest rest = some m) :
    ∃ k : Nat, m.consumed = k ∧ k ≤ rest.length := by
  rcases p.eq_fixedLength_or with ⟨length, pos, s, rfl⟩ | hp
  · obtain ⟨run, tail, rfl, hrun, htail⟩ := exists_run rest
    refine ⟨run.length, consumed_fixedLength hrun htail h, ?_⟩
    rw [List.length_append]
    omega
  · have hw := Part.wordMatch hp rest
    rw [h] at hw
    exact hw.exists_consumed

theorem Part.word_of_full {p : Part} {rest : Text} {k : Int} (h : p.matchRest rest = some (.full k)) :
    ∃ w, p.Word w ∧ w <+: rest ∧ k = w.length := by
  rcases p.eq_fixedLength_or with ⟨length, pos, s, rfl⟩ | hp
  · obtain ⟨run, tail, rfl, hrun, htail⟩ := exists_run rest
    obtain ⟨_, hlen, hk⟩ := (full_append_iff hrun htail).1 h
    exact ⟨run, ⟨hlen, hrun⟩, List.prefix_append _ _, hk⟩
  · have hw := Part.wordMatch hp rest
    rw [h] at hw
    obtain ⟨w, hw, hpre, _, hk⟩ := hw.longest
    exact ⟨w, hw, hpre, hk⟩

theorem Part.full_of_word {p : Part} {w : Text} (h : p.Word w) :
    p.matchRest w = some (.full w.length) := by
  rcases p.eq_fixedLength_or with ⟨length, pos, s, rfl⟩ | hp
  · obtain ⟨hlen, hall⟩ := h
    have hne : w ≠ [] := List.length_pos_iff.1 (hlen ▸ pos)
    have := (full_append_iff hall endsRun_nil).2 ⟨fun h => hne h.1, hlen, rfl⟩
    rwa [List.append_nil] at this
  · have hw := Part.wordMatch hp w
    obtain ⟨k, hk⟩ := hw.full_iff.2 ⟨w, h, List.prefix_refl _⟩
    rw [hk] at hw ⊢
    obtain ⟨v, _, hpre, hmax, rfl⟩ := hw.longest
    rw [hpre.eq_of_length_le (hmax w h (List.prefix_refl _))]

/-! ## Verdicts -/

/-- A text is valid for the part from a position on. -/
def Part.Accepts (p : Part) (index : Int) (allowBegun : Bool) (text : Text) : Prop :=
  (p.validate index allowBegun text).result = .ok .valid

theorem Part.validate_of_lt (p : Part) {n : Nat} {text : Text} (allowBegun : Bool) (h : text.length < n) :
    p.validate n allowBegun text = pure (.invalid text.length .tooShort) := by
  unfold Part.validate
  have : (n : Int) > text.length := by omega
  simp [this]

theorem Part.validate_of_le (p : Part) {n : Nat} {text : Text} (allowBegun : Bool) (h : n ≤ text.length) :
    (p.validate n allowBegun text).result =
      .ok (.ofMatch allowBegun n text.length (p.matchRest (text.drop n))) := by
  unfold Part.validate
  have : ¬(n : Int) > text.length := by omega
  simp [this, p.matchAt_natCast h]
  rfl

theorem Part.accepts_iff_word (p : Part) (n : Nat) (text : Text) :
    p.Accepts n false text ↔ n ≤ text.length ∧ p.Word (text.drop n) := by
  unfold Part.Accepts
  rcases Nat.lt_or_ge text.length n with hlt | hn
  · rw [p.validate_of_lt false hlt]
    simp [Nat.not_le.2 hlt]
  · rw [p.validate_of_le false hn]
    have hlen : (text.drop n).length = text.length - n := List.length_drop
    constructor
    · intro h
      refine ⟨hn, ?_⟩
      generalize hm : p.matchRest (text.drop n) = m at h
      match m with
      | none => simp [Verdict.ofMatch] at h
      | some ⟨.begun, k⟩ => simp [Verdict.ofMatch] at h
      | some ⟨.full, k⟩ =>
        obtain ⟨w, hw, hpre, rfl⟩ := Part.word_of_full hm
        have hstop : ¬(n + (w.length : Int) < text.length) := by
          intro hlt
          simp [Verdict.ofMatch, hlt] at h
        have : w = text.drop n := hpre.eq_of_length_le (by omega)
        rwa [← this]
    · intro ⟨_, hw⟩
      rw [Part.full_of_word hw]
      have : ¬(n + ((text.drop n).length : Int) < text.length) := by omega
      simp only [Verdict.ofMatch, Match.full, reduceCtorEq, false_and, if_false, this]

end

end Typeahead
