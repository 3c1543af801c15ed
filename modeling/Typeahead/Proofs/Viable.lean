import Typeahead.Proofs.Position

/-!
# Options that go with the text

A choice suggests its viable options: those that the rest of the text starts with, and those that start with the
rest. What it finds is read off the same options. A full match is over the longest that the rest starts with, and
while it is only begun all of them go on from the rest.
-/

namespace Typeahead

/-- The options that begin the rest or go on from it, in the order of the choice. -/
def Options.viable (o : Options) (rest : Text) : List Text := o.texts.filter fun t => t <+: rest ∨ rest <+: t

theorem Options.mem_viable_iff {o : Options} {rest t : Text} :
    t ∈ o.viable rest ↔ t ∈ o.texts ∧ (t <+: rest ∨ rest <+: t) := by
  simp [viable]

section
variable [Host]

theorem Options.suggestRest_eq (o : Options) (rest : Text) :
    (Part.options o).suggestRest rest = .ok ((o.viable rest).map .ofText) := rfl

theorem Options.wordMatch (o : Options) (rest : Text) :
    WordMatch (· ∈ o.texts) rest ((Part.options o).matchRest rest) :=
  wordMatch_literals rest o.literals o.longest_first

theorem Options.viable_eq_nil_iff {o : Options} {rest : Text} :
    o.viable rest = [] ↔ (Part.options o).matchRest rest = none := by
  rw [o.matchRest_eq_none_iff, viable, List.filter_eq_nil_iff]
  exact forall_congr' fun t => imp_congr Iff.rfl (by simp [Text.Agree])

/-- The longest option that the rest starts with is viable, and it is what a full match is over. -/
theorem Options.viable_of_full {o : Options} {rest : Text} {c : Int}
    (h : (Part.options o).matchRest rest = some (.full c)) :
    ∃ k : Nat, c = k ∧ rest.take k ∈ o.viable rest ∧ ∀ t ∈ o.viable rest, t <+: rest → t.length ≤ k := by
  have hw := o.wordMatch rest
  rw [h] at hw
  obtain ⟨w, hmem, hp, hmax, rfl⟩ := hw.longest
  refine ⟨w.length, rfl, ?_, fun t ht htp => hmax t (mem_viable_iff.1 ht).1 htp⟩
  rw [← List.prefix_iff_eq_take.1 hp]
  exact mem_viable_iff.2 ⟨hmem, .inl hp⟩

theorem Options.viable_of_begun {o : Options} {rest : Text} {c : Int}
    (h : (Part.options o).matchRest rest = some (.begun c)) :
    ∀ t ∈ o.viable rest, rest <+: t ∧ rest.length < t.length := by
  intro t ht
  obtain ⟨hmem, hagree⟩ := mem_viable_iff.1 ht
  have hno : ¬t <+: rest := fun hp => ((o.wordMatch rest).begun_iff.1 ⟨c, h⟩).1 ⟨t, hmem, hp⟩
  have hr : rest <+: t := hagree.resolve_left hno
  refine ⟨hr, Nat.lt_of_not_le fun hle => hno ?_⟩
  exact hr.eq_of_length_le hle ▸ List.prefix_refl _

/-- **Suggestions of a choice.** A choice suggests its viable options, in its order and each as it stands; it
refuses if there are none, which is where nothing is found. Over a full match there is the longest of those that
begin the rest, and where the choice is begun each goes on from the rest. -/
theorem Part.suggestions_viable (o : Options) {value : Text} {n : Nat} (hn : n ≤ value.length) :
    ((Part.options o).suggestionsAt value n).result =
      (if o.viable (value.drop n) = [] then .error (.noMatch (.options o) value n)
        else .ok ((o.viable (value.drop n)).map fun t => ⟨.string t, some t⟩)) ∧
    (o.viable (value.drop n) = [] ↔ (Part.options o).Finds value n none) ∧
    (∀ c, (Part.options o).Finds value n (some (.full c)) →
      ∃ k : Nat, c = k ∧ (value.drop n).take k ∈ o.viable (value.drop n) ∧
        ∀ t ∈ o.viable (value.drop n), t <+: value.drop n → t.length ≤ k) ∧
    (∀ c, (Part.options o).Finds value n (some (.begun c)) →
      ∀ t ∈ o.viable (value.drop n), value.drop n <+: t ∧ (value.drop n).length < t.length) := by
  refine ⟨?_, ?_, fun c h => ?_, fun c h => ?_⟩
  · by_cases hnil : o.viable (value.drop n) = []
    · rw [if_pos hnil]
      exact Part.result_suggestionsAt_of_none hn (Options.viable_eq_nil_iff.1 hnil)
    · have hsome : (Part.options o).matchRest (value.drop n) ≠ none := mt Options.viable_eq_nil_iff.2 hnil
      rw [if_neg hnil, Part.result_suggestionsAt_of_some hn hsome, o.suggestRest_eq]
      rfl
  · rw [Part.finds_iff _ hn]
    exact Options.viable_eq_nil_iff
  · exact Options.viable_of_full ((Part.finds_iff _ hn).1 h)
  · exact Options.viable_of_begun ((Part.finds_iff _ hn).1 h)

end

attribute [local instance] Host.usual

/-- Over `ab` the choice of `abc` and `a` finds `a`, and suggests both. -/
theorem Part.suggestions_viable_abcOrA :
    1 ≤ ("xab" : Text).length ∧ ((Part.options .abcOrA).suggestionsAt "xab" (1 : Nat)).result =
      .ok [⟨.string "abc", some "abc"⟩, ⟨.string "a", some "a"⟩] := by
  have hn : 1 ≤ ("xab" : Text).length := by decide
  have hviable : Options.abcOrA.viable (("xab" : Text).drop 1) = [("abc" : Text), "a"] := by decide
  have h := (Part.suggestions_viable .abcOrA hn).1
  rw [hviable, if_neg (by simp)] at h
  exact ⟨hn, h⟩

end Typeahead
