import Typeahead.Proofs.LongestFirst
import Typeahead.Proofs.Position
import Typeahead.Proofs.Validation

/-!
# The order of options

What a choice finds depends on the set of its options alone, and the set is seen in what it finds. The
order in which options of one length are given shows in the order of the suggestions, and nowhere else.
-/

namespace Typeahead

theorem WordMatch.unique {W : Text → Prop} {rest : Text} {m m' : Option Match} (h : WordMatch W rest m)
    (h' : WordMatch W rest m') : m = m' := by
  cases h with
  | @full w hw hp hmax =>
    cases h' with
    | @full w' hw' hp' hmax' =>
      rw [Nat.le_antisymm (hmax' w hw hp) (hmax w' hw' hp')]
    | begun hn _ _ => exact absurd hp (hn w hw)
    | apart hn => exact absurd hp (hn w hw).1
  | @begun w hn hw hr =>
    cases h' with
    | full hw' hp' _ => exact absurd hp' (hn _ hw')
    | begun _ _ _ => rfl
    | apart hn' => exact absurd hr (hn' w hw).2
  | apart hn =>
    cases h' with
    | full hw' hp' _ => exact absurd hp' (hn _ hw').1
    | begun _ hw' hr' => exact absurd hr' (hn _ hw').2
    | apart _ => rfl

theorem Suggestion.ofText_injective : Function.Injective Suggestion.ofText := by
  intro t u h
  cases h
  rfl

section
variable [Host]

/-! ## Matches -/

/-- One of two choices finds each of its options, so where both find the same the other has them too. -/
theorem Options.mem_texts_of_matchRest_eq {o o' : Options}
    (h : ∀ rest, (Part.options o).matchRest rest = (Part.options o').matchRest rest) {t : Text}
    (ht : t ∈ o.texts) : t ∈ o'.texts := by
  have hfull : (Part.options o').matchRest t = some (.full t.length) := by
    rw [← h]
    exact Part.full_of_word (p := .options o) ht
  obtain ⟨w, hw, hp, hlen⟩ := Part.word_of_full hfull
  have hwt : w = t := hp.eq_of_length (by omega)
  rwa [← hwt]

theorem Options.matchRest_eq_iff {o o' : Options} :
    (∀ rest, (Part.options o).matchRest rest = (Part.options o').matchRest rest) ↔
      ∀ t, t ∈ o.texts ↔ t ∈ o'.texts := by
  constructor
  · intro h t
    exact ⟨Options.mem_texts_of_matchRest_eq h, Options.mem_texts_of_matchRest_eq fun rest => (h rest).symm⟩
  · intro h rest
    have hw : WordMatch (· ∈ o.texts) rest ((Part.options o).matchRest rest) :=
      wordMatch_literals rest o.literals o.longest_first
    have hw' : WordMatch (· ∈ o'.texts) rest ((Part.options o').matchRest rest) :=
      wordMatch_literals rest o'.literals o'.longest_first
    exact (hw.congr h).unique hw'

theorem Part.finds_same_iff {p q : Part} :
    (∀ (value : Text) (n : Nat), n ≤ value.length → ∀ found, p.Finds value n found ↔ q.Finds value n found) ↔
      ∀ rest, p.matchRest rest = q.matchRest rest := by
  constructor
  · intro h rest
    have hn : 0 ≤ rest.length := Nat.zero_le _
    have := (h rest 0 hn _).1 ((p.finds_iff hn).2 rfl)
    exact ((q.finds_iff hn).1 this).symm
  · intro h value n hn found
    rw [p.finds_iff hn, q.finds_iff hn, h]

/-! ## Suggestions -/

/-- Both are refused outside the text, or nothing matches, or both have the same suggestions, maybe in
another order. -/
inductive SuggestAlike (p q : Part) (value : Text) (index : Int) : Prop
  | outside : (index < 0 ∨ value.length < index) →
      (p.suggestionsAt value index).result = .error (.ofIndex index value) →
      (q.suggestionsAt value index).result = .error (.ofIndex index value) → SuggestAlike p q value index
  | noMatch : (p.suggestionsAt value index).result = .error (.noMatch p value index) →
      (q.suggestionsAt value index).result = .error (.noMatch q value index) → SuggestAlike p q value index
  | perm {s t : List Suggestion} : (p.suggestionsAt value index).result = .ok s →
      (q.suggestionsAt value index).result = .ok t → s.Perm t → SuggestAlike p q value index

theorem Options.suggestAlike_of_perm {o o' : Options} (h : o.texts.Perm o'.texts) (value : Text) (index : Int) :
    SuggestAlike (.options o) (.options o') value index := by
  rcases outside_or_natCast value index with hout | ⟨n, rfl, hn⟩
  · exact .outside hout (Part.suggestionsAt_of_outside hout _) (Part.suggestionsAt_of_outside hout _)
  · have heq := Options.matchRest_eq_iff.2 (fun t => h.mem_iff) (value.drop n)
    by_cases hm : (Part.options o).matchRest (value.drop n) = none
    · exact .noMatch (Part.result_suggestionsAt_of_none hn hm)
        (Part.result_suggestionsAt_of_none hn (heq ▸ hm))
    · exact .perm (Part.result_suggestionsAt_of_some hn hm)
        (Part.result_suggestionsAt_of_some hn (heq ▸ hm)) ((h.filter _).map _)

theorem Options.suggestionsAt_nil (o : Options) :
    ((Part.options o).suggestionsAt [] (0 : Nat)).result = .ok (o.texts.map .ofText) := by
  have hn : 0 ≤ ([] : Text).length := Nat.le_refl 0
  have hagree : ∀ t : Text, Text.Agree t [] := fun t => .inr List.nil_prefix
  have hm : (Part.options o).matchRest (([] : Text).drop 0) ≠ none := by
    intro hm
    obtain ⟨l, hl⟩ := List.exists_mem_of_ne_nil o.literals o.ne_nil
    exact (o.matchRest_eq_none_iff _).1 hm l.text (List.mem_map_of_mem hl) (hagree _)
  rw [Part.result_suggestionsAt_of_some hn hm]
  show Except.ok _ = _
  rw [List.filter_eq_self.2 fun t _ => by simpa using hagree t]

theorem Options.suggestionsAt_same_iff {o o' : Options} :
    (∀ (value : Text) (index : Int) (suggestions : List Suggestion),
      ((Part.options o).suggestionsAt value index).result = .ok suggestions ↔
        ((Part.options o').suggestionsAt value index).result = .ok suggestions) ↔ o.texts = o'.texts := by
  constructor
  · intro h
    have := (h [] (0 : Nat) _).1 o.suggestionsAt_nil
    rw [o'.suggestionsAt_nil] at this
    exact ((List.map_inj_right fun _ _ e => Suggestion.ofText_injective e).1 (Except.ok.inj this)).symm
  · intro h value index suggestions
    have hp : o = o' := by
      cases o
      cases o'
      cases Options.eq_iff_texts.2 h
      rfl
    rw [hp]

/-! ## Two choices -/

/-- **The order of options.** Two choices find the same just if they have the same options. If one's options are
the other's in another order, so are the suggestions. And the choices are the same just if their options of
each length are given in the same order, which is to say that they suggest the same lists. -/
theorem Part.order_of_options {xs ys : List Text} (hx : xs ≠ []) (hy : ys ≠ []) (hx' : [] ∉ xs) (hy' : [] ∉ ys) :
    ∃ p q, makeOptions (.array (xs.map .string)) = .ok p ∧ makeOptions (.array (ys.map .string)) = .ok q ∧
      ((∀ (value : Text) (n : Nat), n ≤ value.length → ∀ found, p.Finds value n found ↔ q.Finds value n found) ↔
        ∀ t, t ∈ xs ↔ t ∈ ys) ∧
      (ys.Perm xs → ∀ value index, SuggestAlike p q value index) ∧
      (p.same q = true ↔ ∀ n, xs.filter (·.length = n) = ys.filter (·.length = n)) ∧
      (p.same q = true ↔ ∀ (value : Text) (index : Int) (suggestions : List Suggestion),
        (p.suggestionsAt value index).result = .ok suggestions ↔
          (q.suggestionsAt value index).result = .ok suggestions) := by
  obtain ⟨ls, rfl⟩ := exists_literals hx'
  obtain ⟨ms, rfl⟩ := exists_literals hy'
  have hl : ls ≠ [] := by simpa using hx
  have hm : ms ≠ [] := by simpa using hy
  have hsame : (Part.options (.ofList ls hl)).same (.options (.ofList ms hm)) = true ↔
      (Options.ofList ls hl).texts = (Options.ofList ms hm).texts := by
    rw [← Options.eq_iff_texts]
    simp [Part.same]
  refine ⟨.options (.ofList ls hl), .options (.ofList ms hm), ?_, ?_, ?_, fun hperm => ?_, ?_, ?_⟩
  · rw [List.map_map]
    exact makeOptions_literals ls hl
  · rw [List.map_map]
    exact makeOptions_literals ms hm
  · rw [Part.finds_same_iff, Options.matchRest_eq_iff]
    simp only [Options.mem_texts_ofList]
  · apply Options.suggestAlike_of_perm
    rw [Options.texts_ofList, Options.texts_ofList]
    exact ((perm_longestFirst _).trans hperm.symm).trans (perm_longestFirst _).symm
  · rw [hsame, Options.texts_ofList, Options.texts_ofList, longestFirst_eq_iff]
  · rw [hsame, Options.suggestionsAt_same_iff]

end

attribute [local instance] Host.usual

/-- Options of two lengths may be given either way round. -/
theorem Part.order_of_options_abcOrA :
    ∃ p q, makeOptions (.array [.string "a", .string "abc"]) = .ok p ∧
      makeOptions (.array [.string "abc", .string "a"]) = .ok q ∧ p.same q = true := by
  have hx : [("a" : Text), "abc"] ≠ [] := by simp
  have hy : [("abc" : Text), "a"] ≠ [] := by simp
  have hx' : [] ∉ [("a" : Text), "abc"] := by decide
  have hy' : [] ∉ [("abc" : Text), "a"] := by decide
  obtain ⟨p, q, hp, hq, _, _, hsame, _⟩ := Part.order_of_options hx hy hx' hy'
  refine ⟨p, q, hp, hq, hsame.2 fun n => ?_⟩
  have ha : ("a" : Text).length = 1 := rfl
  have habc : ("abc" : Text).length = 3 := rfl
  by_cases h : n = 1
  · simp [ha, habc, h]
  · simp [List.filter_cons, ha, Ne.symm h]

end Typeahead
