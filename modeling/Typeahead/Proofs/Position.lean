import Typeahead.Proofs.Suggestion

/-!
# Matches and suggestions at any position

A part is asked two things at a position, what it finds and what it suggests. Both refuse a position
outside the text and only that; and inside, there are suggestions just where something is found.
-/

namespace Typeahead

/-! ## Outside the text -/

theorem outside_or_natCast (value : Text) (index : Int) :
    (index < 0 ∨ value.length < index) ∨ ∃ n : Nat, index = n ∧ n ≤ value.length := by
  by_cases h : index < 0 ∨ value.length < index
  · exact .inl h
  · exact .inr ⟨index.toNat, by omega, by omega⟩

section
variable [Host]

theorem restAt_of_outside {value : Text} {index : Int} (h : index < 0 ∨ value.length < index) :
    restAt value index = .error (.ofIndex index value) := by
  have hno : ¬(0 ≤ index ∧ index ≤ value.length) := by omega
  rw [restAt, if_neg hno]

namespace Reported

variable {ε α β : Type}

theorem result_mapM_of_error {f : α → Reported ε β} {e : ε} (h : ∀ a, (f a).result = .error e) :
    ∀ {xs : List α}, xs ≠ [] → (xs.mapM f).result = .error e
  | [], hne => absurd rfl hne
  | a :: xs, _ => by rw [List.mapM_cons, result_bind, h a, error_bind]

end Reported

section
variable {value : Text} {index : Int} (h : index < 0 ∨ value.length < index)
include h

theorem Leaf.matchAt_of_outside (l : Leaf) : (l.matchAt value index).result = .error (.ofIndex index value) := by
  unfold Leaf.matchAt
  simp [restAt_of_outside h]

theorem Leaf.suggestionsAt_of_outside (l : Leaf) :
    (l.suggestionsAt value index).result = .error (.ofIndex index value) := by
  unfold Leaf.suggestionsAt
  cases l with
  | literal l => simp [Leaf.matchAt_of_outside h]
  | number s => simp [restAt_of_outside h]
  | fixedLength length pos s => simp [Leaf.matchAt_of_outside h]

theorem Leaf.suggestionsIfMatched_of_outside (l : Leaf) :
    (l.suggestionsIfMatched value index).result = .error (.ofIndex index value) := by
  unfold Leaf.suggestionsIfMatched
  simp [Leaf.matchAt_of_outside h]

theorem Part.matchAt_of_outside (p : Part) : (p.matchAt value index).result = .error (.ofIndex index value) := by
  cases p with
  | leaf l => exact l.matchAt_of_outside h
  | options o =>
    have hne : (Part.options o).leaves ≠ [] := by simpa [Part.leaves] using o.ne_nil
    unfold Part.matchAt
    rw [Reported.result_bind, Reported.result_mapM_of_error (fun l => Leaf.matchAt_of_outside h l) hne,
      error_bind]

theorem Part.suggestionsAt_of_outside (p : Part) :
    (p.suggestionsAt value index).result = .error (.ofIndex index value) := by
  cases p with
  | leaf l => exact l.suggestionsAt_of_outside h
  | options o =>
    have hne : (Part.options o).leaves ≠ [] := by simpa [Part.leaves] using o.ne_nil
    unfold Part.suggestionsAt
    rw [Reported.result_bind,
      Reported.result_mapM_of_error (fun l => Leaf.suggestionsIfMatched_of_outside h l) hne, error_bind]

end

/-! ## Inside the text -/

def Leaf.IsNumeric : Leaf → Prop
  | .literal _ => False
  | _ => True

def Part.IsNumeric : Part → Prop
  | .leaf l => l.IsNumeric
  | .options _ => False

/-- The label of the length can be rendered, and so many digits can be held. -/
def Leaf.CanSuggest : Leaf → Prop
  | .fixedLength length _ s => (∃ label, s.renderLength length = .ok label) ∧ Fillable length
  | _ => True

def Part.CanSuggest : Part → Prop
  | .leaf l => l.CanSuggest
  | .options _ => True

theorem Settings.renderLength_default {n : Int} (h : Text.isWritable n = true) :
    (default : Settings).renderLength n = .ok ("\x7b" ++ Text.ofInt n ++ "-digit number\x7d") := by
  have hfield : Template.renderField (Template.renderTo 1 n) n "length" none [] = .ok [.once (Text.ofInt n)] := by
    show (fun t => [Block.once t]) <$> Template.decimal n = _
    rw [Template.decimal, if_pos h]
    rfl
  show Blocks.toText <$> Template.renderPieces (Template.renderTo 1 n) n
    (.char '{' :: .field "length" none [] :: ("-digit number\x7d" : Text).map .char) = _
  rw [Template.renderPieces, Template.renderPieces, hfield]
  rfl

theorem Leaf.canSuggest_default {length : Nat} (pos : 0 < length) (h : Fillable length) :
    (Leaf.fixedLength length pos default).CanSuggest :=
  ⟨⟨_, Settings.renderLength_default (Text.isWritable_of_lt h.1)⟩, h⟩

theorem Leaf.suggestRest_eq_singleton {l : Leaf} (hc : l.CanSuggest) (rest : Text) :
    ∃ s, l.suggestRest rest = .ok [s] ∧ (s.value = none ↔ l.IsNumeric ∧ rest = []) := by
  cases l with
  | literal l => exact ⟨_, rfl, by simp [Suggestion.ofText, Leaf.IsNumeric]⟩
  | number s =>
    by_cases hnil : rest = []
    · exact ⟨_, if_pos hnil, by simp [Suggestion.template, Leaf.IsNumeric, hnil]⟩
    · exact ⟨_, if_neg hnil, by simp [Suggestion.ofText, hnil]⟩
  | fixedLength length pos s =>
    obtain ⟨⟨label, hl⟩, hsize⟩ := hc
    by_cases hnil : rest = []
    · refine ⟨.template (.string label), ?_, by simp [Suggestion.template, Leaf.IsNumeric, hnil]⟩
      exact Leaf.suggestRest_fixedLength_eq_ok_iff.2 (.inl ⟨hnil, label, hl, rfl⟩)
    · refine ⟨.ofText (Text.padRight length s.pad (rest.takeWhile CodePoint.isDigit)), ?_,
        by simp [Suggestion.ofText, hnil]⟩
      exact Leaf.suggestRest_fixedLength_eq_ok_iff.2 (.inr ⟨hnil, fun _ => hsize, rfl⟩)

theorem Options.suggestRest_ne_nil {o : Options} {rest : Text} (h : (Part.options o).matchRest rest ≠ none) :
    (o.texts.filter fun t => Text.Agree t rest).map Suggestion.ofText ≠ [] := by
  intro hnil
  refine h ((o.matchRest_eq_none_iff rest).2 fun t ht hagree => ?_)
  have hmem : t ∈ o.texts.filter fun t => Text.Agree t rest := List.mem_filter.2 ⟨ht, by simpa using hagree⟩
  rw [List.map_eq_nil_iff.1 hnil] at hmem
  cases hmem

theorem Part.exists_suggestRest {p : Part} (hc : p.CanSuggest) {rest : Text} (h : p.matchRest rest ≠ none) :
    ∃ suggestions, p.suggestRest rest = .ok suggestions ∧ suggestions ≠ [] ∧
      ((∃ l, p = .leaf l) → suggestions.length = 1) ∧
      ((∃ s ∈ suggestions, s.value = none) ↔ p.IsNumeric ∧ rest = []) := by
  cases p with
  | leaf l =>
    obtain ⟨s, hs, hvalue⟩ := Leaf.suggestRest_eq_singleton hc rest
    exact ⟨[s], hs, by simp, fun _ => rfl, by simpa [Part.IsNumeric] using hvalue⟩
  | options o =>
    refine ⟨_, rfl, Options.suggestRest_ne_nil h, fun ⟨l, hl⟩ => (by cases hl), ?_⟩
    refine iff_of_false (fun ⟨s, hs, hvalue⟩ => ?_) fun h => h.1
    obtain ⟨t, _, rfl⟩ := List.mem_map.1 hs
    cases hvalue

theorem Part.error_of_suggestRest {p : Part} {rest : Text} {e : QueryFault} (h : p.suggestRest rest = .error e) :
    (∃ fault, e = .label fault) ∨ e = .lengthTooLarge ∨ e = .valueTooLong := by
  cases p with
  | options o => cases h
  | leaf l =>
    cases l with
    | literal l => cases h
    | number s =>
      simp only [Part.suggestRest, Leaf.suggestRest] at h
      split at h <;> cases h
    | fixedLength length pos s =>
      simp only [Part.suggestRest, Leaf.suggestRest] at h
      split at h
      · cases hl : s.renderLength length with
        | ok label => rw [hl] at h; cases h
        | error fault => rw [hl] at h; cases h; exact .inl ⟨fault, rfl⟩
      · split at h
        · cases h; exact .inr (.inl rfl)
        · split at h
          · cases h; exact .inr (.inr rfl)
          · cases h

theorem Part.result_suggestionsAt_of_none {p : Part} {value : Text} {n : Nat} (h : n ≤ value.length)
    (hm : p.matchRest (value.drop n) = none) :
    (p.suggestionsAt value n).result = .error (.ofPart p value n) := by
  rw [p.result_suggestionsAt h, hm]

theorem Part.result_suggestionsAt_of_some {p : Part} {value : Text} {n : Nat} (h : n ≤ value.length)
    (hm : p.matchRest (value.drop n) ≠ none) :
    (p.suggestionsAt value n).result = p.suggestRest (value.drop n) := by
  rw [p.result_suggestionsAt h]
  cases hfound : p.matchRest (value.drop n) with
  | none => exact absurd hfound hm
  | some m => rfl

/-! ## Both answers -/

/-- A fault with an error of the class ends it. -/
def Reported.Raises {α : Type} (x : Reported QueryFault α) (c : ErrorClass) : Prop :=
  ∃ fault, x.result = .error fault ∧ fault.errorClass = c

theorem QueryFault.errorClass_ofIndex (index : Int) (value : Text) :
    (QueryFault.ofIndex index value).errorClass =
      if Text.isWritable index then .library .invalidIndex else .value := by
  unfold QueryFault.ofIndex
  split <;> rfl

theorem Part.foreign_of_suggestRest {p : Part} {rest : Text} {fault : QueryFault}
    (h : p.suggestRest rest = .error fault) : fault.errorClass.isLibrary = false := by
  rcases Part.error_of_suggestRest h with ⟨label, rfl⟩ | rfl | rfl
  · exact label.foreign
  · rfl
  · rfl

theorem Part.matchAt_raises_invalidIndex_iff (p : Part) (value : Text) (index : Int) :
    (p.matchAt value index).Raises (.library .invalidIndex) ↔
      (index < 0 ∨ value.length < index) ∧ Text.isWritable index = true := by
  rcases outside_or_natCast value index with h | ⟨n, rfl, hn⟩
  · simp [Reported.Raises, p.matchAt_of_outside h, QueryFault.errorClass_ofIndex, h]
  · refine iff_of_false (fun ⟨fault, hfault, _⟩ => ?_) (by omega)
    rw [p.matchAt_natCast hn] at hfault
    cases hfault

theorem QueryFault.errorClass_ofPart (p : Part) (value : Text) (index : Int) :
    (QueryFault.ofPart p value index).errorClass =
      match p.display with
      | .ok _ => .library .noMatch
      | .error fault => fault.errorClass := by
  unfold QueryFault.ofPart
  cases p.display <;> rfl

theorem Part.suggestionsAt_raises_invalidIndex_iff (p : Part) (value : Text) (index : Int) :
    (p.suggestionsAt value index).Raises (.library .invalidIndex) ↔
      (index < 0 ∨ value.length < index) ∧ Text.isWritable index = true := by
  rcases outside_or_natCast value index with h | ⟨n, rfl, hn⟩
  · simp [Reported.Raises, p.suggestionsAt_of_outside h, QueryFault.errorClass_ofIndex, h]
  · refine iff_of_false (fun ⟨fault, hfault, hclass⟩ => ?_) (by omega)
    by_cases hm : p.matchRest (value.drop n) = none
    · rw [Part.result_suggestionsAt_of_none hn hm] at hfault
      cases hfault
      rw [QueryFault.errorClass_ofPart] at hclass
      split at hclass
      · cases hclass
      next fault _ => exact ErrorClass.ne_library fault.foreign _ hclass
    · rw [Part.result_suggestionsAt_of_some hn hm] at hfault
      exact ErrorClass.ne_library (Part.foreign_of_suggestRest hfault) _ hclass

theorem Part.suggestionsAt_raises_noMatch_iff (p : Part) {value : Text} {n : Nat} (hn : n ≤ value.length) :
    (p.suggestionsAt value n).Raises (.library .noMatch) ↔
      p.matchRest (value.drop n) = none ∧ ∃ t, p.display = .ok t := by
  by_cases hm : p.matchRest (value.drop n) = none
  · simp only [Reported.Raises, Part.result_suggestionsAt_of_none hn hm, Except.error.injEq, exists_eq_left',
      QueryFault.errorClass_ofPart, hm, true_and]
    cases hd : p.display with
    | ok t => simp
    | error fault => simp [ErrorClass.ne_library fault.foreign]
  · refine iff_of_false (fun ⟨fault, hfault, hclass⟩ => ?_) fun h => hm h.1
    rw [Part.result_suggestionsAt_of_some hn hm] at hfault
    exact ErrorClass.ne_library (Part.foreign_of_suggestRest hfault) _ hclass

end

attribute [local instance] Host.usual

end Typeahead
