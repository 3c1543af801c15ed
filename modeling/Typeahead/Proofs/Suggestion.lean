import Typeahead.Proofs.FixedLength
import Typeahead.Part.Suggestion

/-!
# Suggestions as a function of the rest

A leaf that matches suggests what the rest of the text makes it suggest, and no more: the position and
the text before it only appear where it does not match.
-/

namespace Typeahead

open Number

/-! ## Literals that go with a rest -/

/-- One of two texts begins the other. -/
def Text.Agree (t u : Text) : Prop := t <+: u ∨ u <+: t

instance (t u : Text) : Decidable (Text.Agree t u) := inferInstanceAs (Decidable (_ ∨ _))

theorem Literal.matchRest_eq_none_iff (l : Literal) (rest : Text) :
    l.matchRest rest = none ↔ ¬Text.Agree l.text rest := by
  rw [(l.wordMatch rest).eq_none_iff]
  constructor
  · intro h hagree
    rcases hagree with hp | hp
    · exact (h _ rfl).1 hp
    · exact (h _ rfl).2 hp
  · intro h w hw
    subst hw
    exact ⟨fun hp => h (.inl hp), fun hp => h (.inr hp)⟩

theorem Literal.agree_of_matched {l : Literal} {rest : Text} {m : Match} (h : l.matchRest rest = some m) :
    Text.Agree l.text rest := by
  refine Decidable.byContradiction fun hno => ?_
  rw [(l.matchRest_eq_none_iff rest).2 hno] at h
  cases h

theorem flatten_suggested (rest : Text) : ∀ ls : List Literal,
    (ls.map fun l => if Text.Agree l.text rest then [Suggestion.ofText l.text] else []).flatten =
      ((ls.map Literal.text).filter fun t => Text.Agree t rest).map .ofText
  | [] => rfl
  | l :: ls => by
    rw [List.map_cons, List.flatten_cons, flatten_suggested rest ls, List.map_cons, List.filter_cons]
    by_cases h : Text.Agree l.text rest
    · simp [h]
    · simp [h]

/-! ## Leaves -/

section
variable [Host]

/-- A text can be filled up to so many characters. -/
def Fillable (length : Nat) : Prop := length < wordLimit ∧ length < Host.textSize

instance (length : Nat) : Decidable (Fillable length) := inferInstanceAs (Decidable (_ ∧ _))

/-- What a leaf suggests for a rest that it matches. -/
def Leaf.suggestRest : Leaf → Text → Except QueryFault (List Suggestion)
  | .literal l, _ => .ok [.ofText l.text]
  | .number s, rest =>
    if rest = [] then .ok [.template s.numberLabel]
    else .ok [.ofText (rest.takeWhile CodePoint.isDigit)]
  | .fixedLength length _ s, rest =>
    if rest = [] then
      ((s.renderLength length).map fun label => [.template (.string label)]).mapError .label
    else
      let run := rest.takeWhile CodePoint.isDigit
      if run.length < length ∧ wordLimit ≤ length then .error .lengthTooLarge
      else if run.length < length ∧ Host.textSize ≤ length then .error .valueTooLong
      else .ok [.ofText (Text.padRight length s.pad run)]

theorem Leaf.suggestRest_fixedLength_eq_ok_iff {length : Nat} {pos : 0 < length} {s : Settings}
    {rest : Text} {suggestions : List Suggestion} :
    (Leaf.fixedLength length pos s).suggestRest rest = .ok suggestions ↔
      (rest = [] ∧ ∃ label, s.renderLength length = .ok label ∧ suggestions = [.template (.string label)]) ∨
      (rest ≠ [] ∧ ((rest.takeWhile CodePoint.isDigit).length < length → Fillable length) ∧
        suggestions = [.ofText (Text.padRight length s.pad (rest.takeWhile CodePoint.isDigit))]) := by
  rw [Leaf.suggestRest]
  by_cases hnil : rest = []
  · rw [if_pos hnil]
    cases hr : s.renderLength length with
    | error e =>
      refine ⟨fun h => (by cases h), fun h => ?_⟩
      rcases h with ⟨_, label, hl, _⟩ | ⟨hne, _⟩
      · cases hl
      · exact absurd hnil hne
    | ok label =>
      refine ⟨fun h => ?_, fun h => ?_⟩
      · cases h
        exact .inl ⟨hnil, label, rfl, rfl⟩
      · rcases h with ⟨_, label', hl, rfl⟩ | ⟨hne, _⟩
        · cases hl
          rfl
        · exact absurd hnil hne
  · rw [if_neg hnil]
    simp only
    generalize rest.takeWhile CodePoint.isDigit = run
    by_cases hsize : run.length < length → Fillable length
    · have hword : ¬(run.length < length ∧ wordLimit ≤ length) := fun h => Nat.not_lt.2 h.2 (hsize h.1).1
      have hfit : ¬(run.length < length ∧ Host.textSize ≤ length) := fun h => Nat.not_lt.2 h.2 (hsize h.1).2
      rw [if_neg hword, if_neg hfit, Except.ok.injEq]
      refine ⟨fun h => .inr ⟨hnil, hsize, h.symm⟩, fun h => ?_⟩
      rcases h with ⟨he, _⟩ | ⟨_, _, rfl⟩
      · exact absurd he hnil
      · rfl
    · refine iff_of_false (fun h => ?_) fun h => ?_
      · split at h
        · cases h
        next hword =>
          split at h
          · cases h
          next hfit =>
            refine hsize fun hlt => ⟨?_, ?_⟩
            · exact Nat.not_le.1 fun hle => hword ⟨hlt, hle⟩
            · exact Nat.not_le.1 fun hle => hfit ⟨hlt, hle⟩
      · rcases h with ⟨he, _⟩ | ⟨_, hlt, _⟩
        · exact hnil he
        · exact hsize hlt

theorem Leaf.result_suggestionsAt (l : Leaf) {value : Text} {n : Nat} (h : n ≤ value.length) :
    (l.suggestionsAt value n).result =
      match l.matchRest (value.drop n) with
      | none => .error (.ofPart (.leaf l) value n)
      | some _ => l.suggestRest (value.drop n) := by
  unfold Leaf.suggestionsAt
  cases l with
  | literal l =>
    simp only [Leaf.matchAt_natCast _ h, Reported.result_bind]
    cases (Leaf.literal l).matchRest (value.drop n) <;> rfl
  | number s =>
    simp only [restAt_natCast h, Reported.result_bind, Reported.result_ofExcept, ok_bind,
      Leaf.matchRest, numberMatchRest, Leaf.suggestRest]
    generalize value.drop n = rest
    cases hr : digitRun? rest with
    | none => rfl
    | some run =>
      obtain ⟨hrun, hend⟩ := digitRun?_eq_some_iff.1 hr
      rw [Option.map_some]
      cases run with
      | nil => rw [if_pos (hend rfl)]; rfl
      | cons c t =>
        have : rest ≠ [] := fun hnil => by rw [hnil] at hrun; cases hrun
        rw [if_neg this, ← hrun]
        rfl
  | fixedLength length pos s =>
    simp only [Leaf.matchAt_natCast _ h, restAt_natCast h, Reported.result_bind, ok_bind,
      Leaf.suggestRest]
    generalize value.drop n = rest
    cases hm : (Leaf.fixedLength length pos s).matchRest rest with
    | none => rfl
    | some m =>
      simp only [Reported.result_bind, Reported.result_ofExcept, ok_bind]
      cases hr : digitRun? rest with
      | none => simp [Leaf.matchRest, fixedLengthMatchRest, hr] at hm
      | some run =>
        obtain ⟨hrun, hend⟩ := digitRun?_eq_some_iff.1 hr
        cases run with
        | nil =>
          rw [if_pos (hend rfl)]
          simp only [Reported.result_bind, Reported.result_ofExcept]
          cases s.renderLength length <;> rfl
        | cons c t =>
          have : rest ≠ [] := fun hnil => by rw [hnil] at hrun; cases hrun
          rw [if_neg this, ← hrun]
          dsimp only
          by_cases hword : (c :: t).length < length ∧ wordLimit ≤ length
          · rw [if_pos hword, if_pos hword]; rfl
          · rw [if_neg hword, if_neg hword]
            by_cases hsize : (c :: t).length < length ∧ Host.textSize ≤ length
            · rw [if_pos hsize, if_pos hsize]; rfl
            · rw [if_neg hsize, if_neg hsize]; rfl

/-! ## Choices -/

theorem Options.matchRest_eq_none_iff (o : Options) (rest : Text) :
    (Part.options o).matchRest rest = none ↔ ∀ t ∈ o.texts, ¬Text.Agree t rest := by
  rw [Part.matchRest, (wordMatch_literals rest o.literals o.longest_first).eq_none_iff]
  exact forall_congr' fun t => imp_congr Iff.rfl not_or.symm

theorem Literal.result_suggestionsIfMatched (l : Literal) {value : Text} {n : Nat} (h : n ≤ value.length) :
    ((Leaf.literal l).suggestionsIfMatched value n).result =
      .ok (if Text.Agree l.text (value.drop n) then [.ofText l.text] else []) := by
  unfold Leaf.suggestionsIfMatched
  rw [Reported.result_bind, Leaf.matchAt_natCast _ h, ok_bind]
  cases hm : (Leaf.literal l).matchRest (value.drop n) with
  | none =>
    rw [if_neg ((l.matchRest_eq_none_iff _).1 hm)]
    rfl
  | some m =>
    rw [if_pos (Literal.agree_of_matched hm)]
    show ((Leaf.literal l).suggestionsAt value n).result = _
    rw [Leaf.result_suggestionsAt _ h, hm]
    rfl

/-! ## Parts -/

/-- What a part suggests for a rest that it matches: a choice, the options that go with the rest. -/
def Part.suggestRest : Part → Text → Except QueryFault (List Suggestion)
  | .leaf l, rest => l.suggestRest rest
  | .options o, rest => .ok ((o.texts.filter fun t => Text.Agree t rest).map .ofText)

theorem Options.result_suggestionsIfMatched (o : Options) {value : Text} {n : Nat} (h : n ≤ value.length) :
    ((Part.options o).leaves.mapM fun l : Leaf => l.suggestionsIfMatched value n).result =
      .ok (o.literals.map fun l =>
        if Text.Agree l.text (value.drop n) then [Suggestion.ofText l.text] else []) := by
  simp only [Part.leaves, List.mapM_map]
  exact congrArg Reported.result
    (Reported.mapM_of_ok _ _ o.literals fun l _ => l.result_suggestionsIfMatched h)

theorem Part.result_suggestionsAt (p : Part) {value : Text} {n : Nat} (h : n ≤ value.length) :
    (p.suggestionsAt value n).result =
      match p.matchRest (value.drop n) with
      | none => .error (.ofPart p value n)
      | some _ => p.suggestRest (value.drop n) := by
  cases p with
  | leaf l => exact l.result_suggestionsAt h
  | options o =>
    simp only [Part.suggestionsAt, Reported.result_bind, o.result_suggestionsIfMatched h, ok_bind,
      flatten_suggested]
    cases hm : (Part.options o).matchRest (value.drop n) with
    | none =>
      have hnone := (o.matchRest_eq_none_iff _).1 hm
      have hnil : (o.literals.map Literal.text).filter (fun t => Text.Agree t (value.drop n)) = [] :=
        List.filter_eq_nil_iff.2 fun t ht => by simpa using hnone t ht
      rw [hnil]
      rfl
    | some m =>
      have hne : (o.literals.map Literal.text).filter (fun t => Text.Agree t (value.drop n)) ≠ [] := by
        intro hnil
        have hnone := (o.matchRest_eq_none_iff (value.drop n)).2 fun t ht => by
          simpa using List.filter_eq_nil_iff.1 hnil t ht
        rw [hnone] at hm
        cases hm
      rw [if_neg (by simpa using hne)]
      rfl

end

end Typeahead
