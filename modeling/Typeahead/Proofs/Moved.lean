import Typeahead.Proofs.Completion
import Typeahead.Proofs.Position

/-!
# Texts that are moved

Another text put in front moves all positions by its length, and nothing else: a part finds, suggests and
offers the same, and the verdict on the longer text is the verdict on the shorter one, moved.
-/

namespace Typeahead

def Verdict.moved (n : Nat) : Verdict → Verdict
  | valid => valid
  | invalid position objection => invalid (n + position) objection

theorem Verdict.ofMatch_moved (n : Nat) (allowBegun : Bool) (index length : Int) (found : Option Match) :
    ofMatch allowBegun (n + index) (n + length) found = (ofMatch allowBegun index length found).moved n := by
  cases found with
  | none => rfl
  | some m =>
    have hstop : (n : Int) + index + m.consumed = n + (index + m.consumed) := Int.add_assoc ..
    simp only [ofMatch, hstop, Int.add_lt_add_iff_left]
    split
    · rfl
    · split <;> rfl

theorem length_add_le_append (front : Text) {t : Text} {n : Nat} (h : n ≤ t.length) :
    front.length + n ≤ (front ++ t).length := by
  rw [List.length_append]
  omega

section
variable [Host]

/-! ## Moved answers -/

/-- The same fault with another text in front of the value. -/
def QueryFault.moved (front : Text) : QueryFault → QueryFault
  | outside index value => outside (front.length + index) (front ++ value)
  | noMatch part value index => noMatch part (front ++ value) (front.length + index)
  | fault => fault

namespace Reported

variable {ε α β : Type}

theorem result_mapM_congr {f g : α → Reported ε β} : ∀ {xs : List α},
    (∀ a ∈ xs, (f a).result = (g a).result) → (xs.mapM f).result = (xs.mapM g).result
  | [], _ => rfl
  | a :: xs, h => by
    obtain ⟨ha, hxs⟩ := List.forall_mem_cons.1 h
    simp only [List.mapM_cons, result_bind, ha, result_mapM_congr hxs]

end Reported

section
variable (front : Text)

/-! ## Matches and suggestions -/

theorem Part.result_matchAt_append (p : Part) {t : Text} {n : Nat} (h : n ≤ t.length) :
    (p.matchAt (front ++ t) (front.length + n : Nat)).result = (p.matchAt t n).result := by
  rw [p.matchAt_natCast h, p.matchAt_natCast (length_add_le_append front h), List.drop_length_add_append]

theorem Part.suggestRest_moved (p : Part) (rest : Text) :
    (p.suggestRest rest).mapError (.moved front) = p.suggestRest rest := by
  cases hs : p.suggestRest rest with
  | ok suggestions => rfl
  | error fault =>
    rcases Part.error_of_suggestRest hs with ⟨_, rfl⟩ | rfl | rfl
    · rfl
    · rfl
    · rfl

theorem QueryFault.moved_ofPart (p : Part) (t : Text) (n : Nat) :
    (QueryFault.ofPart p t n).moved front = .ofPart p (front ++ t) (front.length + n : Nat) := by
  unfold QueryFault.ofPart
  cases p.display <;> rfl

theorem Part.result_suggestionsAt_append (p : Part) {t : Text} {n : Nat} (h : n ≤ t.length) :
    (p.suggestionsAt (front ++ t) (front.length + n : Nat)).result =
      (p.suggestionsAt t n).result.mapError (.moved front) := by
  rw [p.result_suggestionsAt h, p.result_suggestionsAt (length_add_le_append front h), List.drop_length_add_append]
  cases p.matchRest (t.drop n) with
  | none => exact congrArg Except.error (QueryFault.moved_ofPart front p t n).symm
  | some m => exact (p.suggestRest_moved front _).symm

/-! ## Completions -/

theorem Leaf.result_completions_append (l : Leaf) {before : Text} {n : Nat} (h : n ≤ before.length) :
    (l.completions (front ++ before) (front.length + n : Nat)).result = (l.completions before n).result := by
  have h' := length_add_le_append front h
  by_cases hb : l.Begins (before.drop n)
  · rw [l.completions_of_begins h hb, l.completions_of_begins h' (by rwa [List.drop_length_add_append]),
      List.drop_length_add_append]
  · rw [l.completions_of_not_begins h hb, l.completions_of_not_begins h' (by rwa [List.drop_length_add_append])]

theorem Part.result_completions_append (p : Part) (t : Text) (cursor n : Nat) :
    (p.completions (front.length + n : Nat) (front ++ t) (front.length + cursor)).result =
      (p.completions n t cursor).result := by
  have htake : (front ++ t).take (front.length + cursor) = front ++ t.take cursor := List.take_length_add_append _
  by_cases hn : n ≤ (t.take cursor).length
  · have hle : ¬(n : Int) > (t.take cursor).length := by omega
    have hle' : ¬((front.length + n : Nat) : Int) > (front ++ t.take cursor).length := by
      rw [List.length_append]
      omega
    unfold Part.completions
    simp only [htake, hle, hle', if_false, Reported.result_bind]
    rw [Reported.result_mapM_congr fun l _ => l.result_completions_append front hn]
  · rw [Part.completions_of_lt (Nat.lt_of_not_le hn), Part.completions_of_lt]
    rw [htake, List.length_append]
    omega

theorem Part.completions_take_append (p : Part) (index : Int) {t : Text} {cursor : Nat} (h : cursor ≤ t.length)
    (after : Text) : p.completions index (t.take cursor ++ after) cursor = p.completions index t cursor := by
  unfold Part.completions
  rw [List.take_left' (List.length_take_of_le h)]

/-! ## Verdicts -/

theorem Part.result_validate_append (p : Part) (n : Nat) (allowBegun : Bool) (t : Text) :
    (p.validate (front.length + n : Nat) allowBegun (front ++ t)).result =
      (p.validate n allowBegun t).result.map (.moved front.length) := by
  by_cases h : n ≤ t.length
  · rw [p.validate_of_le allowBegun h, p.validate_of_le allowBegun (length_add_le_append front h),
      List.drop_length_add_append, List.length_append]
    simp only [Int.natCast_add, Verdict.ofMatch_moved]
    rfl
  · have hlt : (front ++ t).length < front.length + n := by
      rw [List.length_append]
      omega
    rw [p.validate_of_lt allowBegun (Nat.lt_of_not_le h), p.validate_of_lt allowBegun hlt, List.length_append]
    simp only [Int.natCast_add]
    rfl

end

/-- **Only the rest matters.** With another text in front, a part finds and offers the same, its suggestions or
what keeps it from any are the same, and the verdict is the same at a position moved by the length of that
text. What follows the cursor changes nothing of what is offered. -/
theorem Part.only_rest_matters (p : Part) (front t : Text) (n : Nat) :
    (n ≤ t.length →
      (p.matchAt (front ++ t) (front.length + n : Nat)).result = (p.matchAt t n).result ∧
        (p.suggestionsAt (front ++ t) (front.length + n : Nat)).result =
          (p.suggestionsAt t n).result.mapError (.moved front)) ∧
      (∀ cursor ≤ t.length,
        (p.completions (front.length + n : Nat) (front ++ t) (front.length + cursor)).result =
            (p.completions n t cursor).result ∧
          ∀ after, p.completions n (t.take cursor ++ after) cursor = p.completions n t cursor) ∧
      ∀ allowBegun, (p.validate (front.length + n : Nat) allowBegun (front ++ t)).result =
        (p.validate n allowBegun t).result.map (.moved front.length) := by
  refine ⟨?_, ?_, ?_⟩
  · intro h
    exact ⟨p.result_matchAt_append front h, p.result_suggestionsAt_append front h⟩
  · intro cursor hc
    exact ⟨p.result_completions_append front t cursor n, p.completions_take_append n hc⟩
  · intro allowBegun
    exact p.result_validate_append front n allowBegun t

end

attribute [local instance] Host.usual

theorem Part.only_rest_matters_x12 :
    1 ≤ ("x12" : Text).length ∧
      ((Part.fixedLength 3 (by decide) default).suggestionsAt "ab-x12" (4 : Nat)).result = .ok [.ofText "120"] ∧
      ((Part.fixedLength 3 (by decide) default).validate (4 : Nat) false "ab-x12").result =
        .ok (.invalid 6 .incomplete) := by
  have h : 1 ≤ ("x12" : Text).length := by decide
  obtain ⟨hat, _, hverdict⟩ := Part.only_rest_matters (.fixedLength 3 (by decide) default) "ab-" "x12" 1
  exact ⟨h, (hat h).2, hverdict false⟩

end Typeahead
