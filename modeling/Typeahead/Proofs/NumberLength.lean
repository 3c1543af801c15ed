import Typeahead.Proofs.FixedLength

/-!
# Numbers of any length and of a fixed one

Both kinds of numbers look at the longest run of digits at a position. Where another character stands there is
no run, and neither finds anything. Elsewhere a number of any length takes the run as it is, and its length
decides what a number of fixed length makes of it: there is one fixed length for which it is full.
-/

namespace Typeahead

/-! ## The longest run -/

/-- Of the beginnings of a text that are made of digits, the longest. -/
structure IsLongestRun (run rest : Text) : Prop where
  begins : run <+: rest
  digits : run.all CodePoint.isDigit = true
  longest : ∀ v, v <+: rest → v.all CodePoint.isDigit = true → v.length ≤ run.length

section
variable {run tail : Text} (hrun : run.all CodePoint.isDigit = true) (htail : EndsRun tail)
include hrun htail

theorem isLongestRun_append : IsLongestRun run (run ++ tail) := by
  refine ⟨List.prefix_append _ _, hrun, fun v hv hall => ?_⟩
  have := prefix_takeWhile_isDigit hv hall
  rw [takeWhile_isDigit_append hrun htail] at this
  exact this.length_le

theorem full_number_append_iff : (∃ k, numberMatchRest (run ++ tail) = some (.full k)) ↔ run ≠ [] := by
  rw [numberMatchRest_append hrun htail]
  by_cases hnil : run = []
  · refine iff_of_false (fun ⟨k, hk⟩ => ?_) fun hne => hne hnil
    by_cases htl : tail = []
    · rw [if_neg fun h => h.2 htl, if_pos hnil] at hk
      cases hk
    · rw [if_pos ⟨hnil, htl⟩] at hk
      cases hk
  · rw [if_neg fun h => hnil h.1, if_neg hnil]
    exact ⟨fun _ => hnil, fun _ => ⟨_, rfl⟩⟩

theorem exists_full_append_iff {length : Nat} (pos : 0 < length) :
    (∃ k, fixedLengthMatchRest length (run ++ tail) = some (.full k)) ↔ length = run.length := by
  simp only [full_append_iff hrun htail]
  constructor
  · intro ⟨_, _, hlen, _⟩
    exact hlen.symm
  · intro hlen
    have hne : run ≠ [] := List.length_pos_iff.1 (hlen ▸ pos)
    exact ⟨run.length, fun h => hne h.1, hlen.symm, rfl⟩

end

/-! ## What both make of it -/

theorem numberMatchRest_eq_none_iff {rest : Text} :
    numberMatchRest rest = none ↔ ∃ c t, rest = c :: t ∧ c.isDigit = false := by
  rw [numberMatchRest, Option.map_eq_none_iff, digitRun?_eq_none_iff]

theorem fixedLengthMatchRest_of_none {rest : Text} (h : numberMatchRest rest = none) (length : Nat) :
    fixedLengthMatchRest length rest = none := by
  rw [numberMatchRest, Option.map_eq_none_iff] at h
  rw [fixedLengthMatchRest, h]
  rfl

theorem fixedLengthMatchRest_of_some {rest : Text} {m : Match} (h : numberMatchRest rest = some m) :
    ∃ run, IsLongestRun run rest ∧ m.consumed = run.length ∧ ∀ length, fixedLengthMatchRest length rest =
      if run.length = length then some (.full length)
      else if run.length < length then some (.begun run.length)
      else none := by
  obtain ⟨run, tail, rfl, hrun, htail⟩ := exists_run rest
  refine ⟨run, isLongestRun_append hrun htail, consumed_number hrun htail h, fun length => ?_⟩
  have hsome : ¬(run = [] ∧ tail ≠ []) := by
    intro hnone
    rw [numberMatchRest_append hrun htail, if_pos hnone] at h
    cases h
  rw [fixedLengthMatchRest_append hrun htail, if_neg hsome]
  by_cases hlen : run.length = length
  · rw [if_pos hlen, if_pos hlen, hlen]
  · rw [if_neg hlen, if_neg hlen]

/-! ## Any position -/

section
variable [Host]

/-- **The two kinds of numbers agree.** A number is found unless another character stands at the position, and
where it is not, none of any fixed length is. It takes the longest run of digits there, and what a fixed length
finds is fixed by the length of that run. So where the number is full, just one fixed length is full, and where
it is not, none is. -/
theorem Part.numbers_agree (s : Settings) {value : Text} {n : Nat} (hn : n ≤ value.length) :
    ((number s).Finds value n none ↔ ∃ c t, value.drop n = c :: t ∧ c.isDigit = false) ∧
      ((number s).Finds value n none → ∀ length pos s', (fixedLength length pos s').Finds value n none) ∧
      (∀ m, (number s).Finds value n (some m) →
        ∃ run, IsLongestRun run (value.drop n) ∧ m.consumed = run.length ∧
          ∀ length pos s', (fixedLength length pos s').Finds value n
            (if run.length = length then some (.full length)
            else if run.length < length then some (.begun run.length)
            else none)) ∧
      ((∃ k, (number s).Finds value n (some (.full k))) →
        ∃ only, 0 < only ∧ ∀ length pos s',
          (∃ k, (fixedLength length pos s').Finds value n (some (.full k))) ↔ length = only) ∧
      ((¬∃ k, (number s).Finds value n (some (.full k))) →
        ∀ length pos s', ¬∃ k, (fixedLength length pos s').Finds value n (some (.full k))) := by
  simp only [Part.finds_iff _ hn]
  show (numberMatchRest _ = none ↔ _) ∧ (numberMatchRest _ = none → ∀ length, 0 < length → ∀ s' : Settings,
    fixedLengthMatchRest length _ = none) ∧ _
  refine ⟨numberMatchRest_eq_none_iff, fun h length _ _ => fixedLengthMatchRest_of_none h length, fun m h => ?_, ?_, ?_⟩
  · obtain ⟨run, hlongest, hconsumed, hlength⟩ := fixedLengthMatchRest_of_some h
    exact ⟨run, hlongest, hconsumed, fun length _ _ => hlength length⟩
  all_goals
    obtain ⟨run, tail, hrest, hrun, htail⟩ := exists_run (value.drop n)
    rw [hrest]
  · intro h
    have hne := (full_number_append_iff hrun htail).1 h
    exact ⟨run.length, List.length_pos_iff.2 hne, fun length pos _ => exists_full_append_iff hrun htail pos⟩
  · intro h length pos _ hfull
    have hlen := (exists_full_append_iff hrun htail pos).1 hfull
    exact h ((full_number_append_iff hrun htail).2 (List.length_pos_iff.1 (hlen ▸ pos)))

end

attribute [local instance] Host.usual

/-- The run is `12`, and of length 1 there is no number. -/
theorem Part.numbers_agree_x12a :
    1 ≤ ("x12a" : Text).length ∧ (number default).Finds "x12a" (1 : Nat) (some (.full 2)) ∧
      (fixedLength 2 (by decide) default).Finds "x12a" (1 : Nat) (some (.full 2)) ∧
      (fixedLength 1 (by decide) default).Finds "x12a" (1 : Nat) none := by
  have hn : 1 ≤ ("x12a" : Text).length := by decide
  have h : (number default).Finds "x12a" (1 : Nat) (some (.full 2)) := (Part.finds_iff _ hn).2 rfl
  obtain ⟨run, _, hlen, hfixed⟩ := (Part.numbers_agree default hn).2.2.1 _ h
  have hrun : run.length = 2 := by
    have : (2 : Int) = run.length := hlen
    omega
  refine ⟨hn, h, ?_, ?_⟩
  · have := hfixed 2 (by decide) default
    rwa [if_pos hrun] at this
  · have := hfixed 1 (by decide) default
    rwa [if_neg (by omega), if_neg (by omega)] at this

end Typeahead
