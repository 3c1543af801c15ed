import Typeahead.Proofs.Adjacent
import Typeahead.Proofs.Typing

/-!
# Where a text is objected to

An objection has a position: what is before it is accepted as a beginning, and with one more character it is not.
There is one exception. Where nothing is found, the position is that of the part, even if the part begins there
and it is a later character that breaks it.
-/

namespace Typeahead

theorem WordMatch.consumed_cases {W : Text → Prop} {rest : Text} {m : Match} {k : Nat}
    (h : WordMatch W rest (some m)) (hk : m.consumed = k) :
    (W (rest.take k) ∧ ∀ v, W v → v <+: rest → v.length ≤ k) ∨
      k = rest.length ∧ (∃ w, W w ∧ rest <+: w) ∧ ∀ v, W v → ¬v <+: rest := by
  generalize hm : some m = found at h
  cases h with
  | @full w hw hp hmax =>
    cases hm
    have hwk : w.length = k := Int.ofNat.inj hk
    rw [← hwk, ← List.prefix_iff_eq_take.1 hp]
    exact .inl ⟨hw, hmax⟩
  | @begun w hno hw hp =>
    cases hm
    exact .inr ⟨(Int.ofNat.inj hk).symm, ⟨w, hw, hp⟩, hno⟩
  | apart => cases hm

theorem exists_run_of_matched {length : Nat} {rest : Text} {m : Match} {k : Nat}
    (h : fixedLengthMatchRest length rest = some m) (hk : m.consumed = k) : ∃ run tail,
      rest = run ++ tail ∧ run.all CodePoint.isDigit = true ∧ EndsRun tail ∧ run.length ≤ length ∧ k = run.length := by
  obtain ⟨run, tail, rfl, hrun, htail⟩ := exists_run rest
  obtain ⟨_, hle⟩ := (matched_append_iff hrun htail).1 ⟨m, h⟩
  have hrunk := consumed_fixedLength hrun htail h
  exact ⟨run, tail, rfl, hrun, htail, hle, by omega⟩

theorem Verdict.ofMatch_eq_invalid {allowBegun : Bool} {index length position : Int} {found : Option Match}
    {objection : Objection} (h : ofMatch allowBegun index length found = .invalid position objection) :
    (found = none ∧ position = index ∧ objection = .noMatch) ∨
      ∃ m, found = some m ∧ position = index + m.consumed ∧ objection ≠ .noMatch := by
  cases found with
  | none =>
    cases h
    exact .inl ⟨rfl, rfl, rfl⟩
  | some m =>
    simp only [ofMatch] at h
    split at h
    · cases h
      exact .inr ⟨m, rfl, rfl, Objection.noConfusion⟩
    · split at h
      · cases h
        exact .inr ⟨m, rfl, rfl, Objection.noConfusion⟩
      · cases h

section
variable [Host]

/-! ## Beginnings within what is matched -/

/-- What is typed of the part is accepted as its beginning. -/
def Part.BeginsWell (p : Part) (rest : Text) : Prop := p.Begins rest ∧ ¬p.Overruns rest

theorem Part.not_overruns_of_word {p : Part} {w : Text} (h : p.Word w) : ¬p.Overruns w := fun hover => hover.1 h

theorem Part.beginsWell_of_word {p : Part} {w : Text} (h : p.Word w) : p.BeginsWell w :=
  ⟨⟨w, h, List.prefix_refl _⟩, Part.not_overruns_of_word h⟩

theorem Leaf.beginsWell_iff {l : Leaf} {rest : Text} : (Part.leaf l).BeginsWell rest ↔ l.Begins rest :=
  and_iff_left_of_imp Leaf.not_overruns_of_begins

theorem Part.beginsWell_nil (p : Part) : p.BeginsWell [] :=
  (p.reaches_iff []).1 ⟨_, p.matchRest_nil, rfl⟩

theorem Part.beginsWell_take_one_iff {p : Part} {rest : Text} :
    p.BeginsWell (rest.take 1) ↔ p.Begins (rest.take 1) := by
  refine and_iff_left_of_imp fun _ hover => ?_
  obtain ⟨hno, v, hv, hp⟩ := hover
  have hpos : 0 < v.length := List.length_pos_iff.2 (Part.word_ne_nil hv)
  have hle : (rest.take 1).length ≤ 1 := List.length_take_le _ _
  exact hno (hp.eq_of_length_le (by omega) ▸ hv)

section
variable {p : Part} {rest : Text} {m : Match} {k : Nat} (h : p.matchRest rest = some m) (hk : m.consumed = k)
include h hk

theorem Part.beginsWell_take : p.BeginsWell (rest.take k) := by
  rcases p.eq_fixedLength_or with ⟨length, pos, s, rfl⟩ | hp
  · obtain ⟨run, tail, rfl, hrun, _, hle, rfl⟩ := exists_run_of_matched h hk
    rw [List.take_left]
    exact Leaf.beginsWell_iff.2 (Leaf.begins_fixedLength_iff.2 ⟨hrun, hle⟩)
  · have hw := Part.wordMatch hp rest
    rw [h] at hw
    rcases hw.consumed_cases hk with ⟨hword, _⟩ | ⟨rfl, hbegins, hno⟩
    · exact Part.beginsWell_of_word hword
    · rw [List.take_length]
      exact ⟨hbegins, fun ⟨_, v, hv, hvp⟩ => hno v hv hvp⟩

/-- What is matched is as long as it can be: one more character is too much. -/
theorem Part.not_beginsWell_take_succ (hlt : k < rest.length) : ¬p.BeginsWell (rest.take (k + 1)) := by
  rcases p.eq_fixedLength_or with ⟨length, pos, s, rfl⟩ | hp
  · obtain ⟨run, tail, rfl, hrun, htail, _, rfl⟩ := exists_run_of_matched h hk
    cases tail with
    | nil => simp at hlt
    | cons c t =>
      have hc := htail c t rfl
      have htake : (run ++ c :: t).take (run.length + 1) = run ++ [c] := by
        rw [List.take_length_add_append]
        rfl
      rw [htake, Part.fixedLength, Leaf.beginsWell_iff, Leaf.begins_fixedLength_iff]
      simp [hc]
  · have hw := Part.wordMatch hp rest
    rw [h] at hw
    rcases hw.consumed_cases hk with ⟨hword, hmax⟩ | ⟨rfl, _⟩
    · have hlength : (rest.take (k + 1)).length = k + 1 := List.length_take_of_le hlt
      -- the word is the longest that the rest starts with, so what goes on from it is none
      intro hwell
      refine hwell.2 ⟨fun hlong => ?_, _, hword, List.take_prefix_take_left (Nat.le_succ k)⟩
      have := hmax _ hlong (List.take_prefix _ _)
      omega
    · exact absurd hlt (Nat.lt_irrefl _)

end

/-! ## Positions of objections -/

/-- Nothing is found at the position, and still the character there begins a word. -/
def Part.BreaksInside (p : Part) (text : Text) (n : Nat) : Prop :=
  p.Finds text n none ∧ p.Begins ((text.drop n).take 1)

theorem Part.not_breaksInside_number (s : Settings) {text : Text} {n : Nat} (hn : n ≤ text.length) :
    ¬(Part.number s).BreaksInside text n := by
  rintro ⟨hfinds, hbegins⟩
  have hnone : numberMatchRest (text.drop n) = none := (Part.finds_iff _ hn).1 hfinds
  obtain ⟨c, t, hrest, hc⟩ := digitRun?_eq_none_iff.1 (Option.map_eq_none_iff.1 hnone)
  rw [hrest] at hbegins
  have hstarts : (Leaf.number s).Begins [c] := hbegins
  have hdigit : [c].all CodePoint.isDigit = true := Leaf.begins_number_iff.1 hstarts
  simp [hc] at hdigit

theorem Part.accepts_take_iff {p : Part} {text : Text} {n k : Nat} (h : n + k ≤ text.length) :
    p.Accepts n true (text.take (n + k)) ↔ p.BeginsWell ((text.drop n).take k) := by
  rw [p.accepts_lenient_iff, List.drop_take, Nat.add_sub_cancel_left, List.length_take_of_le h]
  exact and_iff_right (Nat.le_add_right n k)

/-- **Positions of objections.** What is before the position of an objection is accepted as a beginning. With one
more character it is not, just if the part does not break inside; it does so only where nothing is found, and
never if it is a number. -/
theorem Part.position_of_objection {p : Part} {text : Text} {n : Nat} (hn : n ≤ text.length) {allowBegun : Bool}
    {position : Int} {objection : Objection}
    (h : (p.validate n allowBegun text).result = .ok (.invalid position objection)) :
    ∃ k : Nat, position = k ∧ n ≤ k ∧ k ≤ text.length ∧ p.Accepts n true (text.take k) ∧
      ((k < text.length → ¬p.Accepts n true (text.take (k + 1))) ↔ ¬p.BreaksInside text n) ∧
      (p.BreaksInside text n → objection = .noMatch ∧ ∀ s, p ≠ .number s) := by
  rw [p.validate_of_le allowBegun hn] at h
  have hlen : (text.drop n).length = text.length - n := List.length_drop
  have hnumber : p.BreaksInside text n → ∀ s, p ≠ .number s := by
    rintro hbreaks s rfl
    exact Part.not_breaksInside_number s hn hbreaks
  rcases Verdict.ofMatch_eq_invalid (Except.ok.inj h) with ⟨hm, rfl, rfl⟩ | ⟨m, hm, rfl, hobjection⟩
  · have hne : text.drop n ≠ [] := by
      intro hnil
      rw [hnil, p.matchRest_nil] at hm
      cases hm
    have hlt : n < text.length := by
      have := List.length_pos_iff.2 hne
      omega
    have hbreaks : p.BreaksInside text n ↔ p.Accepts n true (text.take (n + 1)) := by
      rw [Part.accepts_take_iff hlt, Part.beginsWell_take_one_iff]
      exact and_iff_right ((p.finds_iff hn).2 hm)
    refine ⟨n, rfl, Nat.le_refl n, hn, ?_, ?_, fun hb => ⟨rfl, hnumber hb⟩⟩
    · exact (Part.accepts_take_iff (k := 0) hn).2 p.beginsWell_nil
    · rw [hbreaks]
      exact ⟨fun h => h hlt, fun h _ => h⟩
  · obtain ⟨k, hk, hmax⟩ := Part.exists_consumed hm
    have hno : ¬p.BreaksInside text n := by
      rintro ⟨hfinds, _⟩
      rw [(p.finds_iff hn).1 hfinds] at hm
      cases hm
    refine ⟨n + k, by omega, by omega, by omega, ?_, ?_, fun hb => absurd hb hno⟩
    · exact (Part.accepts_take_iff (by omega)).2 (Part.beginsWell_take hm hk)
    · refine iff_of_true (fun hlt => ?_) hno
      rw [Nat.add_assoc, Part.accepts_take_iff (by omega)]
      exact Part.not_beginsWell_take_succ hm hk (by omega)

end

attribute [local instance] Host.usual

/-- Of `x12a` all but the last character is the beginning of a number of three digits. -/
theorem Part.position_of_objection_x12a :
    1 ≤ ("x12a" : Text).length ∧
      ((Part.fixedLength 3 (by decide) default).validate (1 : Nat) true "x12a").result =
        .ok (.invalid 3 .unexpectedInput) ∧
      (Part.fixedLength 3 (by decide) default).Accepts (1 : Nat) true "x12" ∧
      ¬(Part.fixedLength 3 (by decide) default).Accepts (1 : Nat) true "x12a" := by
  have hn : 1 ≤ ("x12a" : Text).length := by decide
  have h : ((Part.fixedLength 3 (by decide) default).validate (1 : Nat) true "x12a").result =
      .ok (.invalid 3 .unexpectedInput) := rfl
  obtain ⟨k, hk, _, _, hbefore, hiff, hwhere⟩ := Part.position_of_objection hn h
  obtain rfl : k = 3 := (Int.ofNat.inj hk).symm
  have hno : ¬(Part.fixedLength 3 (by decide) default).BreaksInside "x12a" 1 := fun hb => by
    cases (hwhere hb).1
  exact ⟨hn, h, hbefore, hiff.2 hno (by decide)⟩

def Literal.abc : Literal := ⟨"abc", List.cons_ne_nil _ _⟩

/-- `abd` is objected to at its start, though `a` is accepted there as the beginning of `abc`. -/
theorem Part.literal_abd :
    ((Part.literal .abc).validate (0 : Nat) false "abd").result = .ok (.invalid 0 .noMatch) ∧
      (Part.literal .abc).Accepts (0 : Nat) true (("abd" : Text).take 1) :=
  ⟨rfl, rfl⟩

end Typeahead
