import Typeahead.Proofs.Word

/-!
# Numbers of fixed length

A text is a run of digits and what ends the run: nothing, or something that starts with no digit. A
number of fixed length looks at the length of the run alone. So a run that is too short is taken for a
beginning even where another character ends it, and there no more text can make it long enough.
-/

namespace Typeahead

/-! ## Runs and what ends them -/

/-- Nothing, or something that starts with no digit. -/
def EndsRun (tail : Text) : Prop := ∀ c t, tail = c :: t → c.isDigit = false

theorem endsRun_nil : EndsRun [] := fun _ _ h => by cases h

theorem endsRun_cons {c : CodePoint} {t : Text} (h : c.isDigit = false) : EndsRun (c :: t) := by
  intro c' t' e
  cases e
  exact h

theorem exists_run : ∀ rest : Text, ∃ run tail,
    rest = run ++ tail ∧ run.all CodePoint.isDigit = true ∧ EndsRun tail
  | [] => ⟨[], [], rfl, rfl, endsRun_nil⟩
  | c :: t => by
    by_cases hc : c.isDigit = true
    · obtain ⟨run, tail, rfl, hrun, htail⟩ := exists_run t
      exact ⟨c :: run, tail, rfl, by simp [hc, hrun], htail⟩
    · exact ⟨[], c :: t, rfl, rfl, endsRun_cons (by simpa using hc)⟩

section
variable {run tail : Text} (hrun : run.all CodePoint.isDigit = true) (htail : EndsRun tail)
include hrun htail

theorem takeWhile_isDigit_append : (run ++ tail).takeWhile CodePoint.isDigit = run := by
  rw [List.takeWhile_append_of_pos (List.all_eq_true.1 hrun)]
  have : tail.takeWhile CodePoint.isDigit = [] := by
    cases tail with
    | nil => rfl
    | cons c t => simp [htail c t rfl]
  rw [this, List.append_nil]

theorem digitRun?_append : digitRun? (run ++ tail) = if run = [] ∧ tail ≠ [] then none else some run := by
  have ht := takeWhile_isDigit_append hrun htail
  split
  · next h =>
    obtain ⟨rfl, hne⟩ := h
    cases tail with
    | nil => exact absurd rfl hne
    | cons c t => exact digitRun?_eq_none_iff.2 ⟨c, t, rfl, htail c t rfl⟩
  · next h =>
    refine digitRun?_eq_some_iff.2 ⟨ht.symm, fun hnil => ?_⟩
    subst hnil
    by_cases hne : tail = []
    · simp [hne]
    · exact absurd ⟨rfl, hne⟩ h

theorem all_isDigit_append_iff : (run ++ tail).all CodePoint.isDigit = true ↔ tail = [] := by
  rw [List.all_append, hrun, Bool.true_and]
  cases tail with
  | nil => simp
  | cons c t => simp [htail c t rfl]

theorem numberMatchRest_append :
    numberMatchRest (run ++ tail) =
      if run = [] ∧ tail ≠ [] then none else if run = [] then some (.begun 0) else some (.full run.length) := by
  unfold numberMatchRest
  rw [digitRun?_append hrun htail]
  split
  · rfl
  · rw [Option.map_some]
    split <;> rfl

theorem consumed_number {m : Match} (h : numberMatchRest (run ++ tail) = some m) :
    m.consumed = run.length := by
  rw [numberMatchRest_append hrun htail] at h
  split at h
  · cases h
  · split at h
    · next hnil => cases h; rw [hnil]; rfl
    · cases h; rfl

theorem fixedLengthMatchRest_append (length : Nat) :
    fixedLengthMatchRest length (run ++ tail) =
      if run = [] ∧ tail ≠ [] then none
      else if run.length = length then some (.full run.length)
      else if run.length < length then some (.begun run.length)
      else none := by
  unfold fixedLengthMatchRest
  rw [digitRun?_append hrun htail]
  split
  · rfl
  · rfl

theorem consumed_fixedLength {length : Nat} {m : Match}
    (h : fixedLengthMatchRest length (run ++ tail) = some m) : m.consumed = run.length := by
  rw [fixedLengthMatchRest_append hrun htail] at h
  split at h
  · cases h
  · split at h
    · cases h; rfl
    · split at h
      · cases h; rfl
      · cases h

end

theorem all_isDigit_mono {v w : Text} (h : v <+: w) (hw : w.all CodePoint.isDigit = true) :
    v.all CodePoint.isDigit = true :=
  List.all_eq_true.2 fun c hc => List.all_eq_true.1 hw c (h.subset hc)

theorem takeWhile_isDigit_of_all {t : Text} (h : t.all CodePoint.isDigit = true) :
    t.takeWhile CodePoint.isDigit = t := by
  have := takeWhile_isDigit_append h endsRun_nil
  rwa [List.append_nil] at this

/-! ## Filling up -/

theorem all_isDigit_padRight {length : Nat} {fill : CodePoint} (hfill : fill.isDigit = true) {t : Text}
    (ht : t.all CodePoint.isDigit = true) : (Text.padRight length fill t).all CodePoint.isDigit = true := by
  have : (List.replicate (length - t.length) fill).all CodePoint.isDigit = true :=
    List.all_eq_true.2 fun c hc => by rw [List.eq_of_mem_replicate hc]; exact hfill
  rw [Text.padRight, List.all_append, ht, this]
  rfl

theorem Leaf.word_padRight [Host] {length : Nat} (pos : 0 < length) (s : Settings) {fill : CodePoint}
    (hfill : fill.isDigit = true) {rest : Text} (hd : rest.all CodePoint.isDigit = true)
    (hle : rest.length ≤ length) : (Leaf.fixedLength length pos s).Word (Text.padRight length fill rest) := by
  refine ⟨?_, all_isDigit_padRight hfill hd⟩
  rw [Text.length_padRight]
  omega

/-! ## What more text can do -/

/-- The rest can be typed on to a number of the length. -/
def Extendable (length : Nat) (rest : Text) : Prop :=
  ∃ s k, fixedLengthMatchRest length (rest ++ s) = some (.full k)

/-- Some digits, but too few, and then another character. -/
def ShortRunEnded (length : Nat) (rest : Text) : Prop :=
  ∃ run c t, rest = run ++ c :: t ∧ run.all CodePoint.isDigit = true ∧ c.isDigit = false ∧
    run ≠ [] ∧ run.length < length

section
variable {length : Nat} {run : Text} (hrun : run.all CodePoint.isDigit = true)
include hrun

theorem full_append_iff {tail : Text} (htail : EndsRun tail) {k : Int} :
    fixedLengthMatchRest length (run ++ tail) = some (.full k) ↔
      ¬(run = [] ∧ tail ≠ []) ∧ run.length = length ∧ k = run.length := by
  rw [fixedLengthMatchRest_append hrun htail]
  split
  · next h => exact ⟨fun hk => (by cases hk), fun h' => absurd h h'.1⟩
  · next h =>
    split
    · next he => exact ⟨fun hk => (by cases hk; exact ⟨h, he, rfl⟩), fun h' => by rw [h'.2.2]⟩
    · next he =>
      refine ⟨fun hk => ?_, fun h' => absurd h'.2.1 he⟩
      split at hk <;> cases hk

theorem extendable_digits_iff (pos : 0 < length) : Extendable length run ↔ run.length ≤ length := by
  constructor
  · intro ⟨s, k, hk⟩
    obtain ⟨more, tail, rfl, hmore, htail⟩ := exists_run s
    rw [← List.append_assoc] at hk
    have hall : (run ++ more).all CodePoint.isDigit = true := by simp [hrun, hmore]
    have hlen := ((full_append_iff hall htail).1 hk).2.1
    rw [List.length_append] at hlen
    omega
  · intro hle
    have hfill : ('0' : CodePoint).isDigit = true := by decide
    have hall : (Text.padRight length '0' run).all CodePoint.isDigit = true := all_isDigit_padRight hfill hrun
    have hlen : (Text.padRight length '0' run).length = length := by
      rw [Text.length_padRight]
      omega
    have hne : Text.padRight length '0' run ≠ [] := List.length_pos_iff.1 (by omega)
    have := (full_append_iff hall endsRun_nil).2 ⟨fun h => hne h.1, hlen, rfl⟩
    rw [List.append_nil] at this
    exact ⟨_, _, this⟩

theorem extendable_ended_iff (pos : 0 < length) {c : CodePoint} (hc : c.isDigit = false) (t : Text) :
    Extendable length (run ++ c :: t) ↔ run.length = length := by
  have key : ∀ s k, fixedLengthMatchRest length (run ++ c :: t ++ s) = some (.full k) ↔
      run.length = length ∧ k = run.length := by
    intro s k
    rw [List.append_assoc, List.cons_append, full_append_iff hrun (endsRun_cons hc)]
    refine ⟨fun h => h.2, fun h => ⟨fun hnil => ?_, h⟩⟩
    rw [hnil.1] at h
    exact absurd h.1 (Nat.ne_of_lt pos)
  exact ⟨fun ⟨s, k, hk⟩ => ((key s k).1 hk).1, fun h => ⟨[], _, (key [] _).2 ⟨h, rfl⟩⟩⟩

theorem matched_append_iff {tail : Text} (htail : EndsRun tail) :
    (∃ m, fixedLengthMatchRest length (run ++ tail) = some m) ↔
      ¬(run = [] ∧ tail ≠ []) ∧ run.length ≤ length := by
  rw [fixedLengthMatchRest_append hrun htail]
  split
  · next h => exact ⟨fun ⟨m, hm⟩ => (by cases hm), fun h' => absurd h h'.1⟩
  · next h =>
    split
    · next he => exact ⟨fun _ => ⟨h, Nat.le_of_eq he⟩, fun _ => ⟨_, rfl⟩⟩
    · split
      · next hlt => exact ⟨fun _ => ⟨h, Nat.le_of_lt hlt⟩, fun _ => ⟨_, rfl⟩⟩
      · refine ⟨fun ⟨m, hm⟩ => (by cases hm), fun h' => ?_⟩
        have := h'.2
        omega

theorem begun_append {tail : Text} (htail : EndsRun tail) {k : Int}
    (h : fixedLengthMatchRest length (run ++ tail) = some (.begun k)) :
    k = run.length ∧ run.length < length := by
  rw [fixedLengthMatchRest_append hrun htail] at h
  split at h
  · cases h
  · split at h
    · cases h
    · split at h
      · next hlt => cases h; exact ⟨rfl, hlt⟩
      · cases h

theorem not_shortRunEnded_digits : ¬ShortRunEnded length run := by
  intro ⟨v, c, t, hv, _, hc, _⟩
  rw [hv] at hrun
  simp [hc] at hrun

theorem shortRunEnded_append_iff {c : CodePoint} (hc : c.isDigit = false) (t : Text) :
    ShortRunEnded length (run ++ c :: t) ↔ run ≠ [] ∧ run.length < length := by
  constructor
  · intro ⟨v, d, u, he, hv, hd, hne, hlt⟩
    have := congrArg (List.takeWhile CodePoint.isDigit) he
    rw [takeWhile_isDigit_append hrun (endsRun_cons hc),
      takeWhile_isDigit_append hv (endsRun_cons hd)] at this
    rw [this]
    exact ⟨hne, hlt⟩
  · intro ⟨hne, hlt⟩
    exact ⟨run, c, t, rfl, hrun, hc, hne, hlt⟩

theorem begun_digits {k : Int} (h : fixedLengthMatchRest length run = some (.begun k)) :
    k = run.length := by
  rw [← List.append_nil run] at h
  exact (begun_append hrun endsRun_nil h).1

theorem matched_digits_iff : (∃ m, fixedLengthMatchRest length run = some m) ↔ run.length ≤ length := by
  have : (∃ m, fixedLengthMatchRest length (run ++ []) = some m) ↔ _ := matched_append_iff hrun endsRun_nil
  rw [List.append_nil] at this
  rw [this]
  exact ⟨fun h => h.2, fun h => ⟨fun h' => h'.2 rfl, h⟩⟩

theorem extensions_ended_iff (pos : 0 < length) {c : CodePoint} (hc : c.isDigit = false) (t : Text) :
    (((∃ m, fixedLengthMatchRest length (run ++ c :: t) = some m) ↔ Extendable length (run ++ c :: t)) ∧
      ∀ k, fixedLengthMatchRest length (run ++ c :: t) = some (.begun k) → k = (run ++ c :: t).length) ↔
        ¬(run ≠ [] ∧ run.length < length) := by
  have htail := endsRun_cons (t := t) hc
  rw [extendable_ended_iff hrun pos hc, matched_append_iff hrun htail]
  constructor
  · intro ⟨hiff, _⟩ ⟨hne, hlt⟩
    have := hiff.1 ⟨fun h => hne h.1, Nat.le_of_lt hlt⟩
    omega
  · intro hn
    -- some digits are as many as the length or more, so none of them are a beginning
    have hge : run ≠ [] → length ≤ run.length := fun hne => Nat.le_of_not_lt fun hlt => hn ⟨hne, hlt⟩
    refine ⟨⟨fun ⟨hs, hle⟩ => ?_, fun he => ⟨fun h => ?_, Nat.le_of_eq he⟩⟩, fun k hk => ?_⟩
    · have := hge fun h => hs ⟨h, by simp⟩
      omega
    · rw [h.1] at he
      exact absurd he (Nat.ne_of_lt pos)
    · have hlt := (begun_append hrun htail hk).2
      have hs := ((matched_append_iff hrun htail).1 ⟨_, hk⟩).1
      have := hge fun h => hs ⟨h, by simp⟩
      omega

end

theorem extensions_iff {length : Nat} (pos : 0 < length) (rest : Text) :
    (((∃ m, fixedLengthMatchRest length rest = some m) ↔ Extendable length rest) ∧
      ∀ k, fixedLengthMatchRest length rest = some (.begun k) → k = rest.length) ↔
        ¬ShortRunEnded length rest := by
  obtain ⟨run, tail, rfl, hrun, htail⟩ := exists_run rest
  cases tail with
  | nil =>
    rw [List.append_nil]
    refine iff_of_true ⟨?_, fun k hk => begun_digits hrun hk⟩ (not_shortRunEnded_digits hrun)
    rw [extendable_digits_iff hrun pos, matched_digits_iff hrun]
  | cons c t =>
    have hc := htail c t rfl
    rw [extensions_ended_iff hrun pos hc, shortRunEnded_append_iff hrun hc]

/-! ## Any position -/

section
variable [Host]

/-- **Fixed lengths and extensions.** A number of fixed length finds something just where a longer text
has the whole number, and takes a beginning to reach the end of the text, unless the digits are too few
and another character ends them: there a beginning is found that nothing can complete. -/
theorem Part.fixedLength_extensions_iff (length : Nat) (pos : 0 < length) (s : Settings)
    {value : Text} {n : Nat} (hn : n ≤ value.length) :
    (((∃ m, (Part.fixedLength length pos s).Finds value n (some m)) ↔
        ∃ t k, (Part.fixedLength length pos s).Finds (value ++ t) n (some (.full k))) ∧
      ∀ k, (Part.fixedLength length pos s).Finds value n (some (.begun k)) → n + k = value.length) ↔
        ¬ShortRunEnded length (value.drop n) := by
  rw [← extensions_iff pos]
  simp only [Part.finds_iff _ hn, Part.finds_append_iff _ hn, Extendable, List.length_drop]
  refine and_congr Iff.rfl (forall_congr' fun k => imp_congr Iff.rfl ?_)
  omega

end

attribute [local instance] Host.usual

/-- `12a` is taken for the beginning of a number of three digits, which no more text makes of it. -/
theorem Part.fixedLength_12a :
    (Part.fixedLength 3 (by decide) default).Finds "12a" (0 : Nat) (some (.begun 2)) ∧
      ¬∃ t k, (Part.fixedLength 3 (by decide) default).Finds ("12a" ++ t) (0 : Nat) (some (.full k)) := by
  have hn : 0 ≤ ("12a" : Text).length := by decide
  refine ⟨(Part.finds_iff _ hn).2 rfl, ?_⟩
  simp only [Part.finds_append_iff _ hn]
  intro h
  have hrun : ("12" : Text).all CodePoint.isDigit = true := by decide
  have h3 : Extendable 3 ("12" ++ ('a' : CodePoint) :: []) := h
  exact absurd ((extendable_ended_iff hrun (by decide) (by decide) []).1 h3) (by decide)

theorem Part.fixedLength_extensions_x12 :
    1 ≤ ("x12" : Text).length ∧
      ∃ t k, (Part.fixedLength 3 (by decide) default).Finds ("x12" ++ t) (1 : Nat) (some (.full k)) := by
  have hn : 1 ≤ ("x12" : Text).length := by decide
  have hrun : ¬ShortRunEnded 3 (("x12" : Text).drop 1) := not_shortRunEnded_digits (by decide)
  have := ((Part.fixedLength_extensions_iff 3 (by decide) default hn).2 hrun).1
  exact ⟨hn, this.1 ⟨.begun 2, (Part.finds_iff _ hn).2 rfl⟩⟩

end Typeahead
