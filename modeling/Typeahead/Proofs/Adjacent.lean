import Typeahead.Chain
import Typeahead.Proofs.Position
import Typeahead.Proofs.Validation

/-!
# Parts one after another

Each part of a chain is matched where the match before it ended. Only at the end of the text does a match
take nothing, so a chain moves on until it is there, and there all that is left is begun. If the parts are
fully there and no choice is among them, what they suggest is the text that they match.
-/

namespace Typeahead

@[simp] theorem mapError_ok {ε ε' α : Type} (f : ε → ε') (a : α) : (Except.ok a).mapError f = .ok a := rfl

def Step.stop (s : Step) : Int := s.index + (s.found.map Match.consumed).getD 0

def stopOf (index : Int) (steps : List Step) : Int := (steps.getLast?.map Step.stop).getD index

theorem stopOf_cons (index : Int) (s : Step) (steps : List Step) : stopOf index (s :: steps) = stopOf s.stop steps := by
  cases steps with
  | nil => rfl
  | cons _ _ => rfl

theorem slice_of_prefix {value : Text} {n : Nat} {w : Text} (h : w <+: value.drop n) :
    slice value n (n + w.length) = w := by
  rw [← Int.natCast_add, slice_natCast, List.drop_take, Nat.add_sub_cancel_left]
  exact (List.prefix_iff_eq_take.1 h).symm

theorem joinNext_ofText (t u : Text) : joinNext (some (.ofText t)) (.ofText u) = .ok (.ofText (t ++ u)) := rfl

section
variable [Host]

/-! ## Matches at the end of a text -/

theorem Part.word_ne_nil {p : Part} {w : Text} (h : p.Word w) : w ≠ [] := by
  cases p with
  | leaf l =>
    cases l with
    | literal l =>
      have hw : w = l.text := h
      exact hw ▸ l.ne_nil
    | number s => exact h.1
    | fixedLength length pos s => exact List.length_pos_iff.1 (h.1 ▸ pos)
  | options o =>
    obtain ⟨l, _, rfl⟩ := List.mem_map.1 h
    exact l.ne_nil

theorem Part.exists_word {p : Part} (hp : ∀ length pos s, p ≠ .fixedLength length pos s) : ∃ w, p.Word w := by
  cases p with
  | leaf l =>
    cases l with
    | literal l => exact ⟨l.text, rfl⟩
    | number s => exact ⟨"0", by decide, by decide⟩
    | fixedLength length pos s => exact absurd rfl (hp length pos s)
  | options o =>
    obtain ⟨l, hl⟩ := List.exists_mem_of_ne_nil o.literals o.ne_nil
    exact ⟨l.text, List.mem_map_of_mem hl⟩

theorem Part.matchRest_nil (p : Part) : p.matchRest [] = some (.begun 0) := by
  rcases p.eq_fixedLength_or with ⟨length, pos, s, rfl⟩ | hp
  · show fixedLengthMatchRest length [] = _
    unfold fixedLengthMatchRest
    rw [digitRun?_nil, Option.bind_some, if_neg, if_pos]
    · rfl
    · exact pos
    · exact Nat.ne_of_lt pos
  · have hw := Part.wordMatch hp []
    generalize p.matchRest [] = found at hw
    cases hw with
    | full hword hpre _ => exact absurd (List.prefix_nil.1 hpre) (Part.word_ne_nil hword)
    | begun => rfl
    | apart hnone =>
      obtain ⟨w, hword⟩ := Part.exists_word hp
      exact absurd List.nil_prefix (hnone w hword).2

theorem Part.begun_eq_rest {p : Part} (hp : ∀ length pos s, p ≠ .fixedLength length pos s) {rest : Text} {k : Int}
    (h : p.matchRest rest = some (.begun k)) : k = rest.length := by
  have hw := Part.wordMatch hp rest
  rw [h] at hw
  exact hw.begun_length

theorem Part.consumed_eq_zero_iff {p : Part} {rest : Text} {m : Match} (h : p.matchRest rest = some m) :
    m.consumed = 0 ↔ rest = [] := by
  constructor
  · intro hzero
    match m with
    | ⟨.full, k⟩ =>
      obtain ⟨w, hw, _, rfl⟩ := Part.word_of_full h
      have hnil : w = [] := List.length_eq_zero_iff.1 (by simpa using hzero)
      exact absurd hnil (Part.word_ne_nil hw)
    | ⟨.begun, k⟩ =>
      rcases p.eq_fixedLength_or with ⟨length, pos, s, rfl⟩ | hp
      · obtain ⟨run, tail, rfl, hrun, htail⟩ := exists_run rest
        obtain ⟨rfl, _⟩ := begun_append hrun htail h
        have hnil : run = [] := List.length_eq_zero_iff.1 (by simpa using hzero)
        subst hnil
        -- without digits, whatever ended the run would be no match
        by_cases hne : tail = []
        · rw [hne, List.nil_append]
        · have hnone : fixedLengthMatchRest length ([] ++ tail) = none := by
            rw [fixedLengthMatchRest_append hrun htail, if_pos ⟨rfl, hne⟩]
          have hsome : fixedLengthMatchRest length ([] ++ tail) = some ⟨.begun, _⟩ := h
          rw [hnone] at hsome
          cases hsome
      · have hk := Part.begun_eq_rest hp h
        exact List.length_eq_zero_iff.1 (by simpa [hk] using hzero)
  · intro hnil
    rw [hnil, p.matchRest_nil] at h
    cases h
    rfl

/-! ## Steps -/

/-- The steps of a chain, for which nothing needs to be suggested. -/
def stepsFrom (value : Text) : Int → List Part → Except QueryFault (List Step)
  | _, [] => .ok []
  | index, p :: parts => do
    match ← (p.matchAt value index).result with
    | none => return [⟨index, none⟩]
    | some found => return ⟨index, some found⟩ :: (← stepsFrom value (index + found.consumed) parts)

/-- The steps of parts from a position inside a text. Only at its end does one take nothing. -/
inductive Steps (value : Text) : Nat → List Part → List Step → Prop
  | done {n : Nat} : Steps value n [] []
  | stopped {n : Nat} {p : Part} {parts : List Part} : p.matchRest (value.drop n) = none →
      Steps value n (p :: parts) [⟨n, none⟩]
  | matched {n k : Nat} {p : Part} {m : Match} {parts : List Part} {steps : List Step} :
      p.matchRest (value.drop n) = some m → m.consumed = k → n + k ≤ value.length → (k = 0 ↔ n = value.length) →
      Steps value (n + k) parts steps → Steps value n (p :: parts) (⟨n, some m⟩ :: steps)

def Step.atEnd (value : Text) : Step := ⟨value.length, some (.begun 0)⟩

section
variable {value : Text} {n : Nat} {parts : List Part} {steps : List Step}

theorem Part.exists_stop {p : Part} (hn : n ≤ value.length) {m : Match} (h : p.matchRest (value.drop n) = some m) :
    ∃ k : Nat, m.consumed = k ∧ n + k ≤ value.length ∧ (k = 0 ↔ n = value.length) := by
  obtain ⟨k, hk, hle⟩ := Part.exists_consumed h
  have hzero := Part.consumed_eq_zero_iff h
  rw [List.length_drop] at hle
  rw [List.drop_eq_nil_iff, hk, Int.natCast_eq_zero] at hzero
  exact ⟨k, hk, by omega, hzero.trans ⟨fun h => Nat.le_antisymm hn h, Nat.le_of_eq ∘ Eq.symm⟩⟩

theorem exists_steps (parts : List Part) (hn : n ≤ value.length) :
    ∃ steps, stepsFrom value n parts = .ok steps ∧ Steps value n parts steps := by
  induction parts generalizing n with
  | nil => exact ⟨[], rfl, .done⟩
  | cons p parts ih =>
    simp only [stepsFrom, p.matchAt_natCast hn, ok_bind]
    cases hm : p.matchRest (value.drop n) with
    | none => exact ⟨_, rfl, .stopped hm⟩
    | some m =>
      obtain ⟨k, hk, hle, hzero⟩ := Part.exists_stop hn hm
      obtain ⟨steps, hsteps, hlater⟩ := ih hle
      refine ⟨⟨n, some m⟩ :: steps, ?_, .matched hm hk hle hzero hlater⟩
      simp only [hk, ← Int.natCast_add, hsteps, ok_bind]
      rfl

namespace Steps

theorem index_le (h : Steps value n parts steps) (hn : n ≤ value.length) :
    ∀ s ∈ steps, (n : Int) ≤ s.index ∧ s.index ≤ value.length := by
  induction h with
  | done => simp
  | stopped _ => simpa using hn
  | @matched n k _ _ _ _ _ _ hle _ _ ih =>
    refine List.forall_mem_cons.2 ⟨by simpa using hn, ?_⟩
    intro s hs
    have := ih hle s hs
    omega

theorem pairwise_index (h : Steps value n parts steps) :
    steps.Pairwise fun (a b : Step) => a.index < b.index ∨ a.index = value.length := by
  induction h with
  | done => exact .nil
  | stopped _ => exact List.pairwise_singleton ..
  | matched _ _ hle hzero hlater ih =>
    apply List.pairwise_cons.2
    refine ⟨?_, ih⟩
    intro s hs
    have := (hlater.index_le hle s hs).1
    simp only
    omega

theorem found_at_end (h : Steps value n parts steps) {s : Step} (hs : s ∈ steps) {m : Match} (hm : s.found = some m) :
    (m.consumed = 0 ↔ s.index = value.length) ∧ (s.index = value.length → m = .begun 0) := by
  induction h with
  | done => cases hs
  | stopped _ =>
    rw [List.mem_singleton.1 hs] at hm
    cases hm
  | @matched n k p m' _ _ hfound hk _ hzero _ ih =>
    rcases List.mem_cons.1 hs with rfl | hs
    · cases hm
      constructor
      · simp only
        omega
      · intro hend
        simp only at hend
        have hdrop : value.drop n = [] := List.drop_eq_nil_iff.2 (by omega)
        rw [hdrop, p.matchRest_nil] at hfound
        exact (Option.some.inj hfound).symm
    · exact ih hs

theorem of_end (h : Steps value n parts steps) (hn : n = value.length) :
    steps = List.replicate parts.length (.atEnd value) := by
  induction h with
  | done => rfl
  | @stopped _ p _ hnone =>
    rw [hn, List.drop_length, p.matchRest_nil] at hnone
    cases hnone
  | @matched n k p m _ _ hm hk _ hzero _ ih =>
    rw [hn, List.drop_length, p.matchRest_nil] at hm
    cases hm
    have hlater := ih (by rw [hzero.2 hn, hn]; rfl)
    rw [hlater, hn]
    rfl

theorem after_begun (h : Steps value n parts steps) {k : Nat} {p : Part} {i c : Int} (hpart : parts[k]? = some p)
    (hp : ∀ length pos s, p ≠ .fixedLength length pos s) (hstep : steps[k]? = some ⟨i, some (.begun c)⟩) :
    steps.drop (k + 1) = List.replicate (parts.length - (k + 1)) (.atEnd value) := by
  induction h generalizing k with
  | done => cases hpart
  | stopped _ =>
    cases k with
    | zero => cases hstep
    | succ k => cases hstep
  | @matched n taken q m parts' steps' hm hk hle hzero hlater ih =>
    cases k with
    | zero =>
      cases hpart
      cases hstep
      -- a begun match takes all of the rest, so the next part is matched at the end
      have hrest := Part.begun_eq_rest hp hm
      have hstop : n + taken = value.length := by
        rw [List.length_drop] at hrest
        simp only [Match.begun] at hk
        omega
      simpa using hlater.of_end hstop
    | succ k =>
      have hlen : (q :: parts').length - (k + 1 + 1) = parts'.length - (k + 1) := by
        rw [List.length_cons]
        omega
      rw [List.drop_succ_cons, hlen]
      exact ih hpart hstep

end Steps

/-! ## Suggestions of the steps -/

@[simp] theorem Reported.result_mapError {ε ε' α : Type} (f : ε → ε') (x : Reported ε α) :
    (x.mapError f).result = x.result.mapError f := rfl

def joinFirst (joined : Option Suggestion) (suggestions : List Suggestion) : Except ChainFault (Option Suggestion) :=
  match suggestions.head? with
  | some s => some <$> (joinNext joined s).mapError .sum
  | none => .ok joined

theorem chainFrom_of_none {p : Part} (hn : n ≤ value.length) (hm : p.matchRest (value.drop n) = none)
    (joined : Option Suggestion) :
    (chainFrom value joined n (p :: parts)).result = .ok ⟨[⟨n, none⟩], joined⟩ := by
  unfold chainFrom
  simp only [Reported.result_bind, Reported.result_mapError, p.matchAt_natCast hn, hm]
  rfl

theorem chainFrom_of_some {p : Part} {m : Match} {k : Nat} (hn : n ≤ value.length)
    (hm : p.matchRest (value.drop n) = some m) (hk : m.consumed = k) (joined : Option Suggestion) :
    (chainFrom value joined n (p :: parts)).result =
      (p.suggestRest (value.drop n)).mapError .query >>= fun suggestions =>
        joinFirst joined suggestions >>= fun joined' =>
          (chainFrom value joined' (n + k : Nat) parts).result >>= fun c =>
            .ok ⟨⟨n, some m⟩ :: c.steps, c.joined⟩ := by
  have hsuggestions : (p.suggestionsAt value n).result = p.suggestRest (value.drop n) :=
    p.result_suggestionsAt_of_some hn (by simp [hm])
  rw [chainFrom]
  simp only [Reported.result_bind, Reported.result_mapError, p.matchAt_natCast hn, hm, mapError_ok, ok_bind,
    hsuggestions, hk, ← Int.natCast_add]
  cases p.suggestRest (value.drop n) with
  | error e => rfl
  | ok suggestions =>
    simp only [mapError_ok, ok_bind, joinFirst]
    cases suggestions.head? with
    | none =>
      simp only [pure_bind, Reported.result_bind, ok_bind]
      rfl
    | some s =>
      simp only
      cases joinNext joined s with
      | error e => rfl
      | ok s' =>
        simp only [Reported.result_bind]
        rfl

theorem joinFirst_error {joined : Option Suggestion} {suggestions : List Suggestion} {e : ChainFault}
    (h : joinFirst joined suggestions = .error e) : ∃ fault, e = .sum fault := by
  unfold joinFirst at h
  split at h
  · obtain ⟨fault, _, rfl⟩ := mapError_eq_error_iff.1 (map_eq_error h)
    exact ⟨fault, rfl⟩
  · cases h

/-- Whatever suggestions do, a chain has no other steps, and its positions are inside the text: no position is
refused, and only a label or the size of the digits keeps a part from suggesting. -/
theorem Steps.result_chainFrom (h : Steps value n parts steps) (hn : n ≤ value.length) (joined : Option Suggestion) :
    (∃ s, (chainFrom value joined n parts).result = .ok ⟨steps, s⟩) ∨
      ∃ e, (chainFrom value joined n parts).result = .error e ∧ ∀ fault, e = .query fault →
        (∃ label, fault = .label label) ∨ fault = .lengthTooLarge ∨ fault = .valueTooLong := by
  induction h generalizing joined with
  | done => exact .inl ⟨joined, rfl⟩
  | stopped hm => exact .inl ⟨joined, chainFrom_of_none hn hm joined⟩
  | @matched n k p m parts steps hm hk hle _ _ ih =>
    rw [chainFrom_of_some hn hm hk]
    cases hs : p.suggestRest (value.drop n) with
    | error fault =>
      refine .inr ⟨.query fault, rfl, fun fault' heq => ?_⟩
      cases heq
      exact Part.error_of_suggestRest hs
    | ok suggestions =>
      rw [mapError_ok, ok_bind]
      cases hj : joinFirst joined suggestions with
      | error e =>
        obtain ⟨fault, rfl⟩ := joinFirst_error hj
        exact .inr ⟨.sum fault, rfl, nofun⟩
      | ok joined' =>
        rw [ok_bind]
        rcases ih hle joined' with ⟨s, hs⟩ | ⟨e, he, hne⟩
        · exact .inl ⟨s, by rw [hs, ok_bind]⟩
        · exact .inr ⟨e, by rw [he, error_bind], hne⟩

/-! ## Chains that are fully there -/

theorem Leaf.suggestRest_of_full {l : Leaf} {rest : Text} {k : Int} (h : l.matchRest rest = some (.full k)) :
    ∃ w, w <+: rest ∧ k = w.length ∧ l.suggestRest rest = .ok [.ofText w] := by
  have hne : rest ≠ [] := by
    intro hnil
    have hbegun : l.matchRest [] = some (.begun 0) := (Part.leaf l).matchRest_nil
    rw [hnil, hbegun] at h
    cases h
  cases l with
  | literal l =>
    obtain ⟨w, hw, hpre, hk⟩ := Part.word_of_full (p := .literal l) h
    have hw : w = l.text := hw
    exact ⟨w, hpre, hk, by rw [hw]; rfl⟩
  | number s =>
    obtain ⟨run, tail, rfl, hrun, htail⟩ := exists_run rest
    have hk : k = run.length := consumed_number hrun htail h
    refine ⟨run, List.prefix_append run tail, hk, ?_⟩
    rw [Leaf.suggestRest, if_neg hne, takeWhile_isDigit_append hrun htail]
  | fixedLength length pos s =>
    obtain ⟨run, tail, rfl, hrun, htail⟩ := exists_run rest
    obtain ⟨_, hlen, hk⟩ := (full_append_iff hrun htail).1 h
    refine ⟨run, List.prefix_append run tail, hk, ?_⟩
    rw [Leaf.suggestRest_fixedLength_eq_ok_iff, takeWhile_isDigit_append hrun htail]
    refine .inr ⟨hne, fun hlt => absurd hlen (Nat.ne_of_lt hlt), ?_⟩
    rw [Text.padRight_of_le s.pad (Nat.le_of_eq hlen.symm)]

theorem chainFrom_of_full {l : Leaf} (parts : List Part) {k : Int} (hn : n ≤ value.length)
    (hm : (Part.leaf l).matchRest (value.drop n) = some (.full k)) :
    ∃ w, w <+: value.drop n ∧ k = w.length ∧ ∀ joined t,
      (∀ u, joinNext joined (.ofText u) = .ok (.ofText (t ++ u))) →
        (chainFrom value joined n (.leaf l :: parts)).result =
          (chainFrom value (some (.ofText (t ++ w))) (n + w.length : Nat) parts).result >>= fun c =>
            .ok ⟨⟨n, some (.full k)⟩ :: c.steps, c.joined⟩ := by
  obtain ⟨w, hpre, hk, hs⟩ := Leaf.suggestRest_of_full hm
  refine ⟨w, hpre, hk, fun joined t hj => ?_⟩
  have hjoin : joinFirst joined [.ofText w] = .ok (some (.ofText (t ++ w))) := by
    simp only [joinFirst, List.head?_cons, hj, mapError_ok]
    rfl
  have hs : (Part.leaf l).suggestRest (value.drop n) = .ok [.ofText w] := hs
  rw [chainFrom_of_some hn hm hk, hs, mapError_ok, ok_bind, hjoin, ok_bind]

section
variable (h : Steps value n parts steps) (hn : n ≤ value.length) (hleaf : ∀ p ∈ parts, ∀ o, p ≠ .options o)
  (hfull : ∀ s ∈ steps, ∃ k, s.found = some (.full k))
include h hn hleaf hfull

theorem Steps.joined_of_full (t : Text) :
    ∃ w, w <+: value.drop n ∧ stopOf n steps = n + w.length ∧
      (chainFrom value (some (.ofText t)) n parts).result = .ok ⟨steps, some (.ofText (t ++ w))⟩ := by
  induction h generalizing t with
  | done => exact ⟨[], List.nil_prefix, rfl, by rw [List.append_nil]; rfl⟩
  | stopped _ =>
    obtain ⟨k, hk⟩ := hfull _ (List.mem_singleton_self _)
    cases hk
  | @matched n k p m parts steps hm hk hle _ _ ih =>
    obtain ⟨hp, hparts⟩ := List.forall_mem_cons.1 hleaf
    obtain ⟨⟨k', hm'⟩, hsteps⟩ := List.forall_mem_cons.1 hfull
    cases hm'
    cases p with
    | options o => exact absurd rfl (hp o)
    | leaf l =>
      obtain ⟨w, hpre, hw, hfirst⟩ := chainFrom_of_full parts hn hm
      have hk : k = w.length := by
        rw [consumed_full, hw] at hk
        omega
      subst hk
      obtain ⟨w', hpre', hstop, hlater⟩ := ih hle hparts hsteps (t ++ w)
      obtain ⟨u, hu⟩ := hpre
      refine ⟨w ++ w', ?_, ?_, ?_⟩
      · rw [← List.drop_drop, ← hu, List.drop_left] at hpre'
        rw [← hu]
        exact (List.prefix_append_right_inj w).2 hpre'
      · rw [stopOf_cons, List.length_append]
        have hend : Step.stop ⟨n, some (.full k')⟩ = (n + w.length : Nat) := by
          simp only [Step.stop, Option.map_some, Option.getD_some, consumed_full, hw, Int.natCast_add]
        rw [hend, hstop]
        omega
      · rw [hfirst _ t (joinNext_ofText t), hlater, ok_bind, List.append_assoc]

theorem Steps.start_of_full (hne : parts ≠ []) :
    (chainFrom value none n parts).result = (chainFrom value (some (.ofText [])) n parts).result := by
  -- the first leaf suggests one text, and both joins with it give that text
  cases h with
  | done => exact absurd rfl hne
  | stopped _ =>
    obtain ⟨k, hk⟩ := hfull _ (List.mem_singleton_self _)
    cases hk
  | @matched _ _ p m parts _ hm _ _ _ _ =>
    obtain ⟨k, hk⟩ := hfull _ List.mem_cons_self
    cases hk
    cases p with
    | options o => exact absurd rfl (hleaf _ List.mem_cons_self o)
    | leaf l =>
      obtain ⟨w, _, _, hfirst⟩ := chainFrom_of_full parts hn hm
      rw [hfirst none [] fun u => rfl, hfirst _ [] (joinNext_ofText [])]

theorem Steps.chain_of_full (hne : parts ≠ []) :
    ∃ last k, steps.getLast? = some ⟨last, some (.full k)⟩ ∧
      (chain parts value n).result = .ok ⟨steps, some (.ofText (slice value n (last + k)))⟩ := by
  obtain ⟨w, hpre, hstop, hresult⟩ := h.joined_of_full hn hleaf hfull []
  have hsteps : steps ≠ [] := by
    intro hnil
    cases h with
    | done => exact hne rfl
    | stopped _ => cases hnil
    | matched _ _ _ _ _ => cases hnil
  have hlast := List.getLast?_eq_some_getLast hsteps
  generalize steps.getLast hsteps = s at hlast
  obtain ⟨k, hk⟩ := hfull s (List.mem_of_getLast? hlast)
  obtain ⟨last, found⟩ := s
  cases hk
  have hend : last + k = n + w.length := by
    rw [← hstop, stopOf, hlast]
    rfl
  refine ⟨last, k, hlast, ?_⟩
  rw [chain, h.start_of_full hn hleaf hfull hne, hresult, hend, slice_of_prefix hpre, List.nil_append]

end

end

/-- **Parts one after another.** From a position inside a text, a chain stays inside; it moves on with each step
until it is at the end, where every part is begun and takes nothing, and a literal, a number or a choice that
is begun takes it there. If all parts are fully there and none is a choice, what they suggest makes up the text
from the first position to the last. -/
theorem chain_joins_up (parts : List Part) (value : Text) {n : Nat} (hn : n ≤ value.length) :
    ∃ steps, stepsFrom value n parts = .ok steps ∧
      (∀ s ∈ steps, (n : Int) ≤ s.index ∧ s.index ≤ value.length) ∧
      (steps.Pairwise fun (a b : Step) => a.index < b.index ∨ a.index = value.length) ∧
      (∀ s ∈ steps, ∀ m, s.found = some m →
        (m.consumed = 0 ↔ s.index = value.length) ∧ (s.index = value.length → m = .begun 0)) ∧
      (∀ (k : Nat) (p : Part) (i c : Int), parts[k]? = some p → (∀ length pos s, p ≠ .fixedLength length pos s) →
        steps[k]? = some ⟨i, some (.begun c)⟩ →
        steps.drop (k + 1) = List.replicate (parts.length - (k + 1)) ⟨value.length, some (.begun 0)⟩) ∧
      (∀ c, (chain parts value n).result = .ok c → c.steps = steps) ∧
      (∀ fault, (chain parts value n).result = .error (.query fault) →
        fault.errorClass ≠ .library .invalidIndex ∧ ∀ hidden, fault ≠ .undisplayable hidden) ∧
      (parts ≠ [] → (∀ p ∈ parts, ∀ o, p ≠ .options o) → (∀ s ∈ steps, ∃ k, s.found = some (.full k)) →
        ∃ last k, steps.getLast? = some ⟨last, some (.full k)⟩ ∧
          (chain parts value n).result = .ok ⟨steps, some (.ofText (slice value n (last + k)))⟩) := by
  obtain ⟨steps, hrun, h⟩ := exists_steps parts hn
  refine ⟨steps, hrun, h.index_le hn, h.pairwise_index, ?_, ?_, ?_, ?_, ?_⟩
  · intro s hs m hm
    exact h.found_at_end hs hm
  · intro k p i c hpart hp hstep
    exact h.after_begun hpart hp hstep
  · intro c hc
    unfold chain at hc
    rcases h.result_chainFrom hn none with ⟨s, hs⟩ | ⟨e, he, _⟩
    · rw [hs] at hc
      cases hc
      rfl
    · rw [he] at hc
      cases hc
  · intro fault hfault
    unfold chain at hfault
    rcases h.result_chainFrom hn none with ⟨s, hs⟩ | ⟨e, he, hinside⟩
    · rw [hs] at hfault
      cases hfault
    · rw [he] at hfault
      rcases hinside fault (Except.error.inj hfault) with ⟨label, rfl⟩ | rfl | rfl
      · exact ⟨ErrorClass.ne_library label.foreign _, nofun⟩
      · exact ⟨nofun, nofun⟩
      · exact ⟨nofun, nofun⟩
  · intro hne hleaf hfull
    exact h.chain_of_full hn hleaf hfull hne

end

attribute [local instance] Host.usual

/-- The letters `ab`, two digits, a hyphen, and a number. -/
def labelled : List Part :=
  [.literal ⟨"ab", by decide⟩, .fixedLength 2 (by decide) default, .literal ⟨"-", by decide⟩, .number default]

def labelledSteps : List Step :=
  [⟨1, some (.full 2)⟩, ⟨3, some (.full 2)⟩, ⟨5, some (.full 1)⟩, ⟨6, some (.full 1)⟩]

theorem chain_joins_up_labelled :
    1 ≤ ("xab12-3" : Text).length ∧ stepsFrom "xab12-3" (1 : Nat) labelled = .ok labelledSteps ∧ labelled ≠ [] ∧
      (∀ p ∈ labelled, ∀ o, p ≠ .options o) ∧ (∀ s ∈ labelledSteps, ∃ k, s.found = some (.full k)) ∧
      (chain labelled "xab12-3" (1 : Nat)).result = .ok ⟨labelledSteps, some (.ofText "ab12-3")⟩ := by
  have hn : 1 ≤ ("xab12-3" : Text).length := by decide
  have hsteps : stepsFrom "xab12-3" (1 : Nat) labelled = .ok labelledSteps := by rfl
  have hne : labelled ≠ [] := nofun
  have hleaf : ∀ p ∈ labelled, ∀ o, p ≠ .options o := by
    simp [labelled, Part.literal, Part.number, Part.fixedLength]
  have hfull : ∀ s ∈ labelledSteps, ∃ k, s.found = some (.full k) := by
    simp only [labelledSteps, List.forall_mem_cons]
    exact ⟨⟨2, rfl⟩, ⟨2, rfl⟩, ⟨1, rfl⟩, ⟨1, rfl⟩, fun _ h => by cases h⟩
  obtain ⟨steps, hrun, _, _, _, _, _, _, hjoin⟩ := chain_joins_up labelled "xab12-3" hn
  rw [hsteps] at hrun
  cases hrun
  obtain ⟨last, k, hlast, hchain⟩ := hjoin hne hleaf hfull
  cases hlast
  exact ⟨hn, hsteps, hne, hleaf, hfull, hchain⟩

end Typeahead
