import Typeahead.Proofs.Match

/-!
# Matching by words

A part stands for a set of words. A literal, a number and a choice match by their words alone: fully if
the text starts with a word, and then with the longest one; as a beginning if the text ends within a
word; and not at all if nothing that is typed after the text can lead to a word.
-/

namespace Typeahead

section
variable [Host]

def Leaf.Word : Leaf → Text → Prop
  | .literal l, w => w = l.text
  | .number _, w => w ≠ [] ∧ w.all CodePoint.isDigit = true
  | .fixedLength length _ _, w => w.length = length ∧ w.all CodePoint.isDigit = true

def Part.Word : Part → Text → Prop
  | .leaf l, w => l.Word w
  | .options o, w => w ∈ o.texts

end

/-- What a text gives if words alone decide. -/
inductive WordMatch (W : Text → Prop) (rest : Text) : Option Match → Prop
  | full {w : Text} : W w → w <+: rest → (∀ v, W v → v <+: rest → v.length ≤ w.length) →
      WordMatch W rest (some (.full w.length))
  | begun {w : Text} : (∀ v, W v → ¬v <+: rest) → W w → rest <+: w →
      WordMatch W rest (some (.begun rest.length))
  | apart : (∀ v, W v → ¬v <+: rest ∧ ¬rest <+: v) → WordMatch W rest none

section
variable {W : Text → Prop} {rest : Text} {found : Option Match}

theorem WordMatch.full_iff (h : WordMatch W rest found) :
    (∃ k, found = some (.full k)) ↔ ∃ w, W w ∧ w <+: rest := by
  cases h with
  | @full w hw hp _ => exact ⟨fun _ => ⟨w, hw, hp⟩, fun _ => ⟨_, rfl⟩⟩
  | begun hn _ _ =>
    refine ⟨fun ⟨k, hk⟩ => ?_, fun ⟨v, hv, hvp⟩ => absurd hvp (hn v hv)⟩
    cases hk
  | apart hn =>
    refine ⟨fun ⟨k, hk⟩ => ?_, fun ⟨v, hv, hvp⟩ => absurd hvp (hn v hv).1⟩
    cases hk

theorem WordMatch.longest {k : Int} (h : WordMatch W rest (some (.full k))) :
    ∃ w, W w ∧ w <+: rest ∧ (∀ v, W v → v <+: rest → v.length ≤ w.length) ∧ k = w.length := by
  generalize hm : some (Match.full k) = m at h
  cases h with
  | @full w hw hp hmax => cases hm; exact ⟨w, hw, hp, hmax, rfl⟩
  | begun => cases hm
  | apart => cases hm

theorem WordMatch.begun_iff (h : WordMatch W rest found) :
    (∃ k, found = some (.begun k)) ↔
      (¬∃ w, W w ∧ w <+: rest) ∧ ∃ w, W w ∧ rest <+: w ∧ rest ≠ w := by
  cases h with
  | @full w hw hp _ =>
    refine ⟨fun ⟨k, hk⟩ => ?_, fun ⟨hn, _⟩ => absurd ⟨w, hw, hp⟩ hn⟩
    cases hk
  | @begun w hn hw hr =>
    refine ⟨fun _ => ⟨fun ⟨v, hv, hvp⟩ => hn v hv hvp, w, hw, hr, ?_⟩, fun _ => ⟨_, rfl⟩⟩
    intro e
    exact hn w hw (e ▸ List.prefix_refl _)
  | apart hn =>
    refine ⟨fun ⟨k, hk⟩ => ?_, fun ⟨_, v, hv, hvr, _⟩ => absurd hvr (hn v hv).2⟩
    cases hk

theorem WordMatch.begun_length {k : Int} (h : WordMatch W rest (some (.begun k))) :
    k = rest.length := by
  generalize hm : some (Match.begun k) = m at h
  cases h with
  | full => cases hm
  | begun => cases hm; rfl
  | apart => cases hm

theorem WordMatch.exists_consumed {m : Match} (h : WordMatch W rest (some m)) :
    ∃ k : Nat, m.consumed = k ∧ k ≤ rest.length := by
  generalize hm : some m = found at h
  cases h with
  | @full w _ hp _ => cases hm; exact ⟨w.length, rfl, hp.length_le⟩
  | begun => cases hm; exact ⟨rest.length, rfl, Nat.le_refl _⟩
  | apart => cases hm

theorem WordMatch.eq_none_iff (h : WordMatch W rest found) :
    found = none ↔ ∀ w, W w → ¬w <+: rest ∧ ¬rest <+: w := by
  cases h with
  | @full w hw hp _ => exact ⟨fun e => (by cases e), fun hn => absurd hp (hn w hw).1⟩
  | @begun w _ hw hr => exact ⟨fun e => (by cases e), fun hn => absurd hr (hn w hw).2⟩
  | apart hn => exact ⟨fun _ => hn, fun _ => rfl⟩

end

/-- Nothing is found exactly where no more text helps. -/
theorem WordMatch.eq_none_iff_forall {W : Text → Prop} {f : Text → Option Match}
    (hf : ∀ rest, WordMatch W rest (f rest)) (rest : Text) :
    f rest = none ↔ ¬∃ s k, f (rest ++ s) = some (.full k) := by
  rw [(hf rest).eq_none_iff]
  constructor
  · intro hn ⟨s, hk⟩
    obtain ⟨w, hw, hp⟩ := (hf (rest ++ s)).full_iff.1 hk
    -- word and text begin the same longer text, so one of them begins the other
    rcases List.prefix_or_prefix_of_prefix hp (List.prefix_append rest s) with h | h
    · exact (hn w hw).1 h
    · exact (hn w hw).2 h
  · intro hn w hw
    have key : ∀ s, w <+: rest ++ s → False := fun s hp =>
      hn ⟨s, (hf (rest ++ s)).full_iff.2 ⟨w, hw, hp⟩⟩
    refine ⟨fun hp => key [] (by simpa using hp), ?_⟩
    intro ⟨s, hs⟩
    exact key s (hs ▸ List.prefix_refl _)

/-! ## Literals -/

theorem Literal.wordMatch (l : Literal) (rest : Text) : WordMatch (· = l.text) rest (l.matchRest rest) := by
  unfold Literal.matchRest
  by_cases hlen : l.length ≤ rest.length
  · have hc : (rest.take l.length).length = l.length := by simp [hlen]
    by_cases hp : rest.take l.length <+: l.text
    · have he : rest.take l.length = l.text := hp.eq_of_length hc
      simp only [List.isPrefixOf_iff_prefix, hp, hc, if_true]
      refine .full rfl (he ▸ List.take_prefix _ _) fun v hv _ => ?_
      exact Nat.le_of_eq (congrArg List.length hv)
    · simp only [List.isPrefixOf_iff_prefix, hp, if_false]
      refine .apart fun v hv => ?_
      subst hv
      have hn : ¬l.text <+: rest := fun h => hp ((List.prefix_iff_eq_take.1 h) ▸ List.prefix_refl _)
      exact ⟨hn, fun h => hn ((h.eq_of_length_le hlen) ▸ List.prefix_refl _)⟩
  · have hc : rest.take l.length = rest := List.take_of_length_le (by omega)
    have hn : ¬l.text <+: rest := fun h => hlen h.length_le
    rw [hc]
    by_cases hp : rest <+: l.text
    · have : rest.length ≠ l.length := by omega
      simp only [List.isPrefixOf_iff_prefix, hp, this, if_true, if_false]
      exact .begun (fun v hv => hv ▸ hn) rfl hp
    · simp only [List.isPrefixOf_iff_prefix, hp, if_false]
      exact .apart fun v hv => hv ▸ ⟨hn, hp⟩

/-! ## Numbers -/

theorem prefix_takeWhile_isDigit {v rest : Text} (h : v <+: rest) (hv : v.all CodePoint.isDigit = true) :
    v <+: rest.takeWhile CodePoint.isDigit := by
  obtain ⟨t, rfl⟩ := h
  rw [List.takeWhile_append_of_pos (List.all_eq_true.1 hv)]
  exact List.prefix_append _ _

theorem numberMatchRest_wordMatch (rest : Text) :
    WordMatch (fun w => w ≠ [] ∧ w.all CodePoint.isDigit = true) rest (numberMatchRest rest) := by
  unfold numberMatchRest
  cases hr : digitRun? rest with
  | none =>
    obtain ⟨c, t, rfl, hc⟩ := digitRun?_eq_none_iff.1 hr
    refine .apart fun v ⟨hv, hd⟩ => ?_
    -- both starts share their first character, which is no digit
    cases v with
    | nil => exact absurd rfl hv
    | cons d v =>
      have hdd : d.isDigit = true := by simp only [List.all_cons, Bool.and_eq_true] at hd; exact hd.1
      have hne : d ≠ c := fun e => by rw [e, hc] at hdd; cases hdd
      exact ⟨fun h => hne (List.cons_prefix_cons.1 h).1, fun h => hne (List.cons_prefix_cons.1 h).1.symm⟩
  | some run =>
    obtain ⟨hrun, hend⟩ := digitRun?_eq_some_iff.1 hr
    rw [Option.map_some]
    by_cases hnil : run = []
    · have hrest := hend hnil
      subst hrest
      rw [if_pos hnil]
      refine .begun (w := ['0']) (fun v hv h => hv.1 (List.prefix_nil.1 h)) ⟨by simp, by decide⟩ ?_
      exact List.nil_prefix
    · rw [if_neg hnil, hrun]
      refine .full ⟨hrun ▸ hnil, List.all_takeWhile⟩ (List.takeWhile_prefix _) fun v hv h => ?_
      exact (prefix_takeWhile_isDigit h hv.2).length_le

/-! ## Choices -/

theorem firstFull_cons (m : Match) (found : List Match) :
    firstFull (m :: found) =
      if m.isFull then some m
      else if (firstFull found).any Match.isFull then firstFull found else some m := by
  unfold firstFull
  rw [List.find?_cons]
  cases m.isFull with
  | true => rfl
  | false =>
    cases h : found.find? Match.isFull with
    | some a => simp [List.find?_some h]
    | none =>
      have hn : ∀ a ∈ found, ¬a.isFull = true := List.find?_eq_none.1 h
      have : found.head?.any Match.isFull = false := by
        cases found with
        | nil => rfl
        | cons a _ => simpa using hn a (by simp)
      simp [this]

@[simp] theorem isFull_full (k : Int) : (Match.full k).isFull = true := rfl

theorem WordMatch.cons {W : Text → Prop} {rest u : Text} {m : Option Match} {found : List Match}
    (hu : WordMatch (· = u) rest m) (h : WordMatch W rest (firstFull found))
    (hle : ∀ v, W v → v.length ≤ u.length) :
    WordMatch (fun v => v = u ∨ W v) rest (firstFull (m.toList ++ found)) := by
  cases hu with
  | @full w hw hp _ =>
    subst hw
    rw [Option.toList_some, List.singleton_append, firstFull_cons, if_pos (isFull_full _)]
    exact .full (.inl rfl) hp (forall_eq_or_imp.2 ⟨fun _ => Nat.le_refl _, fun v hv _ => hle v hv⟩)
  | @begun w hn hw hr =>
    subst hw
    have hnu : ¬w <+: rest := hn w rfl
    rw [Option.toList_some, List.singleton_append, firstFull_cons]
    generalize firstFull found = m at h
    cases h with
    | full hv hp hmax =>
      exact .full (.inr hv) hp (forall_eq_or_imp.2 ⟨fun h => absurd h hnu, hmax⟩)
    | begun hn' _ _ => exact .begun (forall_eq_or_imp.2 ⟨hnu, hn'⟩) (.inl rfl) hr
    | apart hn' =>
      exact .begun (forall_eq_or_imp.2 ⟨hnu, fun v hv => (hn' v hv).1⟩) (.inl rfl) hr
  | apart hn =>
    have hnu := hn u rfl
    rw [Option.toList_none, List.nil_append]
    generalize firstFull found = m at h
    cases h with
    | full hv hp hmax =>
      exact .full (.inr hv) hp (forall_eq_or_imp.2 ⟨fun h => absurd h hnu.1, hmax⟩)
    | begun hn' hw hr => exact .begun (forall_eq_or_imp.2 ⟨hnu.1, hn'⟩) (.inr hw) hr
    | apart hn' => exact .apart (forall_eq_or_imp.2 ⟨hnu, hn'⟩)

theorem WordMatch.congr {V W : Text → Prop} {rest : Text} {m : Option Match} (hVW : ∀ v, V v ↔ W v)
    (h : WordMatch V rest m) : WordMatch W rest m := by
  have : V = W := funext fun v => propext (hVW v)
  rwa [← this]

theorem wordMatch_literals (rest : Text) : ∀ ls : List Literal,
    ls.Pairwise (fun a b => b.length ≤ a.length) →
      WordMatch (· ∈ ls.map Literal.text) rest (firstFull (ls.filterMap (·.matchRest rest)))
  | [], _ => .apart (by simp)
  | l :: ls, h => by
    obtain ⟨hle, hs⟩ := List.pairwise_cons.1 h
    have ih := wordMatch_literals rest ls hs
    have hle' : ∀ v ∈ ls.map Literal.text, v.length ≤ l.text.length := by
      intro v hv
      obtain ⟨l', hl', rfl⟩ := List.mem_map.1 hv
      exact hle l' hl'
    have := ((l.wordMatch rest).cons ih hle').congr (W := (· ∈ (l :: ls).map Literal.text)) fun v => by
      simp only [List.map_cons, List.mem_cons]
    rw [List.filterMap_cons]
    cases hm : l.matchRest rest <;> (rw [hm] at this; exact this)

section
variable [Host]

theorem Part.wordMatch {p : Part} (hp : ∀ length pos s, p ≠ .fixedLength length pos s) (rest : Text) :
    WordMatch p.Word rest (p.matchRest rest) := by
  cases p with
  | leaf l =>
    cases l with
    | literal l => exact l.wordMatch rest
    | number s => exact numberMatchRest_wordMatch rest
    | fixedLength length pos s => exact absurd rfl (hp length pos s)
  | options o => exact wordMatch_literals rest o.literals o.longest_first

/-! ## Any position -/

/-- **Words decide.** At a position inside a text, a literal, a number or a choice finds the longest word
that starts there; else, where the text ends within a word, all of the rest; else nothing, and then no
longer text has a word there. -/
theorem Part.finds_by_words {p : Part} (hp : ∀ length pos s, p ≠ .fixedLength length pos s)
    {value : Text} {n : Nat} (hn : n ≤ value.length) :
    (∃ m, p.Finds value n m) ∧
    ((∃ k, p.Finds value n (some (.full k))) ↔ ∃ w, p.Word w ∧ w <+: value.drop n) ∧
    (∀ k, p.Finds value n (some (.full k)) →
      ∃ w, p.Word w ∧ w <+: value.drop n ∧
        (∀ v, p.Word v → v <+: value.drop n → v.length ≤ w.length) ∧ k = w.length) ∧
    ((∃ k, p.Finds value n (some (.begun k))) ↔
      (¬∃ w, p.Word w ∧ w <+: value.drop n) ∧
        ∃ w, p.Word w ∧ value.drop n <+: w ∧ value.drop n ≠ w) ∧
    (∀ k, p.Finds value n (some (.begun k)) → k = (value.drop n).length) ∧
    (p.Finds value n none ↔ ¬∃ s k, p.Finds (value ++ s) n (some (.full k))) := by
  have h := Part.wordMatch hp (value.drop n)
  refine ⟨⟨_, (p.finds_iff hn).2 rfl⟩, ?_, fun k hk => ?_, ?_, fun k hk => ?_, ?_⟩
  · simp only [p.finds_iff hn]
    exact h.full_iff
  · rw [(p.finds_iff hn).1 hk] at h
    exact h.longest
  · simp only [p.finds_iff hn]
    exact h.begun_iff
  · rw [(p.finds_iff hn).1 hk] at h
    exact h.begun_length
  · simp only [p.finds_append_iff hn, p.finds_iff hn]
    exact WordMatch.eq_none_iff_forall (Part.wordMatch hp) _

end

/-- The choice of `abc` and `a`. -/
def Options.abcOrA : Options := ⟨[⟨"abc", by decide⟩, ⟨"a", by decide⟩], by simp, by decide⟩

theorem Options.texts_abcOrA : abcOrA.texts = [("abc" : Text), ("a" : Text)] := rfl

theorem Part.word_abcOrA_iff [Host] (w : Text) : (Part.options .abcOrA).Word w ↔ w = "abc" ∨ w = "a" := by
  simp only [Part.Word, Options.texts_abcOrA, List.mem_cons, List.not_mem_nil, or_false]

attribute [local instance] Host.usual

theorem Part.finds_by_words_abcOrA :
    (∀ length pos s, Part.options .abcOrA ≠ .fixedLength length pos s) ∧ 1 ≤ ("xab" : Text).length ∧
      (Part.options .abcOrA).Finds "xab" (1 : Nat) (some (.full 1)) := by
  have hp : ∀ length pos s, Part.options .abcOrA ≠ .fixedLength length pos s := fun _ _ _ h => by cases h
  have hn : 1 ≤ ("xab" : Text).length := by decide
  obtain ⟨_, hfull, hlong, _⟩ := Part.finds_by_words hp hn
  obtain ⟨k, hk⟩ := hfull.2 ⟨"a", by simp only [Part.Word, Options.texts_abcOrA]; decide, by decide⟩
  obtain ⟨w, hw, hpre, _, rfl⟩ := hlong k hk
  simp only [Part.Word, Options.texts_abcOrA, List.mem_cons, List.not_mem_nil, or_false] at hw
  rcases hw with rfl | rfl
  · exact absurd hpre (by decide)
  · exact ⟨hp, hn, hk⟩

end Typeahead
