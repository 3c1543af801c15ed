import Typeahead.Completion
import Typeahead.Proofs.Beginning
import Typeahead.Proofs.Suggestion
import Typeahead.Proofs.Validation

/-!
# Completions are the words that go on

A completion replaces what was typed of a part by a word that starts with it. Offered are, in order, the
literals that go on, a number as it stands, and a number of fixed length filled up.
-/

namespace Typeahead

def Completion.replacing (rest t : Text) : Completion := ⟨t, -rest.length, .string t⟩

def Completion.ofSuggestions (rest : Text) (suggestions : List Suggestion) : List Completion :=
  suggestions.filterMap fun s => s.value.map fun t => ⟨t, -rest.length, s.label⟩

theorem Completion.ofSuggestions_ofText (rest t : Text) :
    ofSuggestions rest [.ofText t] = [replacing rest t] := rfl

theorem Completion.ofSuggestions_template (rest : Text) (label : Json) :
    ofSuggestions rest [.template label] = [] := rfl

theorem map_ok_iff {ε α β : Type} {f : α → β} {a : α} {b : β} :
    (Except.ok a : Except ε α).map f = .ok b ↔ b = f a :=
  ⟨fun h => (by cases h; rfl), fun h => h ▸ rfl⟩

/-- The text before the cursor after a completion. -/
def Completion.applyTo (c : Completion) (before : Text) : Text :=
  slice before 0 (before.length + c.start) ++ c.text

theorem Completion.replacing_applyTo {before : Text} {n : Nat} (hn : n ≤ before.length) (t : Text) :
    (replacing (before.drop n) t).applyTo before = before.take n ++ t := by
  have hstop : (before.length : Int) + -((before.drop n).length : Int) = n := by
    rw [List.length_drop]
    omega
  rw [applyTo, replacing, hstop, ← Int.natCast_zero, slice_natCast, List.drop_zero]

theorem prefix_take_append_iff (before : Text) (n : Nat) (w : Text) :
    before <+: before.take n ++ w ↔ before.drop n <+: w := by
  have h : before.take n ++ before.drop n <+: before.take n ++ w ↔ before.drop n <+: w :=
    List.prefix_append_right_inj _
  rwa [List.take_append_drop] at h

theorem eq_take_append_of_prefix {before t : Text} (hn : n ≤ before.length) (h : before <+: t) :
    before.take n ++ t.drop n = t := by
  rw [List.prefix_iff_eq_take.1 h, List.take_take, Nat.min_eq_left hn, List.take_append_drop]

section
variable [Host]

/-! ## What is offered -/

/-- The texts that are offered for what is typed of a leaf. -/
def Leaf.offers : Leaf → Text → List Text
  | .literal l, rest => if rest <+: l.text then [l.text] else []
  | .number _, rest => if rest ≠ [] ∧ rest.all CodePoint.isDigit then [rest] else []
  | .fixedLength length _ s, rest =>
    if rest.all CodePoint.isDigit ∧ 1 ≤ rest.length ∧ rest.length ≤ length then
      [Text.padRight length s.pad rest]
    else []

def Part.offers : Part → Text → List Text
  | .leaf l, rest => l.offers rest
  | .options o, rest => o.texts.filter fun t => rest <+: t

/-- The label that is shown can be rendered, and the digits that are filled up can be held. -/
def Leaf.CanOffer : Leaf → Text → Prop
  | .fixedLength length _ s, rest =>
    (rest = [] → ∃ label, s.renderLength length = .ok label) ∧
      (rest ≠ [] → rest.all CodePoint.isDigit = true → rest.length < length → Fillable length)
  | _, _ => True

def Part.CanOffer : Part → Text → Prop
  | .leaf l, rest => l.CanOffer rest
  | .options _, _ => True

theorem Leaf.completions_of_begins (l : Leaf) {before : Text} {n : Nat} (hn : n ≤ before.length)
    (h : l.Begins (before.drop n)) :
    (l.completions before n).result =
      (l.suggestRest (before.drop n)).map (Completion.ofSuggestions (before.drop n)) := by
  obtain ⟨m, hm, hk⟩ := (l.reaches_iff _).2 h
  have hend : n + m.consumed = before.length := by
    rw [hk, List.length_drop]
    omega
  unfold Leaf.completions
  simp only [l.matchAt_natCast hn, Reported.result_bind, ok_bind, hm]
  rw [if_neg fun h => h hend, Reported.result_bind, l.result_suggestionsAt hn, hm, hk]
  cases l.suggestRest (before.drop n) <;> rfl

theorem Leaf.completions_of_not_begins (l : Leaf) {before : Text} {n : Nat} (hn : n ≤ before.length)
    (h : ¬l.Begins (before.drop n)) : (l.completions before n).result = .ok [] := by
  unfold Leaf.completions
  simp only [l.matchAt_natCast hn, Reported.result_bind, ok_bind]
  cases hm : l.matchRest (before.drop n) with
  | none => rfl
  | some m =>
    have hend : n + m.consumed ≠ before.length := by
      intro he
      refine h ((l.reaches_iff _).1 ⟨m, hm, ?_⟩)
      rw [List.length_drop]
      omega
    show (if n + m.consumed ≠ before.length then pure [] else _ : Reported QueryFault _).result = _
    rw [if_pos hend]
    rfl

theorem Leaf.suggestRest_fixedLength_iff {length : Nat} (pos : 0 < length) (s : Settings) {rest : Text}
    (h : (Leaf.fixedLength length pos s).Begins rest) (offered : List Completion) :
    ((Leaf.fixedLength length pos s).suggestRest rest).map (Completion.ofSuggestions rest) = .ok offered ↔
      (Leaf.fixedLength length pos s).CanOffer rest ∧
        offered = ((Leaf.fixedLength length pos s).offers rest).map (Completion.replacing rest) := by
  obtain ⟨hd, hle⟩ := Leaf.begins_fixedLength_iff.1 h
  have ho : rest ≠ [] → (Leaf.fixedLength length pos s).offers rest =
      [Text.padRight length s.pad (rest.takeWhile CodePoint.isDigit)] := fun hne => by
    rw [takeWhile_isDigit_of_all hd]
    exact if_pos ⟨hd, List.length_pos_iff.2 hne, hle⟩
  rw [map_eq_ok_iff]
  constructor
  · intro ⟨suggestions, hs, he⟩
    rcases Leaf.suggestRest_fixedLength_eq_ok_iff.1 hs with ⟨rfl, label, hl, rfl⟩ | ⟨hne, hsize, rfl⟩
    · exact ⟨⟨fun _ => ⟨label, hl⟩, fun hne => absurd rfl hne⟩, he⟩
    · rw [takeWhile_isDigit_of_all hd] at hsize
      rw [ho hne]
      exact ⟨⟨fun hnil => absurd hnil hne, fun _ _ => hsize⟩, he⟩
  · intro ⟨hcan, he⟩
    by_cases hnil : rest = []
    · subst hnil
      obtain ⟨label, hl⟩ := hcan.1 rfl
      exact ⟨_, Leaf.suggestRest_fixedLength_eq_ok_iff.2 (.inl ⟨rfl, label, hl, rfl⟩), he⟩
    · rw [ho hnil] at he
      have hsize := hcan.2 hnil hd
      rw [← takeWhile_isDigit_of_all hd] at hsize
      exact ⟨_, Leaf.suggestRest_fixedLength_eq_ok_iff.2 (.inr ⟨hnil, hsize, rfl⟩), he⟩

theorem Leaf.suggestRest_iff (l : Leaf) {rest : Text} (h : l.Begins rest) (offered : List Completion) :
    (l.suggestRest rest).map (Completion.ofSuggestions rest) = .ok offered ↔
      l.CanOffer rest ∧ offered = (l.offers rest).map (Completion.replacing rest) := by
  cases l with
  | literal l =>
    have hp := Leaf.begins_literal_iff.1 h
    simp only [Leaf.suggestRest, Leaf.CanOffer, Leaf.offers, hp, if_true, true_and, map_ok_iff,
      Completion.ofSuggestions_ofText, List.map_cons, List.map_nil]
  | number s =>
    have hd := Leaf.begins_number_iff.1 h
    by_cases hnil : rest = []
    · simp only [Leaf.suggestRest, Leaf.CanOffer, Leaf.offers, hnil, if_true, true_and, map_ok_iff,
        Completion.ofSuggestions_template, ne_eq, not_true, false_and, if_false, List.map_nil]
    · simp only [Leaf.suggestRest, Leaf.CanOffer, Leaf.offers, hnil, hd, if_false, true_and, map_ok_iff,
        takeWhile_isDigit_of_all hd, Completion.ofSuggestions_ofText, ne_eq, not_false_eq_true,
        and_self, if_true, List.map_cons, List.map_nil]
  | fixedLength length pos s => exact Leaf.suggestRest_fixedLength_iff pos s h offered

theorem Leaf.offers_of_not_begins (l : Leaf) {rest : Text} (h : ¬l.Begins rest) : l.offers rest = [] := by
  cases l with
  | literal l => exact if_neg fun hp => h (Leaf.begins_literal_iff.2 hp)
  | number s => exact if_neg fun hd => h (Leaf.begins_number_iff.2 hd.2)
  | fixedLength length pos s => exact if_neg fun hd => h (Leaf.begins_fixedLength_iff.2 ⟨hd.1, hd.2.2⟩)

theorem Leaf.canOffer_of_not_begins (l : Leaf) {rest : Text} (h : ¬l.Begins rest) : l.CanOffer rest := by
  cases l with
  | literal l => trivial
  | number s => trivial
  | fixedLength length pos s =>
    have hn : ¬(rest.all CodePoint.isDigit = true ∧ rest.length ≤ length) := fun hd =>
      h (Leaf.begins_fixedLength_iff.2 hd)
    refine ⟨fun hnil => absurd ⟨?_, ?_⟩ hn, fun _ hd hlt => absurd ⟨hd, Nat.le_of_lt hlt⟩ hn⟩
    · rw [hnil]; rfl
    · rw [hnil]; exact Nat.zero_le _

theorem Leaf.completions_iff (l : Leaf) {before : Text} {n : Nat} (hn : n ≤ before.length)
    (offered : List Completion) :
    (l.completions before n).result = .ok offered ↔
      l.CanOffer (before.drop n) ∧
        offered = (l.offers (before.drop n)).map (Completion.replacing (before.drop n)) := by
  by_cases h : l.Begins (before.drop n)
  · rw [l.completions_of_begins hn h, l.suggestRest_iff h]
  · rw [l.completions_of_not_begins hn h, l.offers_of_not_begins h]
    have hc := l.canOffer_of_not_begins h
    exact ⟨fun h => ⟨hc, by cases h; rfl⟩, fun h => by rw [h.2]; rfl⟩

theorem flatMap_offers_literals (rest : Text) : ∀ ls : List Literal,
    (ls.map Leaf.literal).flatMap (·.offers rest) = (ls.map Literal.text).filter fun t => rest <+: t
  | [] => rfl
  | l :: ls => by
    rw [List.map_cons, List.flatMap_cons, flatMap_offers_literals rest ls, List.map_cons, List.filter_cons]
    by_cases h : rest <+: l.text
    · simp [Leaf.offers, h]
    · simp [Leaf.offers, h]

theorem Part.offers_eq_flatMap (p : Part) (rest : Text) : p.offers rest = p.leaves.flatMap (·.offers rest) := by
  cases p with
  | leaf l => simp [Part.offers, Part.leaves]
  | options o => exact (flatMap_offers_literals rest o.literals).symm

theorem Part.canOffer_iff (p : Part) (rest : Text) : p.CanOffer rest ↔ ∀ l ∈ p.leaves, l.CanOffer rest := by
  cases p with
  | leaf l => simp [Part.CanOffer, Part.leaves]
  | options o =>
    refine ⟨fun _ l hl => ?_, fun _ => trivial⟩
    obtain ⟨w, _, rfl⟩ := List.mem_map.1 hl
    trivial

theorem Part.completions_iff (p : Part) {text : Text} {cursor n : Nat} (hn : n ≤ (text.take cursor).length)
    (offered : List Completion) :
    (p.completions n text cursor).result = .ok offered ↔
      p.CanOffer ((text.take cursor).drop n) ∧
        offered = (p.offers ((text.take cursor).drop n)).map
          (Completion.replacing ((text.take cursor).drop n)) := by
  have hle : ¬(n : Int) > (text.take cursor).length := by omega
  unfold Part.completions
  simp only [hle, if_false, Reported.result_bind]
  rw [p.offers_eq_flatMap, p.canOffer_iff, List.map_flatMap]
  have hall := Reported.mapM_ok_iff (fun l => Leaf.completions_iff l hn) p.leaves
  cases hr : (p.leaves.mapM fun l : Leaf => l.completions (text.take cursor) n).result with
  | error e =>
    refine ⟨fun h => (by cases h), fun h => ?_⟩
    rw [(hall _).2 ⟨h.1, rfl⟩] at hr
    cases hr
  | ok found =>
    obtain ⟨hp, rfl⟩ := (hall found).1 hr
    rw [List.flatMap_def]
    exact ⟨fun h => ⟨hp, by cases h; rfl⟩, fun h => by rw [h.2]; rfl⟩

/-! ## Offered texts are words -/

theorem Leaf.mem_offers_literal {l : Literal} {rest w : Text} :
    w ∈ (Leaf.literal l).offers rest ↔ rest <+: l.text ∧ w = l.text := by
  rw [Leaf.offers, List.mem_ite_nil_right, List.mem_singleton]

theorem Leaf.mem_offers_number (s : Settings) {rest w : Text} :
    w ∈ (Leaf.number s).offers rest ↔ (Leaf.number s).Word rest ∧ w = rest := by
  rw [Leaf.offers, List.mem_ite_nil_right, List.mem_singleton]
  rfl

theorem Leaf.mem_offers_fixedLength {length : Nat} (pos : 0 < length) (s : Settings) {rest w : Text} :
    w ∈ (Leaf.fixedLength length pos s).offers rest ↔
      (rest.all CodePoint.isDigit = true ∧ 1 ≤ rest.length ∧ rest.length ≤ length) ∧
        w = Text.padRight length s.pad rest := by
  rw [Leaf.offers, List.mem_ite_nil_right, List.mem_singleton]

theorem Part.mem_offers {p : Part} {rest w : Text} (h : w ∈ p.offers rest) : p.Word w ∧ rest <+: w := by
  cases p with
  | options o =>
    obtain ⟨hw, hp⟩ := List.mem_filter.1 h
    exact ⟨hw, by simpa using hp⟩
  | leaf l =>
    cases l with
    | literal l =>
      obtain ⟨hp, rfl⟩ := Leaf.mem_offers_literal.1 h
      exact ⟨rfl, hp⟩
    | number s =>
      obtain ⟨hw, rfl⟩ := (Leaf.mem_offers_number s).1 h
      exact ⟨hw, List.prefix_refl _⟩
    | fixedLength length pos s =>
      obtain ⟨⟨hd, _, hle⟩, rfl⟩ := (Leaf.mem_offers_fixedLength pos s).1 h
      exact ⟨Leaf.word_padRight pos s s.pad_digit hd hle, List.prefix_append _ _⟩

theorem Part.mem_offers_self {p : Part} {w : Text} (h : p.Word w) : w ∈ p.offers w := by
  cases p with
  | options o => exact List.mem_filter.2 ⟨h, by simp⟩
  | leaf l =>
    cases l with
    | literal l => exact Leaf.mem_offers_literal.2 ⟨h ▸ List.prefix_refl _, h⟩
    | number s => exact (Leaf.mem_offers_number s).2 ⟨h, rfl⟩
    | fixedLength length pos s =>
      obtain ⟨hlen, hd⟩ := h
      refine (Leaf.mem_offers_fixedLength pos s).2 ⟨⟨hd, by omega, by omega⟩, ?_⟩
      rw [Text.padRight_of_le s.pad (Nat.le_of_eq hlen.symm)]

theorem Part.mem_offers_iff {p : Part} (hp : (∃ l, p = .literal l) ∨ ∃ o, p = .options o) (rest w : Text) :
    w ∈ p.offers rest ↔ p.Word w ∧ rest <+: w := by
  refine ⟨Part.mem_offers, fun ⟨hw, hr⟩ => ?_⟩
  rcases hp with ⟨l, rfl⟩ | ⟨o, rfl⟩
  · exact Leaf.mem_offers_literal.2 ⟨hw ▸ hr, hw⟩
  · exact List.mem_filter.2 ⟨hw, by simpa using hr⟩

theorem Part.canOffer_of_literals {p : Part} (hp : (∃ l, p = .literal l) ∨ ∃ o, p = .options o) (rest : Text) :
    p.CanOffer rest := by
  rcases hp with ⟨l, rfl⟩ | ⟨o, rfl⟩
  · trivial
  · trivial

theorem Part.canOffer_of_mem {p : Part} {rest w : Text} (hc : p.CanOffer rest) (hw : w ∈ p.offers rest) :
    p.CanOffer w := by
  cases p with
  | options o => trivial
  | leaf l =>
    cases l with
    | literal l => trivial
    | number s => trivial
    | fixedLength length pos s =>
      obtain ⟨⟨hd, hpos, hle⟩, rfl⟩ := (Leaf.mem_offers_fixedLength pos s).1 hw
      have hlen := Text.length_padRight length s.pad rest
      refine ⟨fun hnil => ?_, fun _ _ hlt => ?_⟩
      · rw [hnil, List.length_nil] at hlen
        omega
      · omega

/-! ## Applying a completion -/

section
variable {p : Part} {text : Text} {cursor n : Nat}

theorem Part.completions_of_lt (h : (text.take cursor).length < n) :
    (p.completions n text cursor).result = .ok [] := by
  have hgt : (n : Int) > (text.take cursor).length := by omega
  unfold Part.completions
  simp only [hgt, if_true]
  rfl

theorem Part.exists_offer {offered : List Completion} {c : Completion}
    (ho : (p.completions n text cursor).result = .ok offered) (hc : c ∈ offered) :
    n ≤ (text.take cursor).length ∧ p.CanOffer ((text.take cursor).drop n) ∧
      ∃ w ∈ p.offers ((text.take cursor).drop n),
        Completion.replacing ((text.take cursor).drop n) w = c := by
  rcases Nat.lt_or_ge (text.take cursor).length n with hlt | hn
  · rw [Part.completions_of_lt hlt] at ho
    cases ho
    cases hc
  · obtain ⟨hcan, rfl⟩ := (p.completions_iff hn offered).1 ho
    exact ⟨hn, hcan, List.mem_map.1 hc⟩

/-- What follows from an offer: the word stands at the end of the text that the completion makes, where it is
accepted and offered as it stands. -/
theorem Part.offer_holds {before : Text} {w : Text} (hn : n ≤ before.length)
    (hcan : p.CanOffer (before.drop n)) (hw : w ∈ p.offers (before.drop n)) {t : Text}
    (ht : before.take n ++ w = t) :
    before <+: t ∧ p.Finds t n (some (.full (t.length - n))) ∧ p.Accepts n false t ∧
      ∃ again, (p.completions n t t.length).result = .ok again ∧ ∃ c ∈ again, c.applyTo t = t := by
  obtain ⟨hword, hpre⟩ := Part.mem_offers hw
  have hlen : t.length = n + w.length := by
    rw [← ht, List.length_append, List.length_take_of_le hn]
  have hnt : n ≤ t.length := by omega
  have hdrop : t.drop n = w := ht ▸ drop_take_append hn w
  have hfull : p.Finds t n (some (.full (t.length - n))) := by
    rw [p.finds_iff hnt, hdrop, Part.full_of_word hword, hlen]
    congr 2
    omega
  refine ⟨ht ▸ (prefix_take_append_iff before n w).2 hpre, hfull, ?_, ?_⟩
  · rw [p.accepts_iff_word, hdrop]
    exact ⟨hnt, hword⟩
  · have hnow : n ≤ (t.take t.length).length := by rwa [List.take_length]
    refine ⟨_, (p.completions_iff hnow _).2 ⟨?_, rfl⟩, Completion.replacing w w, ?_, ?_⟩
    · rw [List.take_length, hdrop]
      exact Part.canOffer_of_mem hcan hw
    · rw [List.take_length, hdrop]
      exact List.mem_map.2 ⟨w, Part.mem_offers_self hword, rfl⟩
    · rw [← hdrop, Completion.replacing_applyTo hnt, List.take_append_drop]

end

/-! ## What a completion leads to -/

/-- **Completions are accepted.** A completion touches nothing before the part and loses nothing that was
typed. The text it makes is matched in full, up to its end, is accepted, and is offered again as it stands. -/
theorem Part.completion_accepted {p : Part} {n cursor : Nat} {text : Text} {offered : List Completion}
    {c : Completion} {t : Text} (ho : (p.completions n text cursor).result = .ok offered) (hc : c ∈ offered)
    (ht : c.applyTo (text.take cursor) = t) :
    (-((text.take cursor).length - n : Int) ≤ c.start ∧ c.start ≤ 0) ∧ text.take cursor <+: t ∧
      p.Finds t n (some (.full (t.length - n))) ∧ p.Accepts n false t ∧
      ∃ again, (p.completions n t t.length).result = .ok again ∧ ∃ c ∈ again, c.applyTo t = t := by
  obtain ⟨hn, hcan, w, hw, rfl⟩ := Part.exists_offer ho hc
  rw [Completion.replacing_applyTo hn] at ht
  refine ⟨?_, Part.offer_holds hn hcan hw ht⟩
  simp only [Completion.replacing, List.length_drop]
  omega

end

section
attribute [local instance] Host.usual

theorem Part.completion_accepted_12 :
    ∃ offered, ((Part.fixedLength 3 (by decide) default).completions 1 "x12y" 3).result = .ok offered ∧
      Completion.replacing "12" "120" ∈ offered ∧
      (Completion.replacing "12" "120").applyTo (("x12y" : Text).take 3) = "x120" ∧
      (Part.fixedLength 3 (by decide) default).Accepts (1 : Nat) false "x120" := by
  have hn : 1 ≤ (("x12y" : Text).take 3).length := by decide
  have hcan : (Part.fixedLength 3 (by decide) default).CanOffer "12" :=
    And.intro (fun h => absurd h (by decide)) fun _ _ _ => by decide
  have ho := (Part.completions_iff (Part.fixedLength 3 (by decide) default) hn _).2 ⟨hcan, rfl⟩
  have hmem : Completion.replacing "12" "120" ∈
      ((Part.fixedLength 3 (by decide) default).offers "12").map (Completion.replacing "12") :=
    List.mem_map.2 ⟨"120", by decide, rfl⟩
  have ht : (Completion.replacing "12" "120").applyTo (("x12y" : Text).take 3) = "x120" := rfl
  obtain ⟨_, _, _, haccepts, _⟩ := Part.completion_accepted ho hmem ht
  exact ⟨_, ho, hmem, ht, haccepts⟩

end

section
variable [Host]

/-- **The completions are the words that go on.** Nothing is offered before the part. From there on, what is
offered, if it can be, are the words that go on, and with literals the completions make just the texts
that are accepted and go on. -/
theorem Part.completions_are_offers (p : Part) (n : Nat) {text : Text} {cursor : Nat}
    (hc : cursor ≤ text.length) :
    (cursor < n → (p.completions n text cursor).result = .ok []) ∧
      (n ≤ cursor → ∀ offered, (p.completions n text cursor).result = .ok offered ↔
        p.CanOffer ((text.take cursor).drop n) ∧
          offered = (p.offers ((text.take cursor).drop n)).map fun t =>
            ⟨t, -((text.take cursor).drop n).length, .string t⟩) ∧
      (n ≤ cursor → ((∃ l, p = .literal l) ∨ ∃ o, p = .options o) →
        ∃ offered, (p.completions n text cursor).result = .ok offered ∧
          ∀ t, (∃ c ∈ offered, c.applyTo (text.take cursor) = t) ↔
            text.take cursor <+: t ∧ p.Accepts n false t) := by
  have hlen : (text.take cursor).length = cursor := List.length_take_of_le hc
  refine ⟨fun hlt => Part.completions_of_lt (by omega), fun hn => p.completions_iff (by omega), ?_⟩
  intro hn hp
  have hn' : n ≤ (text.take cursor).length := by omega
  refine ⟨_, (p.completions_iff hn' _).2 ⟨Part.canOffer_of_literals hp _, rfl⟩, fun t => ?_⟩
  rw [p.accepts_iff_word]
  constructor
  · intro ⟨c, hmem, ht⟩
    obtain ⟨w, hw, rfl⟩ := List.mem_map.1 hmem
    rw [Completion.replacing_applyTo hn'] at ht
    obtain ⟨hword, hpre⟩ := (Part.mem_offers_iff hp _ _).1 hw
    have hlong := (prefix_take_append_iff (text.take cursor) n w).2 hpre
    rw [ht] at hlong
    refine ⟨hlong, Nat.le_trans hn' hlong.length_le, ?_⟩
    rwa [← ht, drop_take_append hn']
  · intro ⟨hlong, _, hword⟩
    have ht := eq_take_append_of_prefix hn' hlong
    have hpre : (text.take cursor).drop n <+: t.drop n := by
      rwa [← prefix_take_append_iff, ht]
    refine ⟨_, List.mem_map.2 ⟨_, (Part.mem_offers_iff hp _ _).2 ⟨hword, hpre⟩, rfl⟩, ?_⟩
    rw [Completion.replacing_applyTo hn', ht]

end

attribute [local instance] Host.usual

theorem Part.completions_are_offers_abcOrA :
    3 ≤ ("xab!" : Text).length ∧ ((Part.options .abcOrA).completions 1 "xab!" 3).result =
      .ok [⟨"abc", -2, .string "abc"⟩] := by
  have hc : 3 ≤ ("xab!" : Text).length := by decide
  obtain ⟨_, hlist, _⟩ := Part.completions_are_offers (.options .abcOrA) 1 hc
  exact ⟨hc, (hlist (by decide) _).2 ⟨trivial, rfl⟩⟩

end Typeahead
