import Typeahead.Proofs.Suggestion
import Typeahead.Proofs.Validation

/-!
# Suggestions in the place of what was typed

A suggested text is a word of the part. Put in the place of what was matched it is matched in full, also
before what follows there: a literal and a run of digits end where they did.
-/

namespace Typeahead

theorem Suggestion.eq_of_mem_ofText {s : Suggestion} {t v : Text} (hs : s ∈ [ofText t]) (hv : s.value = some v) :
    s = ofText v ∧ t = v := by
  obtain rfl := List.mem_singleton.1 hs
  cases hv
  exact ⟨rfl, rfl⟩

theorem Suggestion.value_of_mem_template {s : Suggestion} {label : Json} (hs : s ∈ [template label]) : s.value = none := by
  obtain rfl := List.mem_singleton.1 hs
  rfl

section
variable [Host]

/-! ## Words before other text -/

/-- A literal is found before any text, and digits are before what is no digit. -/
theorem Leaf.matchRest_word_append {l : Leaf} {w tail : Text} (hw : l.Word w)
    (htail : (∃ lit, l = .literal lit) ∨ EndsRun tail) : l.matchRest (w ++ tail) = some (.full w.length) := by
  cases l with
  | literal l =>
    have hm := l.wordMatch (w ++ tail)
    obtain ⟨k, hk⟩ := hm.full_iff.2 ⟨w, hw, List.prefix_append _ _⟩
    rw [Leaf.matchRest]
    rw [hk] at hm ⊢
    obtain ⟨v, hv, _, _, rfl⟩ := hm.longest
    rw [hv, ← hw]
  | number s =>
    obtain ⟨hne, hall⟩ := hw
    rcases htail with ⟨_, he⟩ | htail
    · cases he
    · rw [Leaf.matchRest, numberMatchRest_append hall htail, if_neg fun h => hne h.1, if_neg hne]
  | fixedLength length pos s =>
    obtain ⟨hlen, hall⟩ := hw
    rcases htail with ⟨_, he⟩ | htail
    · cases he
    · have hne : w ≠ [] := List.length_pos_iff.1 (hlen ▸ pos)
      exact (full_append_iff hall htail).2 ⟨fun h => hne h.1, hlen, rfl⟩

/-! ## What leaves suggest -/

/-- A text that goes in the place of what is consumed: a word that starts with it, found before what follows. -/
structure Leaf.Replaces (l : Leaf) (rest : Text) (consumed : Nat) (v : Text) : Prop where
  word : l.Word v
  starts : rest.take consumed <+: v
  full : l.matchRest (v ++ rest.drop consumed) = some (.full v.length)

theorem Leaf.replaces_run {l : Leaf} {run tail v : Text} (htail : EndsRun tail) (hv : l.Word v)
    (hp : run <+: v) : l.Replaces (run ++ tail) run.length v := by
  refine ⟨hv, ?_, ?_⟩
  · rwa [List.take_left]
  · rw [List.drop_left]
    exact Leaf.matchRest_word_append hv (.inr htail)

section
variable {rest : Text} {m : Match} {suggestions : List Suggestion} {s : Suggestion} {v : Text}

theorem Literal.replaces (l : Literal) (hm : l.matchRest rest = some m) :
    ∃ k : Nat, m.consumed = k ∧ (Leaf.literal l).Replaces rest k l.text := by
  have hw := l.wordMatch rest
  rw [hm] at hw
  obtain ⟨k, hk, _⟩ := hw.exists_consumed
  refine ⟨k, hk, rfl, ?_, Leaf.matchRest_word_append rfl (.inl ⟨l, rfl⟩)⟩
  generalize hfound : some m = found at hw
  cases hw with
  | @full w hw hp _ =>
    cases hfound
    have hlen : k = w.length := by
      rw [consumed_full] at hk
      omega
    have htake : rest.take k = l.text := by
      rw [hlen, ← List.prefix_iff_eq_take.1 hp]
      exact hw
    exact htake ▸ List.prefix_refl _
  | @begun w _ hw hr =>
    cases hfound
    exact (List.take_prefix _ _).trans (hw ▸ hr)
  | apart => cases hfound

theorem Leaf.suggested_number {settings : Settings} (hm : (Leaf.number settings).matchRest rest = some m)
    (ho : (Leaf.number settings).suggestRest rest = .ok suggestions) (hs : s ∈ suggestions)
    (hv : s.value = some v) :
    s = .ofText v ∧ ∃ k : Nat, m.consumed = k ∧ (Leaf.number settings).Replaces rest k v := by
  obtain ⟨run, tail, rfl, hrun, htail⟩ := exists_run rest
  rw [Leaf.suggestRest, takeWhile_isDigit_append hrun htail] at ho
  split at ho
  · cases ho
    rw [Suggestion.value_of_mem_template hs] at hv
    cases hv
  · next hne =>
    cases ho
    obtain ⟨rfl, rfl⟩ := Suggestion.eq_of_mem_ofText hs hv
    have hrne : run ≠ [] := by
      intro hnil
      have htne : tail ≠ [] := fun ht => hne (by rw [hnil, ht]; rfl)
      rw [Leaf.matchRest, numberMatchRest_append hrun htail, if_pos ⟨hnil, htne⟩] at hm
      cases hm
    have hreplaces := Leaf.replaces_run (l := .number settings) htail ⟨hrne, hrun⟩ (List.prefix_refl run)
    exact ⟨rfl, run.length, consumed_number hrun htail hm, hreplaces⟩

theorem Leaf.suggested_fixedLength {length : Nat} {pos : 0 < length} {settings : Settings}
    (hm : (Leaf.fixedLength length pos settings).matchRest rest = some m)
    (ho : (Leaf.fixedLength length pos settings).suggestRest rest = .ok suggestions) (hs : s ∈ suggestions)
    (hv : s.value = some v) :
    s = .ofText v ∧ ∃ k : Nat, m.consumed = k ∧ (Leaf.fixedLength length pos settings).Replaces rest k v := by
  obtain ⟨run, tail, rfl, hrun, htail⟩ := exists_run rest
  have hle : run.length ≤ length := ((matched_append_iff hrun htail).1 ⟨m, hm⟩).2
  rcases Leaf.suggestRest_fixedLength_eq_ok_iff.1 ho with ⟨_, label, _, rfl⟩ | ⟨_, _, rfl⟩
  · rw [Suggestion.value_of_mem_template hs] at hv
    cases hv
  · rw [takeWhile_isDigit_append hrun htail] at hs
    obtain ⟨rfl, rfl⟩ := Suggestion.eq_of_mem_ofText hs hv
    have hword := Leaf.word_padRight pos settings settings.pad_digit hrun hle
    have hpad : run <+: Text.padRight length settings.pad run := List.prefix_append _ _
    exact ⟨rfl, run.length, consumed_fixedLength hrun htail hm, Leaf.replaces_run htail hword hpad⟩

theorem Leaf.suggested_replaces {l : Leaf} (hm : l.matchRest rest = some m)
    (ho : l.suggestRest rest = .ok suggestions) (hs : s ∈ suggestions) (hv : s.value = some v) :
    s = .ofText v ∧ ∃ k : Nat, m.consumed = k ∧ l.Replaces rest k v := by
  cases l with
  | literal l =>
    cases ho
    obtain ⟨rfl, rfl⟩ := Suggestion.eq_of_mem_ofText hs hv
    exact ⟨rfl, l.replaces hm⟩
  | number settings => exact Leaf.suggested_number hm ho hs hv
  | fixedLength length pos settings => exact Leaf.suggested_fixedLength hm ho hs hv

/-! ## What choices suggest -/

theorem Options.suggested {o : Options} (ho : (Part.options o).suggestRest rest = .ok suggestions)
    (hs : s ∈ suggestions) (hv : s.value = some v) :
    s = .ofText v ∧ v ∈ o.texts ∧ Text.Agree v rest := by
  cases ho
  obtain ⟨t, ht, rfl⟩ := List.mem_map.1 hs
  cases hv
  obtain ⟨hmem, hagree⟩ := List.mem_filter.1 ht
  exact ⟨rfl, hmem, by simpa using hagree⟩

end

/-! ## Any position -/

theorem Part.matched_of_suggestionsAt {p : Part} {value : Text} {n : Nat} (hn : n ≤ value.length)
    {suggestions : List Suggestion} (ho : (p.suggestionsAt value n).result = .ok suggestions) :
    ∃ m, p.matchRest (value.drop n) = some m ∧ p.suggestRest (value.drop n) = .ok suggestions := by
  rw [p.result_suggestionsAt hn] at ho
  cases hm : p.matchRest (value.drop n) with
  | none =>
    rw [hm] at ho
    cases ho
  | some m =>
    rw [hm] at ho
    exact ⟨m, rfl, ho⟩

/-- **Suggestions complete the part.** A suggestion with a text shows it, and the text is matched in full where
the part starts. Of literals it begins the rest or goes on from it. Without a choice it starts with what is
consumed, and in its place it is matched in full before what follows. -/
theorem Part.suggestion_completes {p : Part} {value : Text} {n : Nat} (hn : n ≤ value.length)
    {suggestions : List Suggestion} (ho : (p.suggestionsAt value n).result = .ok suggestions)
    {s : Suggestion} (hs : s ∈ suggestions) {v : Text} (hv : s.value = some v) :
    s.label = .string v ∧ p.Finds (value.take n ++ v) n (some (.full v.length)) ∧
      (((∃ l, p = .literal l) ∨ ∃ o, p = .options o) → v <+: value.drop n ∨ value.drop n <+: v) ∧
      ∃ m, ∃ k : Nat, p.Finds value n (some m) ∧ m.consumed = k ∧
        ((∃ l, p = .leaf l) → (value.drop n).take k <+: v ∧
          p.Finds (value.take n ++ v ++ value.drop (n + k)) n (some (.full v.length))) := by
  obtain ⟨m, hm, ho'⟩ := Part.matched_of_suggestionsAt hn ho
  have hfinds : p.Finds value n (some m) := (p.finds_iff hn).2 hm
  cases p with
  | leaf l =>
    obtain ⟨rfl, k, hk, hword, hstarts, hfull⟩ := Leaf.suggested_replaces hm ho' hs hv
    refine ⟨rfl, ?_, fun hlit => ?_, m, k, hfinds, hk, fun _ => ⟨hstarts, ?_⟩⟩
    · exact (Part.finds_take_append_iff _ hn v).2 (Part.full_of_word hword)
    · rcases hlit with ⟨l', he⟩ | ⟨o, he⟩
      · cases he
        cases hword
        exact Literal.agree_of_matched hm
      · cases he
    · rw [List.append_assoc, Part.finds_take_append_iff _ hn, ← List.drop_drop]
      exact hfull
  | options o =>
    obtain ⟨rfl, hword, hagree⟩ := Options.suggested ho' hs hv
    obtain ⟨k, hk, _⟩ := Part.exists_consumed hm
    refine ⟨rfl, ?_, fun _ => hagree, m, k, hfinds, hk, fun hleaf => ?_⟩
    · exact (Part.finds_take_append_iff _ hn v).2 (Part.full_of_word hword)
    · obtain ⟨l, he⟩ := hleaf
      cases he

end

attribute [local instance] Host.usual

theorem Part.suggestion_completes_12 :
    1 ≤ ("x12y" : Text).length ∧
      ((Part.fixedLength 3 (by decide) default).suggestionsAt "x12y" (1 : Nat)).result =
        .ok [.ofText "120"] ∧
      (Part.fixedLength 3 (by decide) default).Finds "x120y" (1 : Nat) (some (.full 3)) := by
  have hn : 1 ≤ ("x12y" : Text).length := by decide
  have ho : ((Part.fixedLength 3 (by decide) default).suggestionsAt "x12y" (1 : Nat)).result =
      .ok [.ofText "120"] := rfl
  obtain ⟨_, _, _, m, k, hm, hk, hleaf⟩ :=
    Part.suggestion_completes hn ho (List.mem_singleton.2 rfl) (v := "120") rfl
  have hm' := (Part.finds_iff _ hn).1 hm
  cases hm'
  cases Int.ofNat.inj hk
  exact ⟨hn, ho, (hleaf ⟨_, rfl⟩).2⟩

end Typeahead
