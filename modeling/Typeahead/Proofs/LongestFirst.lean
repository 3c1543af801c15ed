import Mathlib.Data.List.Pairwise
import Typeahead.Proofs.Match

/-!
# Choices, longest first

Items that are put in order by size keep their order within each size, and this says all about the
result: it is the one list in order that has the same items of each size in the same order. A choice is
made of any texts but the empty one, and keeps them so.
-/

namespace Typeahead

section
variable {α β : Type} {size : α → Nat}

/-! ## Items of one size -/

theorem perm_longestFirst (items : List α) : (longestFirst size items).Perm items := List.mergeSort_perm ..

theorem filter_longestFirst (items : List α) (n : Nat) :
    (longestFirst size items).filter (size · = n) = items.filter (size · = n) := by
  -- items of one size are in order as they stand, so sorting leaves them a sublist; none is lost
  have hordered : (items.filter (size · = n)).Pairwise fun a b => decide (size b ≤ size a) = true := by
    apply List.pairwise_of_forall_mem_list
    intro a ha b hb
    have hsa : size a = n := by simpa using (List.mem_filter.1 ha).2
    have hsb : size b = n := by simpa using (List.mem_filter.1 hb).2
    rw [hsa, hsb]
    exact decide_eq_true (Nat.le_refl n)
  have hsub : (items.filter (size · = n)).Sublist (longestFirst size items) := by
    refine List.sublist_mergeSort ?_ ?_ hordered List.filter_sublist
    · simp only [decide_eq_true_eq]
      omega
    · simp only [Bool.or_eq_true, decide_eq_true_eq]
      omega
  have hfilter := hsub.filter (size · = n)
  simp only [List.filter_filter, Bool.and_self] at hfilter
  exact (hfilter.eq_of_length ((perm_longestFirst items).filter _).length_eq.symm).symm

theorem mem_of_filter_eq {xs ys : List α} (h : ∀ n, xs.filter (size · = n) = ys.filter (size · = n)) {a : α}
    (ha : a ∈ xs) : a ∈ ys := by
  have hmem : a ∈ xs.filter (size · = size a) := List.mem_filter.2 ⟨ha, by simp⟩
  rw [h] at hmem
  exact (List.mem_filter.1 hmem).1

/-- Lists in order are equal if they have the same items of each size. -/
theorem eq_of_filter_eq : ∀ {xs ys : List α}, xs.Pairwise (fun x y => size y ≤ size x) →
    ys.Pairwise (fun x y => size y ≤ size x) →
      (∀ n, xs.filter (size · = n) = ys.filter (size · = n)) → xs = ys
  | [], [], _, _, _ => rfl
  | [], b :: ys, _, _, h => absurd (h (size b)) (by simp)
  | a :: xs, [], _, _, h => absurd (h (size a)) (by simp)
  | a :: xs, b :: ys, hx, hy, h => by
    obtain ⟨hxa, hxs⟩ := List.pairwise_cons.1 hx
    obtain ⟨hyb, hys⟩ := List.pairwise_cons.1 hy
    -- each of the first two is in the other list, where none is longer than the other one
    have hab : size a ≤ size b := by
      rcases List.mem_cons.1 (mem_of_filter_eq h (List.mem_cons_self ..)) with he | hm
      · exact Nat.le_of_eq (congrArg size he)
      · exact hyb a hm
    have hba : size b ≤ size a := by
      rcases List.mem_cons.1 (mem_of_filter_eq (fun n => (h n).symm) (List.mem_cons_self ..)) with he | hm
      · exact Nat.le_of_eq (congrArg size he)
      · exact hxa b hm
    have hsize : size b = size a := Nat.le_antisymm hba hab
    have hfirst := h (size a)
    simp only [List.filter_cons, hsize, decide_true, if_true, List.cons.injEq] at hfirst
    obtain ⟨rfl, _⟩ := hfirst
    have hrest : ∀ n, xs.filter (size · = n) = ys.filter (size · = n) := by
      intro n
      have hn := h n
      by_cases ha : size a = n
      · simpa [List.filter_cons, ha] using hn
      · simpa [List.filter_cons, ha] using hn
    rw [eq_of_filter_eq hxs hys hrest]

theorem longestFirst_of_pairwise {items : List α} (h : items.Pairwise fun x y => size y ≤ size x) :
    longestFirst size items = items :=
  eq_of_filter_eq (pairwise_longestFirst size items) h (filter_longestFirst items)

theorem longestFirst_map (f : β → α) (items : List β) :
    longestFirst size (items.map f) = (longestFirst (fun b => size (f b)) items).map f := by
  refine eq_of_filter_eq (pairwise_longestFirst size _) ?_ fun n => ?_
  · rw [List.pairwise_map]
    exact pairwise_longestFirst _ items
  · rw [filter_longestFirst, List.filter_map, List.filter_map]
    exact congrArg (List.map f) (filter_longestFirst items n).symm

theorem longestFirst_eq_iff {xs ys : List α} :
    longestFirst size xs = longestFirst size ys ↔ ∀ n, xs.filter (size · = n) = ys.filter (size · = n) := by
  constructor
  · intro h n
    rw [← filter_longestFirst xs, h, filter_longestFirst]
  · intro h
    refine eq_of_filter_eq (pairwise_longestFirst size xs) (pairwise_longestFirst size ys) fun n => ?_
    rw [filter_longestFirst, filter_longestFirst, h]

end

/-! ## Literals -/

theorem Literal.text_injective : Function.Injective Literal.text := by
  intro a b h
  cases a
  cases h
  rfl

theorem exists_literals {xs : List Text} (h : [] ∉ xs) : ∃ ls : List Literal, ls.map Literal.text = xs :=
  ⟨xs.pmap Literal.mk fun t ht he => h (he ▸ ht), by rw [List.map_pmap, List.pmap_eq_map, List.map_id']⟩

theorem Options.texts_ofList (ls : List Literal) (h : ls ≠ []) :
    (ofList ls h).texts = longestFirst List.length (ls.map Literal.text) :=
  (longestFirst_map Literal.text ls).symm

theorem Options.mem_texts_ofList {ls : List Literal} {h : ls ≠ []} {t : Text} :
    t ∈ (ofList ls h).texts ↔ t ∈ ls.map Literal.text := by
  rw [texts_ofList]
  exact (perm_longestFirst _).mem_iff

theorem Options.eq_iff_texts {o o' : Options} : o.literals = o'.literals ↔ o.texts = o'.texts :=
  (List.map_inj_right fun _ _ h => Literal.text_injective h).symm

theorem Options.ofList_longestFirst (ls : List Literal) (h : longestFirst Literal.length ls ≠ []) (h' : ls ≠ []) :
    ofList (longestFirst Literal.length ls) h = ofList ls h' := by
  simp only [ofList, longestFirst_of_pairwise (pairwise_longestFirst Literal.length ls)]

theorem Options.ofList_literals (o : Options) : ofList o.literals o.ne_nil = o := by
  cases o with
  | mk ls hne hsorted => simp only [ofList, longestFirst_of_pairwise hsorted]

/-! ## Making a choice -/

/-- Values without a length count as empty. -/
def Json.size (value : Json) : Nat := value.length?.getD 0

namespace Part

theorem mapM_of_ok {ε α β : Type} {f : α → Except ε β} {g : α → β} (h : ∀ a, f a = .ok (g a)) (xs : List α) :
    xs.mapM f = .ok (xs.map g) := by
  rw [show f = fun a => pure (g a) from funext h]
  exact List.mapM_pure

theorem mapM_measure {items : List Json} (h : ∀ item ∈ items, item.length? ≠ none) :
    items.mapM measure = .ok (items.map fun item => (item.size, item)) := by
  induction items with
  | nil => rfl
  | cons item rest ih =>
    obtain ⟨hitem, hrest⟩ := List.forall_mem_cons.1 h
    obtain ⟨n, hn⟩ := Option.ne_none_iff_exists'.1 hitem
    have hmeasure : measure item = .ok (item.size, item) := by simp [measure, Json.size, hn]
    rw [List.mapM_cons, hmeasure, ok_bind, ih hrest]
    rfl

section
variable [Host]

theorem checkLiteral_text (l : Literal) : checkLiteral (.string l.text) = .ok l := dif_pos l.ne_nil

theorem makeOptions_of_measured {items : List Json} (hne : items ≠ [])
    (hall : ∀ item ∈ items, item.length? ≠ none) :
    makeOptions (.array items) = (longestFirst Json.size items).mapM checkLiteral >>= fun literals =>
      if h : literals ≠ [] then .ok (options (.ofList literals h)) else .error .noOptions := by
  have hsorted : longestFirst (·.1) (items.map fun item => (item.size, item)) =
      (longestFirst Json.size items).map fun item => (item.size, item) := longestFirst_map _ items
  unfold makeOptions
  simp only [collected, ok_bind, hne, if_false, mapM_measure hall, hsorted, List.mapM_map]
  rfl

theorem makeOptions_literals (ls : List Literal) (h : ls ≠ []) :
    makeOptions (.array (ls.map fun l => .string l.text)) = .ok (.options (.ofList ls h)) := by
  have hsorted : longestFirst Json.size (ls.map fun l => .string l.text) =
      (longestFirst Literal.length ls).map fun l => .string l.text := longestFirst_map _ ls
  have hchecked : ((longestFirst Literal.length ls).map fun l => Json.string l.text).mapM checkLiteral =
      .ok (longestFirst Literal.length ls) := by
    rw [List.mapM_map]
    exact (mapM_of_ok checkLiteral_text _).trans (by rw [List.map_id'])
  rw [makeOptions_of_measured (by simpa using h) (by simp [Json.length?]), hsorted, hchecked, ok_bind,
    dif_pos (longestFirst_ne_nil _ h), Options.ofList_longestFirst]

theorem makeOptions_texts (o : Options) : makeOptions (.array (o.texts.map .string)) = .ok (.options o) := by
  rw [Options.texts, List.map_map]
  exact (makeOptions_literals o.literals o.ne_nil).trans (by rw [Options.ofList_literals])

theorem mapM_makeLiteral_texts (o : Options) :
    o.texts.mapM (fun t => makeLiteral (.string t)) = .ok ((Part.options o).leaves.map .leaf) := by
  have hmake : ∀ l : Literal, makeLiteral (.string l.text) = .ok (literal l) := fun l => by
    rw [makeLiteral, checkLiteral_text]
    rfl
  rw [Options.texts, List.mapM_map, Part.leaves, List.map_map]
  exact mapM_of_ok hmake o.literals

/-- **Options in order.** A choice has all the options that it is given, as often as they are given, longest first,
and those of one length in the order given. Its leaves are the literals made of them. Made of its own options,
the choice is the same again. -/
theorem options_in_order {xs : List Text} (hne : xs ≠ []) (hx : [] ∉ xs) :
    ∃ o : Options, makeOptions (.array (xs.map .string)) = .ok (.options o) ∧
      o.texts.Perm xs ∧ o.texts.Pairwise (fun t u => u.length ≤ t.length) ∧
      (∀ n, o.texts.filter (·.length = n) = xs.filter (·.length = n)) ∧
      o.texts.mapM (fun t => makeLiteral (.string t)) = .ok ((Part.options o).leaves.map .leaf) ∧
      makeOptions (.array (o.texts.map .string)) = .ok (.options o) ∧ (Part.options o).same (.options o) = true := by
  obtain ⟨ls, rfl⟩ := exists_literals hx
  have hls : ls ≠ [] := by simpa using hne
  refine ⟨.ofList ls hls, ?_, ?_, ?_, ?_, mapM_makeLiteral_texts _, makeOptions_texts _, by simp [Part.same]⟩
  · rw [List.map_map]
    exact makeOptions_literals ls hls
  · rw [Options.texts_ofList]
    exact perm_longestFirst _
  · rw [Options.texts_ofList]
    exact pairwise_longestFirst _ _
  · rw [Options.texts_ofList]
    exact filter_longestFirst _

end

attribute [local instance] Host.usual

/-- `put` and `get` are of one length, so they stay as they come. -/
theorem options_in_order_put :
    ∃ o : Options, makeOptions (.array [.string "put", .string "get", .string "post"]) = .ok (.options o) ∧
      o.texts.filter (·.length = 3) = [("put" : Text), "get"] := by
  have hne : [("put" : Text), "get", "post"] ≠ [] := by simp
  have hx : [] ∉ [("put" : Text), "get", "post"] := by decide
  obtain ⟨o, hmake, _, _, hfilter, _⟩ := options_in_order hne hx
  exact ⟨o, hmake, (hfilter 3).trans (by decide)⟩

end Part

end Typeahead
