import Typeahead.Proofs.LongestFirst

/-!
# Parts made of values

A literal is made of a text, a number of fixed length of a positive whole number, and a choice of the texts that
an array or an object holds. All else is refused as unusable, with two exceptions. Options that cannot be gone
through or measured are refused in another way, before any of them is looked at; and a value that cannot be
displayed cannot be named as unusable.
-/

namespace Typeahead

/-! ## Values that hold options -/

namespace Json

def isLiteral : Json → Bool
  | string t => t ≠ []
  | _ => false

/-- What there is to go through: the items of an array, or the names in an object. -/
inductive Holds : Json → List Json → Prop
  | array (items : List Json) : Holds (array items) items
  | object (members : List (Text × Json)) : Holds (object members) (members.map fun m => string m.1)

theorem isLiteral_iff {value : Json} : value.isLiteral = true ↔ ∃ l : Literal, value = .string l.text := by
  constructor
  · intro h
    cases value with
    | string t => exact ⟨⟨t, by simpa [isLiteral] using h⟩, rfl⟩
    | _ => cases h
  · rintro ⟨l, rfl⟩
    simpa [isLiteral] using l.ne_nil

theorem Holds.unique {value : Json} {items items' : List Json} (h : value.Holds items) (h' : value.Holds items') :
    items = items' := by
  cases h <;> cases h' <;> rfl

theorem Holds.length?_ne_none {value : Json} {items : List Json} (h : value.Holds items) :
    value.length? ≠ none := by
  cases h <;> exact Option.some_ne_none _

/-- The options cannot be gone through, or not all of them can be measured. -/
def Unmeasured (value : Json) : Prop :=
  value.length? = none ∨ ∃ items, value.Holds items ∧ ∃ item ∈ items, item.length? = none

/-- The first item, longest first, that is no literal. -/
def FirstRefused (value item : Json) : Prop :=
  ∃ items, value.Holds items ∧ (longestFirst size items).find? (fun item => !item.isLiteral) = some item

theorem Holds.not_unmeasured {value : Json} {items : List Json} (h : value.Holds items)
    (hall : ∀ item ∈ items, item.length? ≠ none) : ¬value.Unmeasured := by
  rintro (hnone | ⟨items', h', item, hmem, hnone⟩)
  · exact h.length?_ne_none hnone
  · exact hall item (h'.unique h ▸ hmem) hnone

theorem Holds.find?_of_firstRefused {value item : Json} {items : List Json} (h : value.Holds items)
    (hfirst : value.FirstRefused item) :
    (longestFirst size items).find? (fun item => !item.isLiteral) = some item := by
  obtain ⟨items', h', hfind⟩ := hfirst
  rwa [h.unique h']

theorem FirstRefused.unique {value item item' : Json} (h : value.FirstRefused item)
    (h' : value.FirstRefused item') : item = item' := by
  obtain ⟨items, hitems, hfind⟩ := h
  exact Option.some.inj (hfind.symm.trans (hitems.find?_of_firstRefused h'))

end Json

namespace Part

theorem exists_literals_of_values {items : List Json} (h : ∀ item ∈ items, item.isLiteral = true) :
    ∃ ls : List Literal, items = ls.map fun l => .string l.text := by
  induction items with
  | nil => exact ⟨[], rfl⟩
  | cons item rest ih =>
    obtain ⟨hitem, hrest⟩ := List.forall_mem_cons.1 h
    obtain ⟨l, rfl⟩ := Json.isLiteral_iff.1 hitem
    obtain ⟨ls, rfl⟩ := ih hrest
    exact ⟨l :: ls, rfl⟩

theorem mapM_measure_of_none {items : List Json} (h : ∃ item ∈ items, item.length? = none) :
    ∃ item ∈ items, item.length? = none ∧ items.mapM measure = .error (.optionWithoutLength item) := by
  induction items with
  | nil =>
    obtain ⟨_, hmem, _⟩ := h
    cases hmem
  | cons item rest ih =>
    rw [List.mapM_cons]
    cases hn : item.length? with
    | none =>
      have hmeasure : measure item = .error (.optionWithoutLength item) := by simp [measure, hn]
      rw [hmeasure]
      exact ⟨item, List.mem_cons_self .., hn, rfl⟩
    | some n =>
      have hmeasure : measure item = .ok (n, item) := by simp [measure, hn]
      have hrest : ∃ item ∈ rest, item.length? = none := by simpa [hn] using h
      obtain ⟨first, hfirst, hnone, herror⟩ := ih hrest
      rw [hmeasure, ok_bind, herror]
      exact ⟨first, List.mem_cons_of_mem _ hfirst, hnone, rfl⟩

/-! ## Refusals -/

section
variable [Host] {α β : Type} {fault : Json → Fault} {value : Json}

theorem refuse_ne_ok {a : α} : refuse fault value ≠ .ok a := nofun

theorem refuse_bind (f : α → Except Fault β) : refuse fault value >>= f = refuse fault value := rfl

theorem errorClass_of_refuse {f : Fault} (h : (refuse fault value : Except Fault α) = .error f)
    (hfault : (fault value).errorClass = .library .invalidPart) :
    f.errorClass = .library .invalidPart ↔ value.displayFault? = none := by
  obtain rfl := Except.error.inj h
  unfold Json.refusing
  cases value.displayFault? with
  | none => exact iff_of_true hfault rfl
  | some hidden => exact iff_of_false (ErrorClass.ne_library hidden.foreign _) nofun

end

/-! ## Literals and lengths -/

section
variable [Host]

theorem checkLiteral_of_not {value : Json} (h : value.isLiteral = false) :
    checkLiteral value = refuse .notLiteral value := by
  cases value with
  | string t => exact dif_neg (by simpa [Json.isLiteral] using h)
  | _ => rfl

theorem makeLiteral_cases (value : Json) :
    (∃ l : Literal, value = .string l.text ∧ makeLiteral value = .ok (literal l)) ∨
      value.isLiteral = false ∧ makeLiteral value = refuse .notLiteral value := by
  unfold makeLiteral
  by_cases h : value.isLiteral = true
  · obtain ⟨l, rfl⟩ := Json.isLiteral_iff.1 h
    rw [checkLiteral_text]
    exact .inl ⟨l, rfl, rfl⟩
  · have hnot : value.isLiteral = false := by simpa using h
    rw [checkLiteral_of_not hnot]
    exact .inr ⟨hnot, rfl⟩

theorem makeFixedLength_cases (value : Json) (settings : Settings) :
    (∃ (n : Nat) (pos : 0 < n), value = .int n ∧ makeFixedLength value settings = .ok (fixedLength n pos settings)) ∨
      (∀ n : Nat, 0 < n → value ≠ .int n) ∧ makeFixedLength value settings = refuse .notLength value := by
  cases value with
  | int n =>
    by_cases h : 0 < n
    · obtain ⟨m, rfl⟩ := Int.eq_ofNat_of_zero_le (Int.le_of_lt h)
      exact .inl ⟨m, by omega, rfl, dif_pos h⟩
    · refine .inr ⟨fun m hm he => h ?_, dif_neg h⟩
      cases he
      omega
  | _ => exact .inr ⟨fun _ _ => nofun, rfl⟩

/-! ## Choices -/

theorem makeOptions_of_holds {value : Json} {items : List Json} (h : value.Holds items) :
    makeOptions value = makeOptions (.array items) := by
  cases h <;> rfl

theorem mapM_checkLiteral_of_refused {items : List Json} {item : Json}
    (h : items.find? (fun item => !item.isLiteral) = some item) :
    items.mapM checkLiteral = refuse .notLiteral item := by
  induction items with
  | nil => cases h
  | cons first rest ih =>
    rw [List.mapM_cons]
    rw [List.find?_cons] at h
    by_cases hfirst : first.isLiteral = true
    · obtain ⟨l, rfl⟩ := Json.isLiteral_iff.1 hfirst
      rw [checkLiteral_text, ok_bind, ih (by simpa [hfirst] using h), refuse_bind]
    · have hnot : first.isLiteral = false := by simpa using hfirst
      obtain rfl : first = item := by simpa [hnot] using h
      rw [checkLiteral_of_not hnot, refuse_bind]

theorem makeOptions_cases {value : Json} {items : List Json} (h : value.Holds items) :
    (items = [] ∧ makeOptions value = .error .noOptions) ∨
      (∃ item ∈ items, item.length? = none ∧ makeOptions value = .error (.optionWithoutLength item)) ∨
      ((∀ item ∈ items, item.length? ≠ none) ∧
        ∃ item, value.FirstRefused item ∧ makeOptions value = refuse .notLiteral item) ∨
      ∃ (ls : List Literal) (hne : ls ≠ []),
        items = (ls.map fun l => .string l.text) ∧ makeOptions value = .ok (.options (.ofList ls hne)) := by
  rw [makeOptions_of_holds h]
  by_cases hnil : items = []
  · subst hnil
    exact .inl ⟨rfl, rfl⟩
  refine .inr ?_
  by_cases hall : ∀ item ∈ items, item.length? ≠ none
  · refine .inr ?_
    cases hfind : (longestFirst Json.size items).find? (fun item => !item.isLiteral) with
    | some item =>
      refine .inl ⟨hall, item, ⟨items, h, hfind⟩, ?_⟩
      rw [makeOptions_of_measured hnil hall, mapM_checkLiteral_of_refused hfind, refuse_bind]
    | none =>
      have hlit : ∀ item ∈ items, item.isLiteral = true := fun item hitem => by
        simpa using List.find?_eq_none.1 hfind item ((perm_longestFirst items).mem_iff.2 hitem)
      obtain ⟨ls, rfl⟩ := exists_literals_of_values hlit
      have hne : ls ≠ [] := by simpa using hnil
      exact .inr ⟨ls, hne, rfl, makeOptions_literals ls hne⟩
  · have hexists : ∃ item ∈ items, item.length? = none := by simpa using hall
    obtain ⟨first, hfirst, hnone, herror⟩ := mapM_measure_of_none hexists
    refine .inl ⟨first, hfirst, hnone, ?_⟩
    unfold makeOptions
    simp only [collected, ok_bind, hnil, if_false, herror]
    rfl

theorem makeOptions_without_items {value : Json} (h : ∀ items, ¬value.Holds items) :
    (value.length? = none ∧ makeOptions value = .error (.optionsNotIterable value)) ∨
      ∃ t, value = .string t ∧ makeOptions value = .error (.optionsAreText t) := by
  cases value with
  | array items => exact absurd (.array items) (h items)
  | object members => exact absurd (.object members) (h _)
  | string t => exact .inr ⟨t, rfl, rfl⟩
  | _ => exact .inl ⟨rfl, rfl⟩

/-! ## What is made -/

theorem makeLiteral_eq_ok_iff {value : Json} {p : Part} :
    makeLiteral value = .ok p ↔ ∃ l : Literal, value = .string l.text ∧ p = literal l := by
  rcases makeLiteral_cases value with ⟨l, rfl, hmake⟩ | ⟨hnot, hmake⟩
  · rw [hmake]
    constructor
    · intro h
      cases h
      exact ⟨l, rfl, rfl⟩
    · rintro ⟨l', htext, rfl⟩
      rw [Literal.text_injective (Json.string.inj htext)]
  · rw [hmake]
    refine iff_of_false refuse_ne_ok ?_
    rintro ⟨l, rfl, -⟩
    rw [Json.isLiteral_iff.2 ⟨l, rfl⟩] at hnot
    cases hnot

theorem makeFixedLength_eq_ok_iff {value : Json} {settings : Settings} {p : Part} :
    makeFixedLength value settings = .ok p ↔
      ∃ (n : Nat) (pos : 0 < n), value = .int n ∧ p = fixedLength n pos settings := by
  rcases makeFixedLength_cases value settings with ⟨n, pos, rfl, hmake⟩ | ⟨hnot, hmake⟩
  · rw [hmake]
    constructor
    · intro h
      cases h
      exact ⟨n, pos, rfl, rfl⟩
    · rintro ⟨m, _, hm, rfl⟩
      cases hm
      rfl
  · rw [hmake]
    refine iff_of_false refuse_ne_ok ?_
    rintro ⟨n, pos, rfl, -⟩
    exact hnot n pos rfl

theorem makeOptions_eq_ok_iff {value : Json} {p : Part} :
    makeOptions value = .ok p ↔
      ∃ (ls : List Literal) (h : ls ≠ []), value.Holds (ls.map fun l => .string l.text) ∧ p = options (.ofList ls h) := by
  constructor
  · intro hmake
    by_cases hholds : ∃ items, value.Holds items
    · obtain ⟨items, hitems⟩ := hholds
      rcases makeOptions_cases hitems with ⟨_, h⟩ | ⟨_, _, _, h⟩ | ⟨_, _, _, h⟩ | ⟨ls, hne, rfl, h⟩
      · rw [h] at hmake
        cases hmake
      · rw [h] at hmake
        cases hmake
      · exact absurd (h.symm.trans hmake) refuse_ne_ok
      · rw [h] at hmake
        cases hmake
        exact ⟨ls, hne, hitems, rfl⟩
    · rcases makeOptions_without_items (not_exists.1 hholds) with ⟨_, h⟩ | ⟨_, _, h⟩ <;>
        (rw [h] at hmake; cases hmake)
  · rintro ⟨ls, hne, hholds, rfl⟩
    rw [makeOptions_of_holds hholds, makeOptions_literals ls hne]

/-! ## What is refused -/

theorem makeLiteral_error {value : Json} {f : Fault} (h : makeLiteral value = .error f) :
    f.errorClass = .library .invalidPart ↔ value.displayFault? = none := by
  rcases makeLiteral_cases value with ⟨_, _, hmake⟩ | ⟨_, hmake⟩
  · rw [hmake] at h
    cases h
  · exact errorClass_of_refuse (hmake.symm.trans h) rfl

theorem makeFixedLength_error {value : Json} {settings : Settings} {f : Fault}
    (h : makeFixedLength value settings = .error f) : f.errorClass = .library .invalidPart ↔ value.displayFault? = none := by
  rcases makeFixedLength_cases value settings with ⟨_, _, _, hmake⟩ | ⟨_, hmake⟩
  · rw [hmake] at h
    cases h
  · exact errorClass_of_refuse (hmake.symm.trans h) rfl

theorem makeOptions_error {value : Json} {f : Fault} (h : makeOptions value = .error f) :
    f.errorClass = .library .invalidPart ↔ ¬value.Unmeasured ∧ ∀ item, value.FirstRefused item → item.displayFault? = none := by
  by_cases hholds : ∃ items, value.Holds items
  · obtain ⟨items, hitems⟩ := hholds
    rcases makeOptions_cases hitems with ⟨rfl, hmake⟩ | ⟨item, hmem, hnone, hmake⟩ |
      ⟨hall, item, hfirst, hmake⟩ | ⟨_, _, _, hmake⟩
    · rw [hmake] at h
      cases h
      refine iff_of_true rfl ⟨hitems.not_unmeasured (by simp), fun item hfirst => ?_⟩
      simpa [longestFirst] using hitems.find?_of_firstRefused hfirst
    · rw [hmake] at h
      cases h
      exact iff_of_false nofun fun h => h.1 (.inr ⟨items, hitems, item, hmem, hnone⟩)
    · rw [errorClass_of_refuse (hmake.symm.trans h) rfl]
      constructor
      · intro hnone
        exact ⟨hitems.not_unmeasured hall, fun item' hfirst' => by rwa [hfirst'.unique hfirst]⟩
      · intro h
        exact h.2 item hfirst
    · rw [hmake] at h
      cases h
  · rcases makeOptions_without_items (not_exists.1 hholds) with ⟨hnone, hmake⟩ | ⟨t, rfl, hmake⟩
    · rw [hmake] at h
      cases h
      exact iff_of_false nofun fun h => h.1 (.inl hnone)
    · rw [hmake] at h
      cases h
      refine iff_of_true rfl ⟨?_, ?_⟩
      · rintro (hnone | ⟨_, hitems, _⟩)
        · cases hnone
        · cases hitems
      · rintro item ⟨_, hitems, _⟩
        cases hitems

/-- **Making parts of values.** A literal is made of a text that is not empty, a number of fixed length of a
positive whole number, and a choice of the items of an array or the names of an object, if there are some and each
is such a text. All else is refused, and as unusable if the message can display it. Only a choice is refused in
another way too, if there is nothing to go through or if an item has no length; after that, it is the first item,
longest first, that has to be displayed. -/
theorem made_or_refused (value : Json) (settings : Settings) :
    (∀ p, makeLiteral value = .ok p ↔ ∃ l : Literal, value = .string l.text ∧ p = literal l) ∧
    (∀ p, makeFixedLength value settings = .ok p ↔
      ∃ (n : Nat) (pos : 0 < n), value = .int n ∧ p = fixedLength n pos settings) ∧
    (∀ p, makeOptions value = .ok p ↔ ∃ (ls : List Literal) (h : ls ≠ []),
      value.Holds (ls.map fun l => .string l.text) ∧ p = options (.ofList ls h)) ∧
    (∀ f, makeLiteral value = .error f → (f.errorClass = .library .invalidPart ↔ value.displayFault? = none)) ∧
    (∀ f, makeFixedLength value settings = .error f → (f.errorClass = .library .invalidPart ↔ value.displayFault? = none)) ∧
    (∀ f, makeOptions value = .error f →
      (f.errorClass = .library .invalidPart ↔ ¬value.Unmeasured ∧ ∀ item, value.FirstRefused item → item.displayFault? = none)) :=
  ⟨fun _ => makeLiteral_eq_ok_iff, fun _ => makeFixedLength_eq_ok_iff, fun _ => makeOptions_eq_ok_iff,
    fun _ => makeLiteral_error, fun _ => makeFixedLength_error, fun _ => makeOptions_error⟩

end

attribute [local instance] Host.usual

/-- The number among the options is measured before it can be refused as an option. -/
theorem makeOptions_one :
    makeOptions (.array [.int 1]) = .error (.optionWithoutLength (.int 1)) ∧
      (Fault.optionWithoutLength (.int 1)).errorClass = .type :=
  ⟨rfl, rfl⟩

end Part

end Typeahead
