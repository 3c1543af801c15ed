import Typeahead.Part.Match

/-!
# Matching as a function of the rest

Inside a text, what a part finds at a position depends on the text from there on only: `matchRest` is
that function. What is reported on the way is collected leaf by leaf.
-/

namespace Typeahead

@[simp] theorem consumed_full (k : Int) : (Match.full k).consumed = k := rfl

@[simp] theorem ok_bind {ε α β : Type} (a : α) (f : α → Except ε β) : (Except.ok a >>= f) = f a := rfl

@[simp] theorem error_bind {ε α β : Type} (e : ε) (f : α → Except ε β) : (Except.error e >>= f) = .error e := rfl

theorem exists_of_bind_eq_ok {ε α β : Type} {x : Except ε α} {f : α → Except ε β} {b : β}
    (h : x >>= f = .ok b) : ∃ a, x = .ok a ∧ f a = .ok b := by
  cases x with
  | error e => cases h
  | ok a => exact ⟨a, rfl, h⟩

theorem exists_of_bind_eq_error {ε α β : Type} {x : Except ε α} {f : α → Except ε β} {e : ε}
    (h : x >>= f = .error e) : x = .error e ∨ ∃ a, x = .ok a ∧ f a = .error e := by
  cases x with
  | error e' => cases h; exact .inl rfl
  | ok a => exact .inr ⟨a, rfl, h⟩

theorem map_eq_ok_iff {ε α β : Type} {x : Except ε α} {f : α → β} {b : β} :
    x.map f = .ok b ↔ ∃ a, x = .ok a ∧ b = f a := by
  cases x with
  | error e => exact ⟨fun h => (by cases h), fun ⟨a, h, _⟩ => (by cases h)⟩
  | ok a =>
    constructor
    · intro h
      cases h
      exact ⟨a, rfl, rfl⟩
    · intro ⟨a', h, hb⟩
      cases h
      rw [hb]
      rfl

theorem map_eq_error {ε α β : Type} {f : α → β} {x : Except ε α} {e : ε} (h : f <$> x = .error e) : x = .error e := by
  cases x with
  | error e' => cases h; rfl
  | ok a => cases h

theorem mapError_eq_ok_iff {ε ε' α : Type} {f : ε → ε'} {x : Except ε α} {a : α} :
    x.mapError f = .ok a ↔ x = .ok a := by
  cases x with
  | error e => exact ⟨nofun, nofun⟩
  | ok b => exact ⟨fun h => by cases h; rfl, fun h => by cases h; rfl⟩

theorem mapError_eq_error_iff {ε ε' α : Type} {f : ε → ε'} {x : Except ε α} {e : ε'} :
    x.mapError f = .error e ↔ ∃ e', x = .error e' ∧ f e' = e := by
  cases x with
  | error e' => exact ⟨fun h => ⟨e', rfl, by cases h; rfl⟩, fun ⟨_, h, he⟩ => by cases h; cases he; rfl⟩
  | ok b => exact ⟨nofun, nofun⟩

theorem drop_take_append {value : Text} {n : Nat} (h : n ≤ value.length) (w : Text) :
    (value.take n ++ w).drop n = w :=
  List.drop_left' (List.length_take_of_le h)

variable [Host]

namespace Reported

variable {ε α β : Type}

@[simp] theorem result_bind (x : Reported ε α) (f : α → Reported ε β) :
    (x >>= f).result = x.result >>= fun a => (f a).result := by
  cases h : x.result with
  | ok a => rw [bind_of_ok h]; rfl
  | error e => rw [bind_of_error h]; rfl

@[simp] theorem result_ofExcept (r : Except ε α) : (ofExcept r).result = r := rfl

theorem bind_pure_eq (x : Reported ε α) : x >>= pure = x := by
  cases h : x.result with
  | ok a => rw [bind_of_ok h]; simp [← h]
  | error e => rw [bind_of_error h, ← h]

theorem bind_assoc_eq {γ : Type} (x : Reported ε α) (f : α → Reported ε β) (g : β → Reported ε γ) :
    x >>= f >>= g = x >>= fun a => f a >>= g := by
  cases h : x.result with
  | error e => rw [bind_of_error h, bind_of_error rfl, bind_of_error h]
  | ok a =>
    rw [bind_of_ok h, bind_of_ok h]
    cases h' : (f a).result with
    | error e => rw [bind_of_error rfl, bind_of_error h']
    | ok b => rw [bind_of_ok rfl, bind_of_ok h', List.append_assoc]

instance : LawfulMonad (Reported ε) :=
  .mk' _ (fun x => bind_pure_eq x) (fun a f => by rw [bind_of_ok (result_pure a)]; rfl) bind_assoc_eq

theorem mapM_of_ok (f : α → Reported ε β) (g : α → β) : ∀ xs : List α,
    (∀ a ∈ xs, (f a).result = .ok (g a)) →
      xs.mapM f = ⟨xs.flatMap fun a => (f a).rejections, .ok (xs.map g)⟩
  | [], _ => rfl
  | a :: xs, h => by
    have ha := h a (by simp)
    have ih := mapM_of_ok f g xs fun b hb => h b (by simp [hb])
    rw [List.mapM_cons, bind_of_ok ha, ih, bind_of_ok rfl]
    simp

theorem mapM_ok_iff {f : α → Reported ε β} {g : α → β} {P : α → Prop}
    (hf : ∀ a b, (f a).result = .ok b ↔ P a ∧ b = g a) : ∀ (xs : List α) (ys : List β),
      (xs.mapM f).result = .ok ys ↔ (∀ a ∈ xs, P a) ∧ ys = xs.map g
  | [], ys => by
    rw [List.mapM_nil, result_pure, List.map_nil]
    exact ⟨fun h => ⟨fun a ha => (by cases ha), by cases h; rfl⟩, fun h => by rw [h.2]⟩
  | a :: xs, ys => by
    rw [List.mapM_cons, result_bind, List.forall_mem_cons, List.map_cons]
    cases ha : (f a).result with
    | error e =>
      refine ⟨fun h => (by cases h), fun h => ?_⟩
      rw [(hf a _).2 ⟨h.1.1, rfl⟩] at ha
      cases ha
    | ok b =>
      obtain ⟨hp, rfl⟩ := (hf a b).1 ha
      have ih := mapM_ok_iff hf xs
      rw [ok_bind, result_bind]
      cases hxs : (xs.mapM f).result with
      | error e =>
        refine ⟨fun h => (by cases h), fun h => ?_⟩
        rw [(ih _).2 ⟨h.1.2, rfl⟩] at hxs
        cases hxs
      | ok bs =>
        obtain ⟨hps, rfl⟩ := (ih bs).1 hxs
        exact ⟨fun h => ⟨⟨hp, hps⟩, by cases h; rfl⟩, fun h => by rw [h.2]; rfl⟩

end Reported

/-! ## Leaves -/

/-- What a leaf reports at a position inside a text. -/
def Leaf.rejections (l : Leaf) (value : Text) (n : Nat) : List Rejection :=
  match l.matchRest (value.drop n) with
  | some _ => []
  | none => [⟨l, value, n, l.reason (value.drop n)⟩]

theorem Leaf.matchAt_natCast (l : Leaf) {value : Text} {n : Nat} (h : n ≤ value.length) :
    l.matchAt value n = ⟨l.rejections value n, .ok (l.matchRest (value.drop n))⟩ := by
  unfold Leaf.matchAt Leaf.rejections
  rw [restAt_natCast h, Reported.bind_of_ok rfl]
  cases l.matchRest (value.drop n) <;> rfl

/-! ## Parts -/

def Part.matchRest : Part → Text → Option Match
  | .leaf l, rest => l.matchRest rest
  | .options o, rest => firstFull (o.literals.filterMap (·.matchRest rest))

theorem Part.matchAt_natCast (p : Part) {value : Text} {n : Nat} (h : n ≤ value.length) :
    p.matchAt value n =
      ⟨p.leaves.flatMap (·.rejections value n), .ok (p.matchRest (value.drop n))⟩ := by
  cases p with
  | leaf l =>
    simp only [Part.matchAt, Part.leaves, List.flatMap_cons, List.flatMap_nil, List.append_nil]
    exact l.matchAt_natCast h
  | options o =>
    have hl := fun l => Leaf.matchAt_natCast l h
    simp only [Part.matchAt]
    rw [Reported.mapM_of_ok _ (·.matchRest (value.drop n)) _ fun l _ => by rw [hl]]
    rw [Reported.bind_of_ok rfl]
    simp only [hl, Part.leaves, Part.matchRest, Reported.rejections_pure, List.append_nil,
      Reported.result_pure, List.map_map, List.filterMap_map]
    rfl

/-- What a part finds at a position, nothing included. -/
def Part.Finds (p : Part) (value : Text) (index : Int) (found : Option Match) : Prop :=
  (p.matchAt value index).result = .ok found

section
variable (p : Part) {value : Text} {n : Nat} {found : Option Match} (h : n ≤ value.length)
include h

theorem Part.finds_iff : p.Finds value n found ↔ p.matchRest (value.drop n) = found := by
  unfold Part.Finds
  rw [p.matchAt_natCast h]
  simp only [Except.ok.injEq]

theorem Part.finds_append_iff (s : Text) :
    p.Finds (value ++ s) n found ↔ p.matchRest (value.drop n ++ s) = found := by
  have h' : n ≤ (value ++ s).length := by rw [List.length_append]; omega
  rw [p.finds_iff h', List.drop_append_of_le_length h]

theorem Part.finds_take_append_iff (w : Text) :
    p.Finds (value.take n ++ w) n found ↔ p.matchRest w = found := by
  have h' : n ≤ (value.take n ++ w).length := by
    rw [List.length_append, List.length_take_of_le h]
    omega
  rw [p.finds_iff h', drop_take_append h]

end

end Typeahead
