/-!
# Members

Members are values under names, in the order in which their names came. A name that comes again keeps
its place and gets the new value.
-/

namespace Typeahead.Members

variable {κ α : Type} [DecidableEq κ]

def get? (members : List (κ × α)) (name : κ) : Option α :=
  (members.find? (·.1 = name)).map (·.2)

/-- Sets a member: in the place that it has, or at the end. -/
def put (name : κ) (value : α) : List (κ × α) → List (κ × α)
  | [] => [(name, value)]
  | (k, v) :: rest => if k = name then (name, value) :: rest else (k, v) :: put name value rest

@[simp] theorem get?_put_self (name : κ) (value : α) (members : List (κ × α)) :
    get? (put name value members) name = some value := by
  induction members with
  | nil => simp [put, get?]
  | cons m rest ih =>
    obtain ⟨k, v⟩ := m
    by_cases h : k = name
    · simp [put, get?, h]
    · simpa [put, get?, h] using ih

theorem get?_put_of_ne {name other : κ} (h : other ≠ name) (value : α)
    (members : List (κ × α)) : get? (put name value members) other = get? members other := by
  induction members with
  | nil => simp [put, get?, Ne.symm h]
  | cons m rest ih =>
    obtain ⟨k, v⟩ := m
    by_cases hk : k = name
    · subst hk; simp [put, get?, Ne.symm h]
    · rw [put, if_neg hk]
      by_cases ho : k = other
      · simp [get?, ho]
      · simpa [get?, ho] using ih

end Typeahead.Members
