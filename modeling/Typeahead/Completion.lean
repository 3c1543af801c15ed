import Typeahead.Part.Suggestion

/-!
# Completion

While a text is typed, a part offers completions at the cursor. Each candidate that matches up to the
cursor exactly offers the texts it suggests, to replace what it has consumed. The literals of a choice
are candidates of their own, since each consumes its own share of the text.
-/

namespace Typeahead

structure Completion where
  text : Text
  /-- Where the replaced text starts, counted from the cursor. -/
  start : Int
  label : Json

section
variable [Host]

def Leaf.completions (l : Leaf) (before : Text) (index : Int) :
    Reported QueryFault (List Completion) := do
  match ← l.matchAt before index with
  | none => return []
  | some found =>
    if index + found.consumed ≠ before.length then return []
    let suggestions ← l.suggestionsAt before index
    return suggestions.filterMap fun s => s.value.map fun text => ⟨text, -found.consumed, s.label⟩

/-- What is offered for a part that starts at `index`, with the cursor after the first `cursor`
characters. Text after the cursor plays no role. -/
def Part.completions (p : Part) (index : Int) (text : Text) (cursor : Nat) :
    Reported QueryFault (List Completion) := do
  let before := text.take cursor
  if index > before.length then return []
  return (← p.leaves.mapM fun l => l.completions before index).flatten

end

end Typeahead
