import Typeahead.Part.Match

/-!
# Validation

A text is valid for a part that starts at `index` if the part matches from there to the end of the
text: fully, or in any way if a beginning is allowed. Otherwise the verdict has the position of the
first character that is not accepted.
-/

namespace Typeahead

inductive Objection
  | tooShort
  | noMatch
  | incomplete
  | unexpectedInput
deriving DecidableEq, Repr

inductive Verdict
  | valid
  | invalid (position : Int) (objection : Objection)
deriving DecidableEq, Repr

def Objection.message : Objection → Text
  | tooShort => "Input is too short"
  | noMatch => "Input does not match"
  | incomplete => "Input is incomplete"
  | unexpectedInput => "Unexpected input after match"

/-- The verdict on what a part has matched from `index` on. -/
def Verdict.ofMatch (allowBegun : Bool) (index length : Int) : Option Match → Verdict
  | none => invalid index .noMatch
  | some found =>
    let stop := index + found.consumed
    if found.extent = .begun ∧ !allowBegun then invalid stop .incomplete
    else if stop < length then invalid stop .unexpectedInput
    else valid

def Part.validate [Host] (p : Part) (index : Int) (allowBegun : Bool) (text : Text) :
    Reported QueryFault Verdict := do
  if index > text.length then return .invalid text.length .tooShort
  return .ofMatch allowBegun index text.length (← p.matchAt text index)

end Typeahead
