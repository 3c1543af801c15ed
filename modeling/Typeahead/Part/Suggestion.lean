import Typeahead.Part.Match

/-!
# Suggestions

A suggestion shows a label and has a text to insert, unless it is a template, which only says what kind
of text could follow. Suggestions of neighbouring parts are joined.
-/

namespace Typeahead

structure Suggestion where
  label : Json
  value : Option Text

namespace Suggestion

def ofText (t : Text) : Suggestion := ⟨.string t, some t⟩

def template (label : Json) : Suggestion := ⟨label, none⟩

def isTemplate (s : Suggestion) : Bool := s.value.isNone

/-- Joins label to label and value to value; with a template there is nothing to insert. -/
def join (a b : Suggestion) : Except Json.SumError Suggestion := do
  let label ← a.label.add b.label
  let value :=
    match a.value, b.value with
    | some t, some u => some (t ++ u)
    | _, _ => none
  return ⟨label, value⟩

def display (s : Suggestion) : Text :=
  let value := ((s.value.map Json.string).getD .null).display
  "Suggestion(show_as=" ++ s.label.display ++ ", value=" ++ value ++ ")"

end Suggestion

/-! ## Sums of suggestions and other values -/

inductive Operand
  | suggestion (s : Suggestion)
  | value (v : Json)

namespace Operand

def kind : Operand → Text
  | suggestion _ => "Suggestion"
  | value v => v.kind

/-- Suggestions are joined and other values added. Of a text or an array on the left, only the same can
follow. -/
def add (a b : Operand) : Except Json.SumError Operand :=
  match a, b with
  | suggestion s, suggestion t => suggestion <$> s.join t
  | value v, value w => value <$> v.add w
  | value (.string _), _ | value (.array _), _ => .error (.unlike a.kind b.kind)
  | _, _ => .error (.undefined a.kind b.kind)

def sum (first : Operand) (rest : List Operand) : Except Json.SumError Operand := rest.foldlM add first

end Operand

inductive JoinFault
  | sum (fault : Json.SumError)
  /-- The sum is a value of a kind that has no label. -/
  | noLabel (kind : Text)
  | undisplayable (fault : Json.DisplayFault)

def JoinFault.message : JoinFault → Text
  | sum fault => fault.message
  | noLabel kind => "'" ++ kind ++ "' object has no attribute 'show_as'"
  | undisplayable fault => fault.message

def JoinFault.errorClass : JoinFault → ErrorClass
  | sum fault => fault.errorClass
  | noLabel _ => .attribute
  | undisplayable fault => fault.errorClass

section
variable [Host]

def Operand.join (first : Operand) (rest : List Operand) : Except JoinFault Suggestion := do
  match ← (sum first rest).mapError .sum with
  | suggestion s =>
    match s.label.displayFault? with
    | none => return s
    | some fault => throw (.undisplayable fault)
  | value v => throw (.noLabel v.kind)

/-! ## Suggestions of parts -/

def Leaf.suggestionsAt (l : Leaf) (value : Text) (index : Int) :
    Reported QueryFault (List Suggestion) := do
  let noMatch := QueryFault.ofPart (.leaf l) value index
  match l with
  | .literal word =>
    let some _ ← l.matchAt value index | throw noMatch
    return [.ofText word.text]
  | .number settings =>
    let rest ← .ofExcept (restAt value index)
    match digitRun? rest with
    | none => throw noMatch
    | some [] => return [.template settings.numberLabel]
    | some run => return [.ofText run]
  | .fixedLength length _ settings =>
    let some _ ← l.matchAt value index | throw noMatch
    let rest ← .ofExcept (restAt value index)
    match digitRun? rest with
    | none => throw noMatch
    | some [] =>
      let label ← .ofExcept ((settings.renderLength length).mapError .label)
      return [.template (.string label)]
    | some run =>
      -- a run that is long enough is not filled
      if run.length < length ∧ Number.wordLimit ≤ length then throw .lengthTooLarge
      if run.length < length ∧ Host.textSize ≤ length then throw .valueTooLong
      return [.ofText (Text.padRight length settings.pad run)]

def Leaf.suggestionsIfMatched (l : Leaf) (value : Text) (index : Int) :
    Reported QueryFault (List Suggestion) := do
  match ← l.matchAt value index with
  | some _ => l.suggestionsAt value index
  | none => return []

def Part.suggestionsAt (p : Part) (value : Text) (index : Int) :
    Reported QueryFault (List Suggestion) := do
  match p with
  | .leaf l => l.suggestionsAt value index
  | .options _ =>
    let found ← p.leaves.mapM fun l => l.suggestionsIfMatched value index
    let suggestions := found.flatten
    if suggestions.isEmpty then throw (.ofPart p value index)
    return suggestions

end

end Typeahead
