import Typeahead.Host
import Typeahead.Json.Basic
import Typeahead.Number.Decimal
import Typeahead.Text.Quoted

/-!
# Values in messages

A value is displayed on one line: texts are quoted, items are separated by a comma and a space. A value
that is nested too deep, or holds a whole number that is too long, cannot be displayed.
-/

namespace Typeahead.Json

open Number

mutual

def display : Json → Text
  | null => "None"
  | bool true => "True"
  | bool false => "False"
  | int n => Text.ofInt n
  | float x => x.text
  | string t => Text.quoted t
  | array items => "[" ++ displayItems items ++ "]"
  | object members => "\x7b" ++ displayMembers members ++ "\x7d"

def displayItems : List Json → Text
  | [] => []
  | [item] => display item
  | item :: next :: rest => display item ++ ", " ++ displayItems (next :: rest)

def displayMembers : List (Text × Json) → Text
  | [] => []
  | [(key, value)] => Text.quoted key ++ ": " ++ display value
  | (key, value) :: next :: rest =>
    Text.quoted key ++ ": " ++ display value ++ ", " ++ displayMembers (next :: rest)

end

/-! ## What cannot be displayed -/

inductive DisplayFault
  | tooDeep
  | numberTooLong
deriving DecidableEq, Repr

mutual

/-- What comes first in a value of all that keeps it from being displayed, if values may be nested so deep. -/
def faultWithin : Nat → Json → Option DisplayFault
  | 0, _ => some .tooDeep
  | _ + 1, int n => if Text.isWritable n then none else some .numberTooLong
  | depth + 1, array items => itemsFaultWithin depth items
  | depth + 1, object members => membersFaultWithin depth members
  | _ + 1, _ => none

def itemsFaultWithin (depth : Nat) : List Json → Option DisplayFault
  | [] => none
  | item :: rest => (faultWithin depth item).or (itemsFaultWithin depth rest)

def membersFaultWithin (depth : Nat) : List (Text × Json) → Option DisplayFault
  | [] => none
  | (_, value) :: rest => (faultWithin depth value).or (membersFaultWithin depth rest)

end

section
variable [Host]

def displayFault? (value : Json) : Option DisplayFault := faultWithin Host.displayDepth value

def shown (value : Json) : Except DisplayFault Text :=
  match value.displayFault? with
  | none => .ok value.display
  | some fault => .error fault

/-- A fault whose message displays a value; another one, if the value cannot be displayed. -/
def refusing {ε : Type} (fault : Json → ε) (undisplayable : DisplayFault → ε) (value : Json) : ε :=
  match value.displayFault? with
  | none => fault value
  | some f => undisplayable f

end

/-! ## Messages and classes -/

def DisplayFault.message : DisplayFault → Text
  | tooDeep => "maximum recursion depth exceeded while getting the repr of an object"
  | numberTooLong => Text.tooLongMessage

def DisplayFault.errorClass : DisplayFault → ErrorClass
  | tooDeep => .recursion
  | numberTooLong => .value

theorem DisplayFault.foreign (fault : DisplayFault) : fault.errorClass.isLibrary = false := by
  cases fault <;> rfl

def SumError.message : SumError → Text
  | unlike left right => "can only concatenate " ++ left ++ " (not \"" ++ right ++ "\") to " ++ left
  | undefined left right =>
    "unsupported operand type(s) for +: '" ++ left ++ "' and '" ++ right ++ "'"
  | tooLarge => "int too large to convert to float"

def SumError.errorClass : SumError → ErrorClass
  | tooLarge => .overflow
  | _ => .type

def refusal (value : Json) : Text := "unhashable type: '" ++ value.kind ++ "'"

end Typeahead.Json
