import Typeahead.ErrorClass
import Typeahead.Members

/-!
# The host

What the library runs on sets limits to it, by its memory and its stack, and knows objects that a name in
a template can reach from a number: attributes, their attributes, and what these hold. Nothing is assumed
of such objects. The host that most use has the limits of an idle stack; of its objects only the class of
the whole numbers is known here, with the numbers that it tells of itself.
-/

namespace Typeahead

inductive Target (Object : Type)
  | number (n : Int)
  | other (o : Object)
deriving DecidableEq, Repr

inductive ItemKey
  | position (n : Nat)
  | name (t : Text)
deriving DecidableEq, Repr

class Host where
  Object : Type
  member : Target Object → Text → Except Raised (Target Object)
  item : Object → ItemKey → Except Raised (Target Object)
  /-- An object as text, under the conversion `r`, `s` or `a`. -/
  shown : Object → CodePoint → Except Raised Text
  format : Object → Text → Except Raised Text
  /-- How deep values may be nested to be displayed; one without parts has depth one. -/
  displayDepth : Nat
  readDepth : Nat
  /-- So many directories can be made at once, one on the way to the other. -/
  directoryDepth : Nat
  /-- Texts that are filled up to a width stay below it. -/
  textSize : Nat
  directoryDepth_pos : 0 < directoryDepth
  displayDepth_pos : 0 < displayDepth
  readDepth_pos : 0 < readDepth

namespace Host

def classNumbers : List (Text × Int) :=
  [("__flags__", 0x1481500), ("__basicsize__", 24), ("__itemsize__", 4), ("__dictoffset__", 0),
    ("__weakrefoffset__", 0)]

def classText : Text := "<class 'int'>"

-- the only object is the class of the whole numbers
def usualMember : Target Unit → Text → Except Raised (Target Unit)
  | .number _, name =>
    if name = "__class__" then .ok (.other ())
    else .error (.attribute ("'int' object has no attribute '" ++ name ++ "'"))
  | .other (), name =>
    match Members.get? classNumbers name with
    | some n => .ok (.number n)
    | none => .error (.attribute ("type object 'int' has no attribute '" ++ name ++ "'"))

@[reducible] def usual : Host where
  Object := Unit
  member := usualMember
  item _ _ := .error ⟨.type, "type 'int' is not subscriptable", rfl⟩
  shown _ _ := .ok classText
  format _ spec :=
    if spec = [] then .ok classText
    else .error ⟨.type, "unsupported format string passed to type.__format__", rfl⟩
  displayDepth := 987
  readDepth := 986
  directoryDepth := 986
  textSize := 0x80000000
  directoryDepth_pos := by decide
  displayDepth_pos := by decide
  readDepth_pos := by decide

end Host

end Typeahead
