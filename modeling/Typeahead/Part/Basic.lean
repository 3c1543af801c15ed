import Typeahead.Part.Literal
import Typeahead.Settings.Basic

/-!
# Parts

A part is one unit of a grammar: a literal, a number, a number of fixed length, or a choice of
literals. The first three are leaves; a choice stands for its literals, each a leaf of its own.
-/

namespace Typeahead

variable [Host]

inductive Leaf
  | literal (l : Literal)
  | number (settings : Settings)
  | fixedLength (length : Nat) (pos : 0 < length) (settings : Settings)

inductive Part
  | leaf (l : Leaf)
  | options (o : Options)

namespace Part

def literal (l : Literal) : Part := leaf (.literal l)

def number (settings : Settings) : Part := leaf (.number settings)

def fixedLength (length : Nat) (pos : 0 < length) (settings : Settings) : Part :=
  leaf (.fixedLength length pos settings)

def leaves : Part → List Leaf
  | leaf l => [l]
  | options o => o.literals.map Leaf.literal

/-! ## Making parts of values -/

inductive Fault
  | notLiteral (value : Json)
  | notLength (value : Json)
  | optionsAreText (t : Text)
  | optionsNotIterable (value : Json)
  | noOptions
  | optionWithoutLength (value : Json)
  /-- The message would show a value that cannot be displayed. -/
  | undisplayable (fault : Json.DisplayFault)

def refuse {α : Type} (fault : Json → Fault) (value : Json) : Except Fault α :=
  .error (value.refusing fault .undisplayable)

def checkLiteral (value : Json) : Except Fault Literal :=
  match value with
  | .string t => if h : t ≠ [] then .ok ⟨t, h⟩ else refuse .notLiteral value
  | _ => refuse .notLiteral value

def makeLiteral (value : Json) : Except Fault Part := literal <$> checkLiteral value

def makeFixedLength (value : Json) (settings : Settings) : Except Fault Part :=
  match value with
  | .int n =>
    if h : 0 < n then .ok (fixedLength n.toNat (by omega) settings) else refuse .notLength value
  | _ => refuse .notLength value

def collected (value : Json) : Except Fault (List Json) :=
  match value with
  | .array items => .ok items
  | .object members => .ok (members.map fun m => .string m.1)
  | .string t => .error (.optionsAreText t)
  | _ => .error (.optionsNotIterable value)

def measure (value : Json) : Except Fault (Nat × Json) :=
  match value.length? with
  | some n => .ok (n, value)
  | none => .error (.optionWithoutLength value)

/-- The options are measured and put in order before any is looked at as a literal. -/
def makeOptions (value : Json) : Except Fault Part := do
  let items ← collected value
  if items = [] then throw .noOptions
  let measured ← items.mapM measure
  let literals ← (longestFirst (·.1) measured).mapM fun m => checkLiteral m.2
  if h : literals ≠ [] then return options (.ofList literals h) else throw .noOptions

end Part

/-! ## Comparison -/

def Leaf.same : Leaf → Leaf → Bool
  | .literal a, .literal b => a = b
  | .number s, .number t => s.same t
  | .fixedLength m _ s, .fixedLength n _ t => m = n && s.same t
  | _, _ => false

def Part.same : Part → Part → Bool
  | .leaf a, .leaf b => a.same b
  | .options a, .options b => a.literals = b.literals
  | _, _ => false

def Leaf.settings? : Leaf → Option Settings
  | .literal _ => none
  | .number s => some s
  | .fixedLength _ _ s => some s

def Part.obstacle? : Part → Option Json
  | .leaf l => l.settings?.bind Settings.obstacle?
  | .options _ => none

/-! ## Display -/

def Leaf.typeName : Leaf → Text
  | .literal _ => "FixedStringSyntax"
  | .number _ => "NumberSyntax"
  | .fixedLength _ _ _ => "FixedLengthNumberSyntax"

def writeNat (n : Nat) : Except Json.DisplayFault Text :=
  if Text.isWritable n then .ok (Text.ofNat n) else .error .numberTooLong

def Leaf.contents : Leaf → Except Json.DisplayFault Text
  | .literal l => .ok (Text.quoted l.text)
  | .number s => s.display
  | .fixedLength n _ s => do
    let length ← writeNat n
    let settings ← s.display
    return length ++ (", " : Text) ++ settings

def Leaf.display (l : Leaf) : Except Json.DisplayFault Text :=
  (fun contents => l.typeName ++ ("(" : Text) ++ contents ++ (")" : Text)) <$> l.contents

def Part.typeName : Part → Text
  | .leaf l => l.typeName
  | .options _ => "StringOptionsSyntax"

def Part.display : Part → Except Json.DisplayFault Text
  | .leaf l => l.display
  | .options o => .ok ("StringOptionsSyntax(" ++ Text.join ", " (o.texts.map Text.quoted) ++ ")")

/-! ## Messages and classes -/

def Part.Fault.message : Part.Fault → Text
  | notLiteral value => "A fixed string syntax requires a non-empty string, got " ++ value.display
  | notLength value => "A fixed length number requires a positive length, got " ++ value.display
  | optionsAreText t =>
    "String options must be a collection of strings, got the string " ++ Text.quoted t
  | optionsNotIterable value => "'" ++ value.kind ++ "' object is not iterable"
  | noOptions => "String options require at least one option"
  | optionWithoutLength value => "object of type '" ++ value.kind ++ "' has no len()"
  | undisplayable fault => fault.message

def Part.Fault.errorClass : Part.Fault → ErrorClass
  | optionsNotIterable _ | optionWithoutLength _ => .type
  | undisplayable fault => fault.errorClass
  | _ => .library .invalidPart

end Typeahead
