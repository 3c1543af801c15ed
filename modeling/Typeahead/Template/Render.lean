import Typeahead.Template.Field
import Typeahead.Text.Quoted

/-!
# Rendering templates

A template is rendered piece by piece, and the first fault ends it. A specification may hold fields
of its own, but those may not hold any.
-/

namespace Typeahead.Template

section
variable [Host]

def renderField (nested : Text → Except Fault Blocks) (n : Int) (name : Text)
    (conversion : Option CodePoint) (spec : Text) : Except Fault Blocks := do
  let target ← fieldTarget n name
  let value ← convert target conversion
  let spec ← if .scalar '{' ∈ spec then Blocks.toText <$> nested spec else pure spec
  value.format spec

def renderPieces (nested : Text → Except Fault Blocks) (n : Int) : List Piece → Except Fault Blocks
  | [] => .ok []
  | .char c :: rest => (.once [c] :: ·) <$> renderPieces nested n rest
  | .field name conversion spec :: rest => do
    let shown ← renderField nested n name conversion spec
    let rest ← renderPieces nested n rest
    return shown ++ rest
  | .broken fault :: _ => .error (.markup fault)

/-- Renders down to a depth of nested fields. -/
def renderTo : Nat → Int → Text → Except Fault Blocks
  | 0, _, _ => .error .tooDeep
  | depth + 1, n, t => renderPieces (renderTo depth n) n (pieces t)

def renderBlocks (t : Text) (n : Int) : Except Fault Blocks := renderTo 2 n t

def render (t : Text) (n : Int) : Except Fault Text := Blocks.toText <$> renderBlocks t n

/-- Whether the template can be rendered for the lengths one and two and tells them apart. -/
def showsLength (t : Text) : Bool :=
  match renderBlocks t 1, renderBlocks t 2 with
  | .ok one, .ok two => !one.same two
  | _, _ => false

theorem showsLength_iff {t : Text} :
    showsLength t = true ↔ ∃ one two, render t 1 = .ok one ∧ render t 2 = .ok two ∧ one ≠ two := by
  simp only [showsLength, render]
  cases renderBlocks t 1 <;> cases renderBlocks t 2 <;>
    simp [Functor.map, Except.map, ← Blocks.same_iff]

end

/-! ## Messages and classes -/

def Fault.message : Fault → Text
  | markup fault => fault.message
  | unknownName name => Text.quoted name
  | noPosition position =>
    "Replacement index " ++ Text.ofNat position ++ " out of range for positional args tuple"
  | notIndexed => "'int' object is not subscriptable"
  | raised error => error.message
  | emptyAttribute => "Empty attribute in format string"
  | unclosedIndex => "Missing ']' in format string"
  | afterIndex => "Only '.' or '[' may follow ']' in format field specifier"
  | unknownConversion c =>
    "Unknown conversion specifier "
      ++ (if 0x20 < c.toNat ∧ c.toNat < 0x7f then [c] else '\\' :: 'x' :: Text.hex 1 c.toNat)
  | tooDeep => "Max string recursion exceeded"
  | spec fault => fault.message
  | layout fault => fault.message

def Fault.errorClass : Fault → ErrorClass
  | unknownName _ => .key
  | noPosition _ => .index
  | notIndexed => .type
  | raised error => error.kind
  | layout fault => fault.errorClass
  | _ => .value

theorem Fault.foreign (fault : Fault) : fault.errorClass.isLibrary = false := by
  cases fault with
  | raised error => exact error.foreign
  | layout fault => cases fault <;> rfl
  | _ => rfl

end Typeahead.Template
