import Typeahead.Json.Display
import Typeahead.Template.Render

/-!
# Settings

Settings say how numbers are offered: under what label, and with what digit they are filled up. The
label of a number of fixed length is a template, which has to show the length. Version and label of
a free number may be any value.
-/

namespace Typeahead

variable [Host]

structure Settings where
  version : Json
  numberLabel : Json
  lengthLabel : Text
  pad : CodePoint
  pad_digit : pad.isDigit = true
  shows_length : Template.showsLength lengthLabel = true

namespace Settings

inductive Fault
  /-- The pad is of a kind that has no length. -/
  | padWithoutLength (value : Json)
  /-- The pad is one item long, but no text. -/
  | padUnordered (value : Json)
  | padNotDigit (value : Json)
  | labelNotText (value : Json)
  | label (label : Text) (fault : Template.Fault)
  | lengthHidden (label : Text)
  | raised (error : Raised)
  /-- The message would show a value that cannot be displayed. -/
  | undisplayable (fault : Json.DisplayFault)

/-! ## Checks -/

def refusePad (value : Json) : Fault := value.refusing .padNotDigit .undisplayable

def checkPad (value : Json) : Except Fault { c : CodePoint // c.isDigit = true } :=
  match value.length? with
  | none => .error (.padWithoutLength value)
  | some 1 =>
    match value with
    | .string [c] => if h : c.isDigit = true then .ok ⟨c, h⟩ else .error (refusePad value)
    | _ => .error (.padUnordered value)
  | some _ => .error (refusePad value)

def checkLabel (value : Json) :
    Except Fault { t : Text // Template.showsLength t = true } :=
  match value with
  | .string t =>
    match h : Template.renderBlocks t 1, h' : Template.renderBlocks t 2 with
    | .error e, _ | .ok _, .error e => .error (.label t e)
    | .ok one, .ok two =>
      if same : one.same two = true then .error (.lengthHidden t)
      else .ok ⟨t, by simp [Template.showsLength, h, h', same]⟩
  | _ => .error (.labelNotText value)

/-- Settings from four values, of which the pad is looked at first. -/
def make (version numberLabel lengthLabel pad : Json) : Except Fault Settings := do
  let pad ← checkPad pad
  let label ← checkLabel lengthLabel
  return ⟨version, numberLabel, label, pad, pad.2, label.2⟩

/-! ## The settings used where none are given -/

def defaultVersion : Text := "0.1"

def defaultNumberLabel : Text := "\x7bnumber\x7d"

def defaultLengthLabel : Text := "\x7b\x7b\x7blength\x7d-digit number\x7d\x7d"

def defaultPad : CodePoint := '0'

theorem showsLength_defaultLengthLabel : Template.showsLength defaultLengthLabel = true :=
  Template.showsLength_iff.2 ⟨"\x7b1-digit number\x7d", "\x7b2-digit number\x7d", rfl, rfl, by decide⟩

instance : Inhabited Settings where
  default :=
    { version := .string defaultVersion
      numberLabel := .string defaultNumberLabel
      lengthLabel := defaultLengthLabel
      pad := defaultPad
      pad_digit := by decide
      shows_length := showsLength_defaultLengthLabel }

/-! ## Labels -/

def renderLength (s : Settings) (n : Int) : Except Template.Fault Text :=
  Template.render s.lengthLabel n

/-! ## Comparison -/

def same (a b : Settings) : Bool :=
  a.version.same b.version && a.numberLabel.same b.numberLabel && a.lengthLabel = b.lengthLabel
    && a.pad = b.pad

def obstacle? (s : Settings) : Option Json :=
  [s.version, s.numberLabel].find? fun value => !value.isKey

/-! ## Fields -/

def versionName : Text := "version"

def numberLabelName : Text := "number_placeholder"

def lengthLabelName : Text := "fixed_length_number_placeholder"

def padName : Text := "pad_character"

structure Fields where
  version : Json
  numberLabel : Json
  lengthLabel : Json
  pad : Json

def Fields.members (f : Fields) : List (Text × Json) :=
  [(versionName, f.version), (numberLabelName, f.numberLabel), (lengthLabelName, f.lengthLabel), (padName, f.pad)]

def fields (s : Settings) : Fields := ⟨s.version, s.numberLabel, .string s.lengthLabel, .string [s.pad]⟩

def display (s : Settings) : Except Json.DisplayFault Text := do
  let shown ← s.fields.members.mapM fun f => do return f.1 ++ ("=" : Text) ++ (← f.2.shown)
  return "SyntaxConfig(" ++ Text.join ", " shown ++ ")"

/-! ## Messages and classes -/

/-- Faults of a label with an error of one of these classes are reported together with the label. -/
def translated : List ErrorClass := [.index, .key, .value]

def Fault.message : Fault → Text
  | padWithoutLength value => "object of type '" ++ value.kind ++ "' has no len()"
  | padUnordered value => "'<=' not supported between instances of 'str' and '" ++ value.kind ++ "'"
  | padNotDigit value => "Pad character must be a single digit, got " ++ value.display
  | labelNotText value => "'" ++ value.kind ++ "' object has no attribute 'format'"
  | label t fault =>
    if fault.errorClass.handledBy translated then
      "Invalid fixed length number placeholder " ++ Text.quoted t ++ ": " ++ fault.message
    else fault.message
  | lengthHidden t =>
    "Fixed length number placeholder " ++ Text.quoted t ++ " must contain a \x7blength\x7d field"
  | raised error => error.message
  | undisplayable fault => fault.message

def Fault.errorClass : Fault → ErrorClass
  | padWithoutLength _ | padUnordered _ => .type
  | labelNotText _ => .attribute
  | padNotDigit _ | lengthHidden _ => .library .invalidSettings
  | label _ fault =>
    if fault.errorClass.handledBy translated then .library .invalidSettings else fault.errorClass
  | raised error => error.kind
  | undisplayable fault => fault.errorClass

end Settings

end Typeahead
