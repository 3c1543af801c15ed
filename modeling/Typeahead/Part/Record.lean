import Typeahead.Logging
import Typeahead.Part.Match

/-!
# Records of rejections

Each rejection is recorded at the lowest level, under the module of the leaf's kind. Its message is a template
that is filled once, when the record is to be delivered.
-/

namespace Typeahead

/-! ## Wording -/

section
variable [Host]

inductive Shown
  | leaf (l : Leaf)
  | text (t : Text)
  | number (n : Int)

-- a text is quoted if the field converts it
def Shown.display (conversion : Option CodePoint) : Shown → Except Json.DisplayFault Text
  | leaf l => l.display
  | text t => .ok (if conversion = some 'r' then Text.quoted t else t)
  | number n => .ok (Text.ofInt n)

/-- Fills the fields of a template one after another. What stands in a field is not read as a template. -/
def fill : List Template.Piece → List Shown → Except Json.DisplayFault Text
  | .char c :: pieces, shown => (c :: ·) <$> fill pieces shown
  | .field _ conversion _ :: pieces, s :: shown => do
    let t ← s.display conversion
    return t ++ (← fill pieces shown)
  | _, _ => .ok []

def Reason.wording : Reason → Text
  | .mismatch => "\x7b!r\x7d rejected \x7b!r\x7d at \x7b\x7d"
  | .tooManyDigits _ => "\x7b!r\x7d rejected \x7b\x7d digits in \x7b!r\x7d at \x7b\x7d"

def Rejection.shown (r : Rejection) : List Shown :=
  match r.reason with
  | .mismatch => [.leaf r.leaf, .text r.value, .number r.index]
  | .tooManyDigits count => [.leaf r.leaf, .number count, .text r.value, .number r.index]

def Rejection.message (r : Rejection) : Except Json.DisplayFault Text :=
  fill (Template.pieces r.reason.wording) r.shown

/-! ## Records -/

def Leaf.module : Leaf → Text
  | .literal _ => "syntaxparts.parts.fixedstringsyntax"
  | .number _ => "syntaxparts.parts.numbersyntax"
  | .fixedLength _ _ _ => "syntaxparts.parts.fixedlengthnumbersyntax"

def Rejection.record (r : Rejection) : Record :=
  ⟨r.leaf.module, "match", boundName (some "parts"), .trace, r.message⟩

/-- An operation as it is run: what it reports is logged on the way, and a record that cannot be put together
ends it. -/
def Reported.logged [Logging] {ε α : Type} (undisplayable : Json.DisplayFault → ε) (s : Logging.State)
    (x : Reported ε α) : List Delivery × Except ε α :=
  match logAll s (x.rejections.map Rejection.record) with
  | (deliveries, .ok ()) => (deliveries, x.result)
  | (deliveries, .error fault) => (deliveries, .error (undisplayable fault))

end

end Typeahead
