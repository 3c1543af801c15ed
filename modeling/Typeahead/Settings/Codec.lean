import Typeahead.Json.Writer
import Typeahead.Settings.Basic

/-!
# Settings as JSON

A library of its own turns the fields of settings into JSON and finds them in it again. What is documented
of it is that an object gives each field the value of the member with its name, made a text unless it is
null; that the first member that is missing is an error, as is everything but an object; and that fields
that hold texts and nulls are written as an object of four members, over several lines.
-/

namespace Typeahead.Settings

class Codec where
  decode : Json → Except Raised Fields
  encode : Fields → Except Raised Json
  write : Fields → Except Raised Text

def Fields.HasTexts (f : Fields) : Prop := ∀ m ∈ f.members, m.2 = .null ∨ ∃ t, m.2 = .string t

section
variable [Host]

def undisplayable (fault : Json.DisplayFault) : Raised :=
  ⟨fault.errorClass, fault.message, fault.foreign⟩

/-- A member's value as a field's: a text, unless it is null. -/
def coerce : Json → Except Raised Json
  | .null => .ok .null
  | .string t => .ok (.string t)
  | value => .string <$> value.shown.mapError undisplayable

def field (members : List (Text × Json)) (name : Text) : Except Raised Json :=
  match Members.get? members name with
  | none => .error ⟨.key, Text.quoted name, rfl⟩
  | some value => coerce value

def Fields.ofMembers (members : List (Text × Json)) : Except Raised Fields := do
  let version ← field members versionName
  let numberLabel ← field members numberLabelName
  let lengthLabel ← field members lengthLabelName
  let pad ← field members padName
  return ⟨version, numberLabel, lengthLabel, pad⟩

class LawfulCodec [Codec] : Prop where
  decode_object (members : List (Text × Json)) : Codec.decode (.object members) = Fields.ofMembers members
  decode_other (value : Json) : (∀ members, value ≠ .object members) →
    ∃ e : Raised, Codec.decode value = .error e ∧ e.kind = .attribute
  encode_texts (f : Fields) : f.HasTexts → Codec.encode f = .ok (.object f.members)
  write_texts (f : Fields) : f.HasTexts → Codec.write f = .ok (Json.text (.object f.members))

variable [Codec]

def ofJson (value : Json) : Except Fault Settings := do
  let f ← (Codec.decode value).mapError .raised
  make f.version f.numberLabel f.lengthLabel f.pad

def toJson (s : Settings) : Except Raised Json := Codec.encode s.fields

def fileText (s : Settings) : Except Raised Text := (· ++ "\n") <$> Codec.write s.fields

end

/-! ## A codec -/

-- each level of a value takes two calls
def writeDepth : Nat := 491

def Fields.ifFlat (f : Fields) : Except Raised Json :=
  if f.members.all fun m => m.2.depth ≤ writeDepth then .ok (.object f.members)
  else .error ⟨.recursion, "maximum recursion depth exceeded in comparison", rfl⟩

theorem ifFlat_of_texts {f : Fields} (h : f.HasTexts) : f.ifFlat = .ok (.object f.members) := by
  refine if_pos (List.all_eq_true.2 fun m hm => ?_)
  rcases h m hm with hnull | ⟨t, ht⟩
  · rw [hnull]
    rfl
  · rw [ht]
    rfl

section
variable [Host]

@[reducible] def Codec.usual : Codec where
  decode
    | .object members => Fields.ofMembers members
    | value => .error (.attribute ("'" ++ value.kind ++ "' object has no attribute 'items'"))
  encode := Fields.ifFlat
  write f := Json.text <$> f.ifFlat

theorem lawfulCodec_usual : @LawfulCodec _ Codec.usual := by
  let _ := Codec.usual
  constructor
  · intro members
    rfl
  · intro value hvalue
    cases value with
    | object members => exact absurd rfl (hvalue members)
    | _ => exact ⟨_, rfl, rfl⟩
  · intro f h
    exact ifFlat_of_texts h
  · intro f h
    show Json.text <$> f.ifFlat = _
    rw [ifFlat_of_texts h]
    rfl

end

end Typeahead.Settings
