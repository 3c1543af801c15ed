import Typeahead.Members
import Typeahead.Template.Layout
import Typeahead.Template.Piece

/-!
# Fields

A template has one argument, a whole number called `length`. A field's name starts with the name of the
argument and may go on to attributes and items, as far as the host knows of any: a number is in
itself a fraction and a complex number, and has no items. Everything else that a name can say is a fault.
What was read last in a name is looked at last, so the first fault counts.
-/

namespace Typeahead.Template

inductive Fault
  | markup (fault : MarkupFault)
  | unknownName (name : Text)
  | noPosition (position : Nat)
  | notIndexed
  | raised (error : Raised)
  | emptyAttribute
  | unclosedIndex
  | afterIndex
  | unknownConversion (c : CodePoint)
  | tooDeep
  | spec (fault : SpecFault)
  | layout (fault : LayoutFault)
deriving DecidableEq, Repr

/-! ## Names -/

inductive Access
  | member (name : Text)
  | index (name : Text)
  | broken (fault : Fault)
deriving DecidableEq, Repr

inductive AccessPlace
  | between
  | member (read : Text)
  | index (read : Text)

def accessesFrom : AccessPlace → Text → List Access
  | .between, [] => []
  | .between, '.' :: t => accessesFrom (.member []) t
  | .between, '[' :: t => accessesFrom (.index []) t
  | .between, _ :: _ => [.broken .afterIndex]
  | .member read, [] => [.member read.reverse]
  | .member read, c :: t =>
    if c = '.' then .member read.reverse :: accessesFrom (.member []) t
    else if c = '[' then .member read.reverse :: accessesFrom (.index []) t
    else accessesFrom (.member (c :: read)) t
  | .index _, [] => [.broken .unclosedIndex]
  | .index read, c :: t =>
    if c = ']' then .index read.reverse :: accessesFrom .between t
    else accessesFrom (.index (c :: read)) t

def startsAccess (c : CodePoint) : Bool := c = '.' || c = '['

def position? (t : Text) : Except Fault (Option Nat) :=
  if t = [] then .ok none
  else
    match Spec.readDigits 0 t with
    | .ok (n, []) => .ok (some n)
    | .ok _ => .ok none
    | .error e => .error (.spec e)

section
variable [Host]

/-- The argument that a name starts with. There are none that are known by their position. -/
def argument (n : Int) (first : Text) : Except Fault (Target Host.Object) := do
  match ← position? first with
  | some position => throw (.noPosition position)
  | none =>
    if first = [] then throw (.noPosition 0)
    else if first = "length" then return .number n
    else throw (.unknownName first)

def member (name : Text) (target : Target Host.Object) : Except Fault (Target Host.Object) :=
  let known := (Host.member target name).mapError .raised
  if name = [] then .error .emptyAttribute
  else
    match target with
    | .number n =>
      if name = "real" ∨ name = "numerator" then .ok (.number n)
      else if name = "imag" then .ok (.number 0)
      else if name = "denominator" then .ok (.number 1)
      else known
    | .other _ => known

def item (name : Text) (target : Target Host.Object) : Except Fault (Target Host.Object) := do
  let position ← position? name
  if name = [] then throw .emptyAttribute
  match target with
  | .number _ => throw .notIndexed
  | .other o =>
    let key := (position.map ItemKey.position).getD (.name name)
    (Host.item o key).mapError .raised

def access (target : Target Host.Object) : Access → Except Fault (Target Host.Object)
  | .member name => member name target
  | .index name => item name target
  | .broken fault => .error fault

def fieldTarget (n : Int) (name : Text) : Except Fault (Target Host.Object) := do
  let first := name.takeWhile (!startsAccess ·)
  let rest := name.dropWhile (!startsAccess ·)
  let target ← argument n first
  (accessesFrom .between rest).foldlM access target

end

/-! ## Values -/

inductive Value (Object : Type)
  | whole (n : Int)
  | text (t : Text)
  | other (o : Object)
deriving DecidableEq, Repr

def decimal (n : Int) : Except Fault Text :=
  if Text.isWritable n then .ok (Text.ofInt n) else .error (.layout .numberTooLong)

section
variable [Host]

def Target.text (c : CodePoint) : Target Host.Object → Except Fault Text
  | .number n => decimal n
  | .other o => (Host.shown o c).mapError .raised

def Target.value : Target Host.Object → Value Host.Object
  | .number n => .whole n
  | .other o => .other o

/-- All conversions make a text of what they are given, except the character zero, which stands for none. -/
def convert (target : Target Host.Object) : Option CodePoint → Except Fault (Value Host.Object)
  | none | some '\x00' => .ok (Target.value target)
  | some c =>
    if c = 'r' ∨ c = 's' ∨ c = 'a' then .text <$> Target.text c target
    else .error (.unknownConversion c)

def Value.format (spec : Text) : Value Host.Object → Except Fault Blocks
  | .whole n =>
    if spec = [] then (fun t => [.once t]) <$> decimal n
    else
      match Spec.read wholeSubject spec with
      | .ok s => (layoutWhole s n).mapError .layout
      | .error e => .error (.spec e)
  | .text t =>
    if spec = [] then .ok [.once t]
    else
      match Spec.read textSubject spec with
      | .ok s => (layoutText s t).mapError .layout
      | .error e => .error (.spec e)
  | .other o =>
    match Host.format o spec with
    | .ok t => .ok [.once t]
    | .error e => .error (.raised e)

end

end Typeahead.Template
