import Typeahead.Members
import Typeahead.Text
import Typeahead.Number.Binary64

/-!
# JSON values

Whole numbers and floating-point numbers are kept apart, and the members of an object keep their
order. Equality compares numbers by value, whatever their kind, and objects without regard to order.
-/

namespace Typeahead

open Number

inductive Json
  | null
  | bool (b : Bool)
  | int (n : Int)
  | float (x : Binary64)
  | string (t : Text)
  | array (items : List Json)
  | object (members : List (Text × Json))
deriving Repr, Inhabited

namespace Json

def kind : Json → Text
  | null => "NoneType"
  | bool _ => "bool"
  | int _ => "int"
  | float _ => "float"
  | string _ => "str"
  | array _ => "list"
  | object _ => "dict"

def length? : Json → Option Nat
  | string t => some t.length
  | array items => some items.length
  | object members => some members.length
  | _ => none

mutual

def depth : Json → Nat
  | array items => itemsDepth items + 1
  | object members => membersDepth members + 1
  | _ => 0

def itemsDepth : List Json → Nat
  | [] => 0
  | item :: rest => max (depth item) (itemsDepth rest)

def membersDepth : List (Text × Json) → Nat
  | [] => 0
  | (_, value) :: rest => max (depth value) (membersDepth rest)

end

/-! ## Equality -/

def whole? : Json → Option Int
  | bool b => some (if b then 1 else 0)
  | int n => some n
  | _ => none

/-- Equality of values that have no parts. -/
def sameLeaf (a b : Json) : Bool :=
  match a, b with
  | null, null => true
  | string t, string u => t = u
  | float x, float y => x.same y
  | float x, b => (b.whole?.map x.isInt).getD false
  | a, float y => (a.whole?.map y.isInt).getD false
  | a, b => a.whole?.isSome && a.whole? = b.whole?

mutual

def same : Json → Json → Bool
  | array items, b =>
    match b with
    | array items' => sameItems items items'
    | _ => false
  | object members, b =>
    match b with
    | object members' => members.length = members'.length && sameMembers members members'
    | _ => false
  | a, b => sameLeaf a b

def sameItems : List Json → List Json → Bool
  | [], [] => true
  | a :: as, b :: bs => same a b && sameItems as bs
  | _, _ => false

def sameMembers : List (Text × Json) → List (Text × Json) → Bool
  | [], _ => true
  | (key, a) :: rest, members' =>
    (match Members.get? members' key with
      | some b => same a b
      | none => false) && sameMembers rest members'

end

def isKey : Json → Bool
  | array _ => false
  | object _ => false
  | _ => true

/-! ## Sums -/

/-- Why there is no sum, with the kinds of its two sides. -/
inductive SumError
  /-- Only its like can be put at the end of what is on the left. -/
  | unlike (left right : Text)
  | undefined (left right : Text)
  /-- A whole number has no place among the floating-point numbers. -/
  | tooLarge
deriving DecidableEq, Repr

def toFloat (n : Int) : Except SumError Binary64 :=
  match Binary64.ofInt n with
  | .infinite _ => .error .tooLarge
  | x => .ok x

def add (a b : Json) : Except SumError Json :=
  match a, b with
  | string t, string u => .ok (string (t ++ u))
  | array as, array bs => .ok (array (as ++ bs))
  | string _, _ | array _, _ => .error (.unlike a.kind b.kind)
  | float x, float y => .ok (float (x.add y))
  | float x, b =>
    match b.whole? with
    | some n => (fun y => float (x.add y)) <$> toFloat n
    | none => .error (.undefined a.kind b.kind)
  | a, float y =>
    match a.whole? with
    | some n => (fun x => float (x.add y)) <$> toFloat n
    | none => .error (.undefined a.kind b.kind)
  | a, b =>
    match a.whole?, b.whole? with
    | some m, some n => .ok (int (m + n))
    | _, _ => .error (.undefined a.kind b.kind)

end Json

end Typeahead
