import Typeahead.Part.Basic
import Typeahead.Part.Digits

/-!
# Matches

A part matches the text from a position on if the text starts with a word of the part, fully, or if it
ends before such a word does. What is rejected is reported, leaf by leaf.
-/

namespace Typeahead

inductive Extent
  /-- A word of the part is there. -/
  | full
  /-- The text ended first; more of it could complete a word. -/
  | begun
deriving DecidableEq, Repr

structure Match where
  extent : Extent
  consumed : Int
deriving DecidableEq, Repr

namespace Extent

def name : Extent → Text
  | full => "full"
  | begun => "partial"

def label : Extent → Text
  | full => "FULL"
  | begun => "PARTIAL"

def display (e : Extent) : Text :=
  "<MatchType." ++ e.label ++ ": '" ++ e.name ++ "'>"

def ofName? (t : Text) : Option Extent := [full, begun].find? (·.name = t)

end Extent

namespace Match

def full (consumed : Int) : Match := ⟨.full, consumed⟩

def begun (consumed : Int) : Match := ⟨.begun, consumed⟩

def isFull (m : Match) : Bool := m.extent = .full

def display (m : Match) : Text :=
  "SyntaxMatch(type=" ++ m.extent.display ++ ", consumed=" ++ Text.ofInt m.consumed ++ ")"

end Match

/-! ## The rest of a text -/

def Literal.matchRest (l : Literal) (rest : Text) : Option Match :=
  let compared := rest.take l.length
  if compared.isPrefixOf l.text then
    if compared.length = l.length then some (.full compared.length)
    else some (.begun compared.length)
  else none

def numberMatchRest (rest : Text) : Option Match :=
  (digitRun? rest).map fun run => if run = [] then .begun 0 else .full run.length

/-- A run of digits that is too long is no match. -/
def fixedLengthMatchRest (length : Nat) (rest : Text) : Option Match :=
  (digitRun? rest).bind fun run =>
    if run.length = length then some (.full run.length)
    else if run.length < length then some (.begun run.length)
    else none

section
variable [Host]

def Leaf.matchRest : Leaf → Text → Option Match
  | .literal l, rest => l.matchRest rest
  | .number _, rest => numberMatchRest rest
  | .fixedLength length _ _, rest => fixedLengthMatchRest length rest

end

def firstFull (found : List Match) : Option Match :=
  match found.find? Match.isFull with
  | some m => some m
  | none => found.head?

/-! ## Reports -/

section
variable [Host]

inductive Reason
  | mismatch
  | tooManyDigits (count : Nat)
deriving DecidableEq, Repr

structure Rejection where
  leaf : Leaf
  value : Text
  index : Int
  reason : Reason

def Leaf.reason : Leaf → Text → Reason
  | .fixedLength _ _ _, rest =>
    match digitRun? rest with
    | some run => .tooManyDigits run.length
    | none => .mismatch
  | _, _ => .mismatch

structure Reported (ε α : Type) where
  rejections : List Rejection
  result : Except ε α

namespace Reported

variable {ε α β : Type}

def ofExcept (result : Except ε α) : Reported ε α := ⟨[], result⟩

def report (r : Rejection) : Reported ε Unit := ⟨[r], .ok ()⟩

def andThen (x : Reported ε α) (f : α → Reported ε β) : Reported ε β :=
  match x.result with
  | .ok a => ⟨x.rejections ++ (f a).rejections, (f a).result⟩
  | .error e => ⟨x.rejections, .error e⟩

instance : Monad (Reported ε) where
  pure a := ⟨[], .ok a⟩
  bind := andThen

instance : MonadExceptOf ε (Reported ε) where
  throw e := ⟨[], .error e⟩
  tryCatch x handle :=
    match x.result with
    | .ok _ => x
    | .error e => ⟨x.rejections ++ (handle e).rejections, (handle e).result⟩

@[simp] theorem rejections_pure (a : α) : (pure a : Reported ε α).rejections = [] := rfl

@[simp] theorem result_pure (a : α) : (pure a : Reported ε α).result = .ok a := rfl

theorem bind_of_ok {x : Reported ε α} {a : α} (h : x.result = .ok a) (f : α → Reported ε β) :
    x >>= f = ⟨x.rejections ++ (f a).rejections, (f a).result⟩ := by
  show andThen x f = _
  simp [andThen, h]

theorem bind_of_error {x : Reported ε α} {e : ε} (h : x.result = .error e)
    (f : α → Reported ε β) : x >>= f = ⟨x.rejections, .error e⟩ := by
  show andThen x f = _
  simp [andThen, h]

end Reported

/-! ## Any position -/

inductive QueryFault
  | outside (index : Int) (value : Text)
  | noMatch (part : Part) (value : Text) (index : Int)
  /-- The message would show something that cannot be displayed. -/
  | undisplayable (fault : Json.DisplayFault)
  | label (fault : Template.Fault)
  /-- The length is no machine word. -/
  | lengthTooLarge
  /-- So many digits cannot be filled up to. -/
  | valueTooLong

/-- Why there is nothing at a position outside of a text: the message shows the position. -/
def QueryFault.ofIndex (index : Int) (value : Text) : QueryFault :=
  if Text.isWritable index then outside index value else undisplayable .numberTooLong

/-- Why a part has no suggestions: the message shows the part. A position that is inside of a text can be
shown, too. -/
def QueryFault.ofPart (part : Part) (value : Text) (index : Int) : QueryFault :=
  match part.display with
  | .ok _ => noMatch part value index
  | .error fault => undisplayable fault

/-- The text from a position on. Its end is a position, too. -/
def restAt (value : Text) (index : Int) : Except QueryFault Text :=
  if 0 ≤ index ∧ index ≤ value.length then .ok (value.drop index.toNat)
  else .error (.ofIndex index value)

def Leaf.matchAt (l : Leaf) (value : Text) (index : Int) : Reported QueryFault (Option Match) := do
  let rest ← .ofExcept (restAt value index)
  match l.matchRest rest with
  | some m => return some m
  | none =>
    .report ⟨l, value, index, l.reason rest⟩
    return none

def Part.matchAt (p : Part) (value : Text) (index : Int) :
    Reported QueryFault (Option Match) := do
  match p with
  | .leaf l => l.matchAt value index
  | .options _ =>
    let found ← p.leaves.mapM fun l => l.matchAt value index
    return firstFull (found.filterMap id)

theorem restAt_natCast {value : Text} {n : Nat} (h : n ≤ value.length) :
    restAt value n = .ok (value.drop n) := by
  have : 0 ≤ (n : Int) ∧ (n : Int) ≤ value.length := by omega
  simp only [restAt, this, and_self, if_true, Int.toNat_natCast]

/-! ## Messages and classes -/

def QueryFault.message : QueryFault → Text
  | outside index value =>
    "Index " ++ Text.ofInt index ++ " is outside of the input string " ++ Text.quoted value
  | noMatch part value index =>
    part.display.toOption.getD [] ++ " does not match " ++ Text.quoted value ++ " at " ++ Text.ofInt index
  | undisplayable fault => fault.message
  | label fault => fault.message
  | lengthTooLarge => "Python int too large to convert to C ssize_t"
  | valueTooLong => []

def QueryFault.errorClass : QueryFault → ErrorClass
  | outside _ _ => .library .invalidIndex
  | noMatch _ _ _ => .library .noMatch
  | undisplayable fault => fault.errorClass
  | label fault => fault.errorClass
  | lengthTooLarge => .overflow
  | valueTooLong => .memory

end

end Typeahead
