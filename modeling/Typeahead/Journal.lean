import Typeahead.Logging

/-!
# A journal

A logging library that keeps just what is documented: its handlers, and all that was enabled or disabled,
of which the last that bears on a module counts.
-/

namespace Typeahead

structure Journal where
  -- what was last enabled or disabled comes first
  switches : List (Text × Bool)
  handlers : List Handler
  next : Nat

namespace Journal

def isActive (j : Journal) (module : Text) : Bool :=
  ((j.switches.find? fun switch => within switch.1 module).map (·.2)).getD true

def switch (name : Text) (on : Bool) (j : Journal) : Journal := { j with switches := (name, on) :: j.switches }

def add (j : Journal) (choice : LevelChoice) (filter : Text) : Except LevelFault Nat × Journal :=
  match choice.level with
  | .ok level =>
    (.ok j.next, { j with handlers := j.handlers ++ [⟨j.next, level.severity, filter⟩], next := j.next + 1 })
  | .error fault => (.error fault, j)

def remove (number : Nat) (j : Journal) : Journal :=
  { j with handlers := j.handlers.filter (·.number ≠ number) }

def log (j : Journal) (r : Record) : Except Json.DisplayFault (List Delivery) :=
  if j.isActive r.module && j.handlers.any (·.reaches r) then
    (fun message => (j.handlers.filter (·.takes r)).map (·.deliver r message)) <$> r.message
  else .ok []

@[reducible] def logging : Logging where
  State := Journal
  initial := ⟨[], [], 0⟩
  add choice filter j := j.add choice filter
  remove := remove
  enable name := switch name true
  disable name := switch name false
  log := log
  handlers := handlers
  isActive := isActive
  next := next

theorem isActive_switch (name : Text) (on : Bool) (j : Journal) (module : Text) :
    (j.switch name on).isActive module = if within name module then on else j.isActive module := by
  unfold isActive switch
  rw [List.find?_cons]
  cases within name module <;> rfl

theorem add_of_level {choice : LevelChoice} {level : Level} (h : choice.level = .ok level) (filter : Text) (j : Journal) :
    j.add choice filter =
      (.ok j.next, { j with handlers := j.handlers ++ [⟨j.next, level.severity, filter⟩], next := j.next + 1 }) := by
  rw [add, h]

theorem add_of_fault {choice : LevelChoice} {fault : LevelFault} (h : choice.level = .error fault) (filter : Text)
    (j : Journal) : j.add choice filter = (.error fault, j) := by
  rw [add, h]

theorem lawful : @LawfulLogging logging := by
  let _ := logging
  constructor
  case handlers_initial => rfl
  case add_of_level =>
    intro choice level h filter (s : Journal)
    show (s.add choice filter).1 = _ ∧ (s.add choice filter).2.handlers = _ ∧ s.next < (s.add choice filter).2.next
    rw [add_of_level h]
    exact ⟨rfl, rfl, Nat.lt_succ_self _⟩
  case add_of_fault =>
    intro choice fault h filter (s : Journal)
    show (s.add choice filter).1 = _ ∧ (s.add choice filter).2.handlers = _ ∧ s.next ≤ (s.add choice filter).2.next
    rw [add_of_fault h]
    exact ⟨rfl, rfl, Nat.le_refl _⟩
  case isActive_add =>
    intro choice filter (s : Journal) module
    show isActive (s.add choice filter).2 module = _
    unfold add
    cases choice.level <;> rfl
  case handlers_remove => intro number s; rfl
  case isActive_remove => intro number s module; rfl
  case next_remove => intro number s; exact Nat.le_refl _
  case handlers_enable => intro name s; rfl
  case isActive_enable =>
    intro name s module
    refine (isActive_switch name true s module).trans ?_
    cases within name module <;> rfl
  case next_enable => intro name s; exact Nat.le_refl _
  case handlers_disable => intro name s; rfl
  case isActive_disable =>
    intro name s module
    refine (isActive_switch name false s module).trans ?_
    cases within name module <;> rfl
  case next_disable => intro name s; exact Nat.le_refl _
  case log_eq => intro s r; rfl

end Journal

end Typeahead
