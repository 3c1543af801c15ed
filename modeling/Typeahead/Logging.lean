import Typeahead.Json.Display

/-!
# Logging

Records are handed to a logging library, which has handlers and keeps modules active or silent. What is
documented of it is assumed, and no more: levels are known by name or by their severity; a handler takes
the records of the modules under its filter that reach its level; enabling or disabling a name counts for
the module of that name and for all inside it; and the message of a record is put together only where
its module is active and some handler's level is reached. Numbers of handlers grow, and a handler that
could not be added may use one up.
-/

namespace Typeahead

/-! ## Levels -/

structure Level where
  name : Text
  severity : Int
deriving DecidableEq

namespace Level

def trace : Level := ⟨"TRACE", 5⟩
def debug : Level := ⟨"DEBUG", 10⟩
def info : Level := ⟨"INFO", 20⟩
def success : Level := ⟨"SUCCESS", 25⟩
def warning : Level := ⟨"WARNING", 30⟩
def error : Level := ⟨"ERROR", 40⟩
def critical : Level := ⟨"CRITICAL", 50⟩

def all : List Level := [trace, debug, info, success, warning, error, critical]

def ofName? (name : Text) : Option Level := all.find? (·.name = name)

end Level

inductive LevelFault
  | unknown (name : Text)
  | negative (severity : Int)
  /-- The level is a value of a kind that names none. -/
  | unfit (kind : Text)

inductive LevelChoice
  | named (name : Text)
  | severity (n : Int)
  | other (kind : Text)

def LevelChoice.level : LevelChoice → Except LevelFault Level
  | named name =>
    match Level.ofName? name with
    | some level => .ok level
    | none => .error (.unknown name)
  | severity n => if n < 0 then .error (.negative n) else .ok ⟨"Level " ++ Text.ofInt n, n⟩
  | other kind => .error (.unfit kind)

def LevelFault.message : LevelFault → Text
  | unknown name => "Level '" ++ name ++ "' does not exist"
  | negative severity =>
    "Invalid level value, it should be a positive integer, not: " ++ Text.ofInt severity
  | unfit kind => "Invalid level, it should be an integer or a string, not: '" ++ kind ++ "'"

def LevelFault.errorClass : LevelFault → ErrorClass
  | unfit _ => .type
  | _ => .value

/-! ## Records -/

structure Record where
  module : Text
  function : Text
  /-- The name that the record's source has given itself. -/
  source : Option Text
  level : Level
  /-- The message, or what keeps it from being put together. -/
  message : Except Json.DisplayFault Text

def Record.line (r : Record) (message : Text) : Text :=
  " | " ++ Text.padRight 8 ' ' r.level.name ++ " | " ++ r.module ++ ":" ++ r.function
    ++ ":N - " ++ message ++ "\n"

structure Handler where
  number : Nat
  severity : Int
  filter : Text
deriving DecidableEq

structure Delivery where
  handler : Nat
  source : Option Text
  text : Text
deriving DecidableEq

/-- Whether a module has a name or is inside the module of that name. -/
def within (name module : Text) : Bool := (name ++ ".").isPrefixOf (module ++ ".")

namespace Handler

def reaches (h : Handler) (r : Record) : Bool := h.severity ≤ r.level.severity

def takes (h : Handler) (r : Record) : Bool := within h.filter r.module && h.reaches r

def deliver (h : Handler) (r : Record) (message : Text) : Delivery := ⟨h.number, r.source, r.line message⟩

end Handler

/-! ## The logging library -/

class Logging where
  State : Type
  /-- The state once the handler that is there at the start has been removed. -/
  initial : State
  add : LevelChoice → Text → State → Except LevelFault Nat × State
  remove : Nat → State → State
  enable : Text → State → State
  disable : Text → State → State
  log : State → Record → Except Json.DisplayFault (List Delivery)
  handlers : State → List Handler
  isActive : State → Text → Bool
  /-- Handlers that are still to come have this number or a larger one. -/
  next : State → Nat

open Logging in
class LawfulLogging [Logging] : Prop where
  handlers_initial : handlers initial = []
  add_of_level {choice : LevelChoice} {level : Level} (h : choice.level = .ok level) (filter : Text) (s : State) :
    (add choice filter s).1 = .ok (next s) ∧
      handlers (add choice filter s).2 = handlers s ++ [⟨next s, level.severity, filter⟩] ∧
      next s < next (add choice filter s).2
  add_of_fault {choice : LevelChoice} {fault : LevelFault} (h : choice.level = .error fault) (filter : Text)
    (s : State) :
    (add choice filter s).1 = .error fault ∧ handlers (add choice filter s).2 = handlers s ∧
      next s ≤ next (add choice filter s).2
  isActive_add (choice : LevelChoice) (filter : Text) (s : State) (module : Text) :
    isActive (add choice filter s).2 module = isActive s module
  handlers_remove (number : Nat) (s : State) :
    handlers (remove number s) = (handlers s).filter (·.number ≠ number)
  isActive_remove (number : Nat) (s : State) (module : Text) : isActive (remove number s) module = isActive s module
  next_remove (number : Nat) (s : State) : next s ≤ next (remove number s)
  handlers_enable (name : Text) (s : State) : handlers (enable name s) = handlers s
  isActive_enable (name : Text) (s : State) (module : Text) :
    isActive (enable name s) module = (within name module || isActive s module)
  next_enable (name : Text) (s : State) : next s ≤ next (enable name s)
  handlers_disable (name : Text) (s : State) : handlers (disable name s) = handlers s
  isActive_disable (name : Text) (s : State) (module : Text) :
    isActive (disable name s) module = (!within name module && isActive s module)
  next_disable (name : Text) (s : State) : next s ≤ next (disable name s)
  log_eq (s : State) (r : Record) :
    log s r =
      if isActive s r.module && (handlers s).any (·.reaches r) then
        (fun message => ((handlers s).filter (·.takes r)).map (·.deliver r message)) <$> r.message
      else .ok []

/-! ## The library's own part -/

def libraryModule : Text := "syntaxparts"

section
variable [Logging]

-- the library is silent until something is set up or enabled
def start : Logging.State := Logging.disable libraryModule Logging.initial

/-- Lets the library's records out and adds a handler for them. They are let out even if there is no
such level. -/
def setUp (choice : LevelChoice) (s : Logging.State) : Except LevelFault Nat × Logging.State :=
  Logging.add choice libraryModule (Logging.enable libraryModule s)

def logAll (s : Logging.State) : List Record → List Delivery × Except Json.DisplayFault Unit
  | [] => ([], .ok ())
  | r :: rest =>
    match Logging.log s r with
    | .error fault => ([], .error fault)
    | .ok deliveries =>
      let (later, result) := logAll s rest
      (deliveries ++ later, result)

end

def boundName (name : Option Text) : Option Text := name.filter (· ≠ [])

end Typeahead
