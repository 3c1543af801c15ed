import Typeahead.Text

/-!
# Classes of errors

Every fault is raised as an error of some class, and is handled, translated or passed on by that class
alone. A class may have a parent, whose handlers take its errors, too.
-/

namespace Typeahead

inductive LibraryError
  | invalidPart
  | invalidIndex
  | noMatch
  | invalidSettings
deriving DecidableEq, Repr

inductive ErrorClass
  | library (e : LibraryError)
  | attribute
  | index
  | key
  | memory
  | overflow
  | recursion
  | type
  | value
  | decoding
  | encoding
  | json
  | system
  | notFound
  | alreadyThere
  | notDirectory
  | isDirectory
  | other (name : Text)
deriving DecidableEq, Repr

namespace ErrorClass

def name : ErrorClass → Text
  | .library .invalidPart => "InvalidSyntaxPartException"
  | .library .invalidIndex => "InvalidIndexException"
  | .library .noMatch => "NoMatchException"
  | .library .invalidSettings => "InvalidConfigException"
  | .attribute => "AttributeError"
  | .index => "IndexError"
  | .key => "KeyError"
  | .memory => "MemoryError"
  | .overflow => "OverflowError"
  | .recursion => "RecursionError"
  | .type => "TypeError"
  | .value => "ValueError"
  | .decoding => "UnicodeDecodeError"
  | .encoding => "UnicodeEncodeError"
  | .json => "JSONDecodeError"
  | .system => "OSError"
  | .notFound => "FileNotFoundError"
  | .alreadyThere => "FileExistsError"
  | .notDirectory => "NotADirectoryError"
  | .isDirectory => "IsADirectoryError"
  | .other name => name

-- only the parents that some handler names
def parent? : ErrorClass → Option ErrorClass
  | decoding | encoding | json => some value
  | notFound | alreadyThere | notDirectory | isDirectory => some system
  | _ => none

def isLibrary : ErrorClass → Bool
  | library _ => true
  | _ => false

theorem ne_library {c : ErrorClass} (h : c.isLibrary = false) (e : LibraryError) : c ≠ library e := by
  rintro rfl
  cases h

/-- Whether a handler for some classes takes the errors of this one. -/
def handledBy (c : ErrorClass) (handlers : List ErrorClass) : Bool :=
  handlers.any fun h => c = h || c.parent? = some h

end ErrorClass

structure Raised where
  kind : ErrorClass
  message : Text
  foreign : kind.isLibrary = false
deriving DecidableEq, Repr

def Raised.attribute (message : Text) : Raised := ⟨.attribute, message, rfl⟩

end Typeahead
