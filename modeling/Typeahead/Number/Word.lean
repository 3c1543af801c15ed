/-!
# Machine words

Positions and counts are signed machine words of 64 bits where they are handed on as such.
-/

namespace Typeahead.Number

/-- Two to the 63: words are below it, and not below its negative. -/
def wordLimit : Nat := 0x8000000000000000

end Typeahead.Number
