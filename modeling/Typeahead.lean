import Typeahead.Chain
import Typeahead.Completion
import Typeahead.Part.Record
import Typeahead.Proofs.FixedLength
import Typeahead.Settings.Store
import Typeahead.Validation
import Typeahead.Proofs.Match
import Typeahead.Proofs.Word
import Typeahead.Proofs.Validation
import Typeahead.Proofs.Suggestion
import Typeahead.Proofs.Beginning
import Typeahead.Proofs.Typing
import Typeahead.Proofs.Growth
import Typeahead.Proofs.Replacement
import Typeahead.Proofs.Completion
import Typeahead.Proofs.Position
import Typeahead.Proofs.LongestFirst
import Typeahead.Proofs.Order
import Typeahead.Proofs.Path
import Typeahead.Proofs.Tree
import Typeahead.Proofs.Ascii
import Typeahead.Proofs.Objects
import Typeahead.Proofs.Printed
import Typeahead.Proofs.Settings
import Typeahead.Proofs.Storage
import Typeahead.Proofs.Rendering
import Typeahead.Proofs.Loading
import Typeahead.Proofs.Adjacent
import Typeahead.Proofs.History
import Typeahead.Proofs.Moved
import Typeahead.Proofs.Directories
import Typeahead.Proofs.Creation
import Typeahead.Proofs.Delivery
import Typeahead.Proofs.PieceText
import Typeahead.Proofs.Refusal
import Typeahead.Proofs.PlainLabel
import Typeahead.Proofs.Numeral
import Typeahead.Proofs.LaidOut
import Typeahead.Proofs.FieldText
import Typeahead.Proofs.ShownLength
import Typeahead.Proofs.Making
import Typeahead.Proofs.Viable
import Typeahead.Proofs.Objection
import Typeahead.Proofs.NumberLength
import Typeahead.Proofs.ReadingOn
import Typeahead.Proofs.Rejected
import Typeahead.Proofs.Displayed
