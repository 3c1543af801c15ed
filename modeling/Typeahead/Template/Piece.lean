import Typeahead.Text

/-!
# The pieces of a template

A template is plain text with fields in braces; a brace that is text is doubled. A field has a name,
then possibly a conversion after `!`, then possibly a specification after `:`, in which braces come
in pairs. Reading goes as far as the template is well formed: the fault, if there is one, is the
last piece.
-/

namespace Typeahead.Template

inductive MarkupFault
  | singleOpen
  | singleClose
  | openInName
  | unclosedField
  | unclosedSpec
  | missingConversion
  | missingColon
deriving DecidableEq, Repr

inductive Piece
  | char (c : CodePoint)
  | field (name : Text) (conversion : Option CodePoint) (spec : Text)
  | broken (fault : MarkupFault)
deriving DecidableEq, Repr

/-- Where in a template the reader is. What was read of a field so far is kept in reverse. -/
inductive Place
  | outside
  | name (read : Text)
  /-- Between brackets in a name. -/
  | index (read : Text)
  | conversion (name : Text)
  | afterConversion (name : Text) (conversion : CodePoint)
  /-- In a specification, inside `depth` pairs of braces. -/
  | spec (name : Text) (conversion : Option CodePoint) (depth : Nat) (read : Text)
deriving DecidableEq, Repr

def piecesFrom : Place → Text → List Piece
  | .outside, [] => []
  | .outside, ['{'] => [.broken .singleOpen]
  | .outside, '{' :: '{' :: t => .char '{' :: piecesFrom .outside t
  | .outside, '}' :: '}' :: t => .char '}' :: piecesFrom .outside t
  | .outside, '{' :: t => piecesFrom (.name []) t
  | .outside, '}' :: _ => [.broken .singleClose]
  | .outside, c :: t => .char c :: piecesFrom .outside t
  | .name _, [] => [.broken .unclosedField]
  | .name read, c :: t =>
    if c = '{' then [.broken .openInName]
    else if c = '}' then .field read.reverse none [] :: piecesFrom .outside t
    else if c = ':' then piecesFrom (.spec read.reverse none 0 []) t
    else if c = '!' then piecesFrom (.conversion read.reverse) t
    else if c = '[' then piecesFrom (.index (c :: read)) t
    else piecesFrom (.name (c :: read)) t
  | .index _, [] => [.broken .unclosedField]
  | .index read, c :: t =>
    if c = ']' then piecesFrom (.name (c :: read)) t else piecesFrom (.index (c :: read)) t
  | .conversion _, [] => [.broken .missingConversion]
  | .conversion name, c :: t => piecesFrom (.afterConversion name c) t
  | .afterConversion _ _, [] => [.broken .unclosedSpec]
  | .afterConversion name conversion, c :: t =>
    if c = '}' then .field name (some conversion) [] :: piecesFrom .outside t
    else if c = ':' then piecesFrom (.spec name (some conversion) 0 []) t
    else [.broken .missingColon]
  | .spec _ _ _ _, [] => [.broken .unclosedSpec]
  | .spec name conversion 0 read, '}' :: t =>
    .field name conversion read.reverse :: piecesFrom .outside t
  | .spec name conversion (depth + 1) read, '}' :: t =>
    piecesFrom (.spec name conversion depth ('}' :: read)) t
  | .spec name conversion depth read, c :: t =>
    piecesFrom (.spec name conversion (if c = '{' then depth + 1 else depth) (c :: read)) t

def pieces (t : Text) : List Piece := piecesFrom .outside t

def MarkupFault.message : MarkupFault → Text
  | singleOpen => "Single '\x7b' encountered in format string"
  | singleClose => "Single '\x7d' encountered in format string"
  | openInName => "unexpected '\x7b' in field name"
  | unclosedField => "expected '\x7d' before end of string"
  | unclosedSpec => "unmatched '\x7b' in format spec"
  | missingConversion => "end of string while looking for conversion specifier"
  | missingColon => "expected ':' after conversion specifier"

end Typeahead.Template
