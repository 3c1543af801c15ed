import Typeahead.Proofs.Match
import Typeahead.Template.Render

/-!
# The text of a template, piece by piece

What a template is rendered to is what its pieces are rendered to, one after another, and its first fault is
that of the first piece that has one.
-/

namespace Typeahead.Template

variable [Host]

def specText (n : Int) (spec : Text) : Except Fault Text :=
  if .scalar '{' ∈ spec then Blocks.toText <$> renderTo 1 n spec else .ok spec

def fieldValue (n : Int) (name : Text) (conversion : Option CodePoint) : Except Fault (Value Host.Object) :=
  fieldTarget n name >>= (convert · conversion)

def pieceText (n : Int) : Piece → Except Fault Text
  | .char c => .ok [c]
  | .field name conversion spec => do
    let value ← fieldValue n name conversion
    let spec ← specText n spec
    Blocks.toText <$> value.format spec
  | .broken fault => .error (.markup fault)

theorem renderField_eq (n : Int) (name : Text) (conversion : Option CodePoint) (spec : Text) :
    Blocks.toText <$> renderField (renderTo 1 n) n name conversion spec =
      pieceText n (.field name conversion spec) := by
  by_cases hbrace : .scalar '{' ∈ spec
  · simp only [renderField, pieceText, fieldValue, specText, if_pos hbrace, map_bind, bind_assoc]
  · simp only [renderField, pieceText, fieldValue, specText, if_neg hbrace, map_bind, bind_assoc, pure_bind, ok_bind]

theorem flatten_mapM_cons (n : Int) (p : Piece) (ps : List Piece) :
    List.flatten <$> (p :: ps).mapM (pieceText n) = do
      let first ← pieceText n p
      let rest ← List.flatten <$> ps.mapM (pieceText n)
      return first ++ rest := by
  simp only [List.mapM_cons, map_bind, map_pure, List.flatten_cons, bind_map_left]

theorem renderPieces_eq (n : Int) (ps : List Piece) :
    Blocks.toText <$> renderPieces (renderTo 1 n) n ps = List.flatten <$> ps.mapM (pieceText n) := by
  induction ps with
  | nil => rfl
  | cons p ps ih =>
    rw [flatten_mapM_cons, ← ih]
    cases p with
    | char c =>
      simp only [renderPieces, pieceText, ok_bind, map_eq_pure_bind, Blocks.toText_once, bind_assoc, pure_bind]
    | field name conversion spec =>
      simp only [← renderField_eq, renderPieces, map_bind, map_pure, bind_map_left, Blocks.toText_append]
    | broken fault => rfl

theorem render_eq (t : Text) (n : Int) : render t n = List.flatten <$> (pieces t).mapM (pieceText n) :=
  renderPieces_eq n (pieces t)

end Typeahead.Template
