import Typeahead.Text

/-!
# Lines

Lines end with a line feed. A carriage return, alone or before a line feed, is read as one too.
-/

namespace Typeahead.Text

def unifyLineEnds : Text → Text
  | [] => []
  | '\r' :: '\n' :: t => '\n' :: unifyLineEnds t
  | c :: t => (if c = '\r' then '\n' else c) :: unifyLineEnds t

/-- The number of the line that holds the position after `before`, counted from one. -/
def lineAfter (before : Text) : Nat := before.count (.scalar '\n') + 1

def columnAfter (before : Text) : Nat :=
  (before.reverse.takeWhile fun (c : CodePoint) => c != '\n').length + 1

theorem unifyLineEnds_of_not_mem {t : Text} (h : .scalar '\r' ∉ t) : unifyLineEnds t = t := by
  fun_induction unifyLineEnds t with
  | case1 => rfl
  | case2 => simp at h
  | case3 c t _ ih =>
    simp only [List.mem_cons, not_or] at h
    simp [ih h.2, Ne.symm h.1]

end Typeahead.Text
