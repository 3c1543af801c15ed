import Typeahead.Text

/-!
# Literals and choices of literals

A literal is a text that is not empty. A choice of literals keeps them longest first; literals of one
length stay in the order in which they were given.
-/

namespace Typeahead

structure Literal where
  text : Text
  ne_nil : text ≠ []
deriving DecidableEq

def Literal.length (l : Literal) : Nat := l.text.length

/-! ## Longest first -/

section
variable {α : Type} (size : α → Nat)

def longestFirst (items : List α) : List α := items.mergeSort fun a b => size b ≤ size a

theorem pairwise_longestFirst (items : List α) :
    (longestFirst size items).Pairwise fun x y => size y ≤ size x := by
  have h : (longestFirst size items).Pairwise fun x y => decide (size y ≤ size x) = true := by
    apply List.pairwise_mergeSort
    · simp only [decide_eq_true_eq]
      omega
    · simp only [Bool.or_eq_true, decide_eq_true_eq]
      omega
  exact h.imp of_decide_eq_true

theorem longestFirst_ne_nil {items : List α} (h : items ≠ []) : longestFirst size items ≠ [] := by
  intro hnil
  have hperm : (longestFirst size items).Perm items := List.mergeSort_perm ..
  rw [hnil] at hperm
  exact h hperm.nil_eq.symm

end

/-! ## Choices -/

structure Options where
  literals : List Literal
  ne_nil : literals ≠ []
  longest_first : literals.Pairwise fun a b => b.length ≤ a.length
deriving DecidableEq

namespace Options

def ofList (literals : List Literal) (h : literals ≠ []) : Options :=
  ⟨longestFirst Literal.length literals, longestFirst_ne_nil _ h, pairwise_longestFirst _ _⟩

def texts (o : Options) : List Text := o.literals.map Literal.text

end Options

end Typeahead
