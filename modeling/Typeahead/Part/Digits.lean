import Typeahead.Number.Word
import Typeahead.Text

/-!
# Runs of digits

A number starts with the longest run of digits `0`..`9` at a position. Where the text ends, the run
is empty and a number could still follow; before any other character there is no run at all.
-/

namespace Typeahead

open Number

def digitRun? (rest : Text) : Option Text :=
  match rest.takeWhile CodePoint.isDigit with
  | [] => if rest = [] then some [] else none
  | run => some run

theorem digitRun?_nil : digitRun? [] = some [] := rfl

theorem digitRun?_eq_none_iff {rest : Text} :
    digitRun? rest = none ↔ ∃ c t, rest = c :: t ∧ c.isDigit = false := by
  cases rest with
  | nil => simp [digitRun?]
  | cons c t => by_cases h : c.isDigit = true <;> simp_all [digitRun?]

theorem digitRun?_eq_some_iff {rest run : Text} :
    digitRun? rest = some run ↔ run = rest.takeWhile CodePoint.isDigit ∧ (run = [] → rest = []) := by
  cases rest with
  | nil =>
    show some [] = some run ↔ run = [] ∧ _
    rw [Option.some_inj, @eq_comm _ [] run]
    simp
  | cons c t =>
    by_cases h : c.isDigit = true
    · simp only [digitRun?, List.takeWhile_cons, h, if_true, Option.some_inj]
      exact ⟨fun e => ⟨e.symm, fun hnil => by simp [hnil] at e⟩, fun e => e.1.symm⟩
    · simp only [digitRun?, List.takeWhile_cons, h]
      simp

/-! ## Any position -/

inductive PositionFault
  | outside
  /-- The position is no machine word. -/
  | tooLarge
deriving DecidableEq, Repr

def PositionFault.message : PositionFault → Text
  | outside => "string index out of range"
  | tooLarge => "cannot fit 'int' into an index-sized integer"

def PositionFault.ofIndex (index : Int) : PositionFault :=
  if -(wordLimit : Int) ≤ index ∧ index < wordLimit then outside else tooLarge

/-- The text from `start` up to `stop`; a negative position counts from the end. -/
def slice (t : Text) (start stop : Int) : Text :=
  let at' (i : Int) : Nat := if i < 0 then (i + t.length).toNat else i.toNat
  (t.take (at' stop)).drop (at' start)

theorem slice_natCast (t : Text) (start stop : Nat) : slice t start stop = (t.take stop).drop start := by
  have hstart : ¬(start : Int) < 0 := by omega
  have hstop : ¬(stop : Int) < 0 := by omega
  simp only [slice, hstart, hstop, if_false, Int.toNat_natCast]

/-- Where a run of digits that starts at `index` ends. A run that starts at a negative position, which
counts from the end, is read on at the start of the text. -/
def runEnd (t : Text) (index : Int) : Int :=
  let read := if index < 0 then t.drop (index + t.length).toNat ++ t else t.drop index.toNat
  index + (read.takeWhile CodePoint.isDigit).length

def numberAt (t : Text) (index : Int) : Except PositionFault (Option Text) :=
  if index < -t.length then .error (.ofIndex index)
  else
    let stop := runEnd t index
    if stop ≠ index then .ok (some (slice t index stop))
    else if stop = t.length then .ok (some [])
    else .ok none

theorem numberAt_natCast {t : Text} {n : Nat} (h : n ≤ t.length) :
    numberAt t n = .ok (digitRun? (t.drop n)) := by
  have nonneg : ¬((n : Int) < 0) := by omega
  have inside : ¬((n : Int) < -(t.length : Int)) := by omega
  simp only [numberAt, inside, if_false, runEnd, nonneg, Int.toNat_natCast]
  generalize hrest : t.drop n = rest
  have len : rest.length = t.length - n := by rw [← hrest, List.length_drop]
  cases hrun : rest.takeWhile CodePoint.isDigit with
  | nil =>
    have stop : ((n : Int) + (([] : Text).length : Nat) : Int) = n := by simp
    rw [stop, if_neg (by simp)]
    cases rest with
    | nil => simp at len; rw [if_pos (by omega)]; rfl
    | cons c u => simp at len; rw [if_neg (by omega)]; simp [digitRun?, hrun]
  | cons c u =>
    rw [if_pos (by simp only [List.length_cons]; omega)]
    have cut : slice t n (n + (c :: u).length) = c :: u := by
      rw [← Int.natCast_add, slice_natCast, List.drop_take, hrest, Nat.add_sub_cancel_left, ← hrun]
      exact (List.prefix_iff_eq_take.1 (List.takeWhile_prefix _)).symm
    rw [cut]
    simp [digitRun?, hrun]

end Typeahead
