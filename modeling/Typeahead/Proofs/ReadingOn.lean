import Typeahead.Proofs.NumberLength

/-!
# Reading digits from any position

Digits are read one after another, from a position on. From a negative one, which counts from the end, reading
goes on at the start of the text when it has come to the end. So it stops in any case: at the end, before another
character, or at once where there is no such position. What lies between the two positions is the run, which is
empty where reading went round and stopped before it came to the end again.
-/

namespace Typeahead

/-! ## Reading on -/

def charAt (t : Text) (i : Int) : Except PositionFault CodePoint :=
  if i < -t.length then .error (.ofIndex i)
  else
    match t[(if i < 0 then i + t.length else i).toNat]? with
    | some c => .ok c
    | none => .error (.ofIndex i)

/-- Where a reader stops that goes on from a position as long as there are digits. -/
inductive ReadsOn (t : Text) : Int → Except PositionFault Int → Prop
  | ended {i : Int} : t.length ≤ i → ReadsOn t i (.ok i)
  | stopped {i : Int} {c : CodePoint} : i < t.length → charAt t i = .ok c → Text.isNumeral [c] = false →
      ReadsOn t i (.ok i)
  | digit {i : Int} {c : CodePoint} {stop : Except PositionFault Int} : i < t.length → charAt t i = .ok c →
      Text.isNumeral [c] = true → ReadsOn t (i + 1) stop → ReadsOn t i stop
  | fault {i : Int} {f : PositionFault} : i < t.length → charAt t i = .error f → ReadsOn t i (.error f)

/-- What is made of the position where reading started and the one where it stopped. -/
def runBetween (t : Text) (start stop : Int) : Option Text :=
  if stop ≠ start then some (slice t start stop) else if stop = t.length then some [] else none

theorem ReadsOn.unique {t : Text} {i : Int} {stop stop' : Except PositionFault Int} (h : ReadsOn t i stop)
    (h' : ReadsOn t i stop') : stop = stop' := by
  induction h with
  | ended hi =>
    cases h' with
    | ended => rfl
    | stopped hlt | digit hlt | fault hlt => omega
  | stopped hi hc hd =>
    cases h' with
    | ended hle => omega
    | stopped => rfl
    | digit _ hc' hd' =>
      cases hc.symm.trans hc'
      rw [hd] at hd'
      cases hd'
    | fault _ hf => cases hc.symm.trans hf
  | digit hi hc hd _ ih =>
    cases h' with
    | ended hle => omega
    | stopped _ hc' hd' =>
      cases hc.symm.trans hc'
      rw [hd] at hd'
      cases hd'
    | digit _ _ _ hon => exact ih hon
    | fault _ hf => cases hc.symm.trans hf
  | fault hi hf =>
    cases h' with
    | ended hle => omega
    | stopped _ hc | digit _ hc => cases hf.symm.trans hc
    | fault _ hf' => cases hf.symm.trans hf'; rfl

/-! ## What lies ahead -/

/-- What there is to read from a position on. Before the text's start lies its end. -/
def ahead (t : Text) (i : Int) : Text :=
  if i < 0 then t.drop (i + t.length).toNat ++ t else t.drop i.toNat

theorem runEnd_eq (t : Text) (i : Int) : runEnd t i = i + ((ahead t i).takeWhile CodePoint.isDigit).length := rfl

section
variable {t : Text} {i : Int} (hi : -(t.length : Int) ≤ i)
include hi

theorem length_le_of_ahead_nil (h : ahead t i = []) : t.length ≤ i := by
  unfold ahead at h
  split at h
  · -- a position before the start has the whole text ahead, so there is none, and no such position
    have hnil := (List.append_eq_nil_iff.1 h).2
    rw [hnil] at hi
    simp at hi
    omega
  · have := List.drop_eq_nil_iff.1 h
    omega

theorem ahead_cons {c : CodePoint} {rest : Text} (h : ahead t i = c :: rest) :
    i < t.length ∧ charAt t i = .ok c ∧ ahead t (i + 1) = rest := by
  unfold charAt
  rw [if_neg (by omega)]
  unfold ahead at h ⊢
  by_cases hneg : i < 0
  · rw [if_pos hneg] at h
    have hlt : (i + t.length).toNat < t.length := by omega
    rw [List.drop_eq_getElem_cons hlt, List.cons_append, List.cons.injEq] at h
    obtain ⟨rfl, rfl⟩ := h
    refine ⟨by omega, ?_, ?_⟩
    · rw [if_pos hneg, List.getElem?_eq_getElem hlt]
    · by_cases hlast : i = -1
      · -- the last character is followed by the first
        subst hlast
        have hend : (-1 + (t.length : Int)).toNat + 1 = t.length := by omega
        simp [hend]
      · have hnext : (i + 1 + t.length).toNat = (i + t.length).toNat + 1 := by omega
        rw [if_pos (by omega), hnext]
  · rw [if_neg hneg] at h
    have hlt : i.toNat < t.length := by
      refine Nat.lt_of_not_le fun hle => ?_
      rw [List.drop_eq_nil_of_le hle] at h
      cases h
    rw [List.drop_eq_getElem_cons hlt, List.cons.injEq] at h
    obtain ⟨rfl, rfl⟩ := h
    refine ⟨by omega, ?_, ?_⟩
    · rw [if_neg hneg, List.getElem?_eq_getElem hlt]
    · have hnext : (i + 1).toNat = i.toNat + 1 := by omega
      rw [if_neg (by omega), hnext]

end

theorem charAt_of_before {t : Text} {i : Int} (h : i < -t.length) : charAt t i = .error (.ofIndex i) := if_pos h

/-- Inside the text reading comes to the end of the run. The induction is on what lies ahead, which gets shorter
with each digit that is read, also where it is read round the start of the text. -/
theorem readsOn_runEnd {t : Text} {i : Int} (hi : -(t.length : Int) ≤ i) : ReadsOn t i (.ok (runEnd t i)) := by
  rw [runEnd_eq]
  generalize hrest : ahead t i = rest
  induction rest generalizing i with
  | nil => simpa using ReadsOn.ended (length_le_of_ahead_nil hi hrest)
  | cons c rest ih =>
    obtain ⟨hlt, hc, hnext⟩ := ahead_cons hi hrest
    rw [List.takeWhile_cons]
    by_cases hd : c.isDigit = true
    · have hon := ih (by omega) hnext
      rw [Int.add_assoc, Int.add_comm 1] at hon
      rw [if_pos hd]
      exact .digit hlt hc (by rw [Text.isNumeral_singleton, hd]) hon
    · rw [if_neg hd]
      have hstop := ReadsOn.stopped hlt hc (by rw [Text.isNumeral_singleton]; simpa using hd)
      simpa using hstop

theorem readsOn_before {t : Text} {i : Int} (h : i < -t.length) : ReadsOn t i (.error (.ofIndex i)) :=
  .fault (by omega) (charAt_of_before h)

/-! ## What is read -/

theorem digitRun?_of_digits {t : Text} (h : t.all CodePoint.isDigit = true) : digitRun? t = some t := by
  have := digitRun?_append h endsRun_nil
  rwa [List.append_nil, if_neg fun h => h.2 rfl] at this

theorem exists_digitRun? {c : CodePoint} (hc : c.isDigit = true) (r : Text) :
    ∃ run, IsLongestRun run (c :: r) ∧ digitRun? (c :: r) = some run := by
  obtain ⟨run, tail, heq, hrun, htail⟩ := exists_run (c :: r)
  refine ⟨run, heq ▸ isLongestRun_append hrun htail, ?_⟩
  rw [heq, digitRun?_append hrun htail, if_neg]
  rintro ⟨rfl, -⟩
  rw [htail c r heq.symm] at hc
  cases hc

theorem numberAt_of_before {t : Text} {i : Int} (h : i < -t.length) : numberAt t i = .error (.ofIndex i) := if_pos h

theorem numberAt_of_inside {t : Text} {i : Int} (h : -(t.length : Int) ≤ i) :
    numberAt t i = .ok (runBetween t i (runEnd t i)) := by
  unfold numberAt runBetween
  rw [if_neg (Int.not_lt.2 h)]
  by_cases hne : runEnd t i ≠ i
  · simp only [if_pos hne]
  · simp only [if_neg hne, apply_ite Except.ok]

theorem exists_readsOn (t : Text) (i : Int) :
    ∃ stop, ReadsOn t i stop ∧ (∀ stop', ReadsOn t i stop' → stop' = stop) ∧
      numberAt t i = stop.map (runBetween t i) := by
  by_cases h : i < -t.length
  · have hstop := readsOn_before h
    exact ⟨_, hstop, fun _ h' => h'.unique hstop, numberAt_of_before h⟩
  · have hi := Int.not_lt.1 h
    have hstop := readsOn_runEnd hi
    exact ⟨_, hstop, fun _ h' => h'.unique hstop, numberAt_of_inside hi⟩

theorem numberAt_of_behind {t : Text} {i : Int} (h : t.length < i) : numberAt t i = .ok none := by
  have hnil : ahead t i = [] := by
    rw [ahead, if_neg (by omega)]
    exact List.drop_eq_nil_of_le (by omega)
  have hend : runEnd t i = i := by simp [runEnd_eq, hnil]
  rw [numberAt_of_inside (by omega), runBetween, hend, if_neg (fun hne => hne rfl), if_neg (by omega)]

section
variable (front : Text) {suffix : Text}

theorem ahead_suffix (hne : suffix ≠ []) :
    ahead (front ++ suffix) (-suffix.length) = suffix ++ (front ++ suffix) := by
  have hpos := List.length_pos_iff.2 hne
  have hplace : (-(suffix.length : Int) + (front ++ suffix).length).toNat = front.length := by
    rw [List.length_append]
    omega
  rw [ahead, if_pos (by omega), hplace, List.drop_left]

theorem slice_suffix (hne : suffix ≠ []) (stop : Int) :
    slice (front ++ suffix) (-suffix.length) stop =
      ((front ++ suffix).take (if stop < 0 then stop + (front ++ suffix).length else stop).toNat).drop front.length := by
  have hpos := List.length_pos_iff.2 hne
  have hplace : (-(suffix.length : Int) + (front ++ suffix).length).toNat = front.length := by
    rw [List.length_append]
    omega
  have hneg : -(suffix.length : Int) < 0 := by omega
  simp only [slice, hneg, if_true, hplace]
  split <;> rfl

/-- Where a character ends the digits before the text does, reading does not go round. -/
theorem numberAt_ended {run tail : Text} (hrun : run.all CodePoint.isDigit = true) (htail : EndsRun tail)
    (hne : tail ≠ []) :
    numberAt (front ++ (run ++ tail)) (-(run ++ tail).length) = .ok (digitRun? (run ++ tail)) := by
  have hpos := List.length_pos_iff.2 hne
  have hlen : (run ++ tail).length = run.length + tail.length := List.length_append
  have hsuffix : run ++ tail ≠ [] := by simp [hne]
  have hended : EndsRun (tail ++ (front ++ (run ++ tail))) := by
    obtain ⟨c, r, rfl⟩ := List.exists_cons_of_ne_nil hne
    exact endsRun_cons (htail c r rfl)
  have hend : runEnd (front ++ (run ++ tail)) (-(run ++ tail).length) = -(run ++ tail).length + run.length := by
    rw [runEnd_eq, ahead_suffix front hsuffix, List.append_assoc, takeWhile_isDigit_append hrun hended]
  rw [numberAt_of_inside (by rw [List.length_append]; omega), hend, digitRun?_append hrun htail, runBetween]
  by_cases hnil : run = []
  · have hstart : -((run ++ tail).length : Int) + run.length = -(run ++ tail).length := by simp [hnil]
    rw [hstart, if_neg (fun h => h rfl), if_neg (by omega), if_pos ⟨hnil, hne⟩]
  · have hrunpos := List.length_pos_iff.2 hnil
    have hplace : (-((run ++ tail).length : Int) + run.length + (front ++ (run ++ tail)).length).toNat =
        front.length + run.length := by
      simp only [List.length_append]
      omega
    rw [if_pos (by omega), if_neg fun h => hnil h.1, slice_suffix front hsuffix, if_pos (by omega), hplace,
      List.take_length_add_append, List.drop_left, List.take_left]

theorem numberAt_digits (hne : suffix ≠ []) (hall : (front ++ suffix).all CodePoint.isDigit = true) :
    numberAt (front ++ suffix) (-suffix.length) = .ok (some suffix) := by
  have hpos := List.length_pos_iff.2 hne
  have hlen : (front ++ suffix).length = front.length + suffix.length := List.length_append
  have hsuffix : suffix.all CodePoint.isDigit = true := by
    rw [List.all_append, Bool.and_eq_true] at hall
    exact hall.2
  have hend : runEnd (front ++ suffix) (-suffix.length) = (front ++ suffix).length := by
    rw [runEnd_eq, ahead_suffix front hne, takeWhile_isDigit_of_all (by rw [List.all_append, hsuffix, hall]; rfl),
      List.length_append]
    omega
  rw [numberAt_of_inside (by omega), hend, runBetween, if_pos (by omega), slice_suffix front hne, if_neg (by omega),
    Int.toNat_natCast, List.take_length, List.drop_left]

/-- Where the digits at the end go round to another character, reading stops before where it started. -/
theorem numberAt_round (hne : suffix ≠ []) (hsuffix : suffix.all CodePoint.isDigit = true)
    (hall : (front ++ suffix).all CodePoint.isDigit = false) :
    numberAt (front ++ suffix) (-suffix.length) = .ok (some []) := by
  obtain ⟨run, tail, heq, hrun, htail⟩ := exists_run (front ++ suffix)
  have htl : tail ≠ [] := by
    intro hnil
    rw [heq, hnil, List.append_nil, hrun] at hall
    cases hall
  obtain ⟨c, r, rfl⟩ := List.exists_cons_of_ne_nil htl
  -- the character that stops the reader is no digit, so it lies in front
  have hle : run.length ≤ front.length := by
    rcases List.append_eq_append_iff.1 heq with ⟨more, -, hs⟩ | ⟨more, hf, -⟩
    · rw [hs, List.all_append, List.all_cons, htail c r rfl] at hsuffix
      simp at hsuffix
    · rw [hf, List.length_append]
      omega
  have hend : runEnd (front ++ suffix) (-suffix.length) = run.length := by
    have hdigits : (suffix ++ run).all CodePoint.isDigit = true := by rw [List.all_append, hsuffix, hrun]; rfl
    rw [runEnd_eq, ahead_suffix front hne, heq, ← List.append_assoc, takeWhile_isDigit_append hdigits htail,
      List.length_append]
    omega
  have hpos := List.length_pos_iff.2 hne
  rw [numberAt_of_inside (by rw [List.length_append]; omega), hend, runBetween, if_pos (by omega),
    slice_suffix front hne, if_neg (by omega), Int.toNat_natCast]
  rw [List.drop_eq_nil_of_le (by rw [List.length_take]; omega)]

/-- The run is that of the suffix, unless reading goes round and does not come to the end again. -/
theorem numberAt_suffix (hne : suffix ≠ []) :
    numberAt (front ++ suffix) (-suffix.length) =
      .ok (if suffix.all CodePoint.isDigit = true ∧ (front ++ suffix).all CodePoint.isDigit = false then some []
        else digitRun? suffix) := by
  obtain ⟨run, tail, rfl, hrun, htail⟩ := exists_run suffix
  by_cases htl : tail = []
  · have hsuffix : (run ++ tail).all CodePoint.isDigit = true := (all_isDigit_append_iff hrun htail).2 htl
    cases hall : (front ++ (run ++ tail)).all CodePoint.isDigit with
    | false => rw [if_pos ⟨hsuffix, rfl⟩, numberAt_round front hne hsuffix hall]
    | true =>
      rw [if_neg (by simp), numberAt_digits front hne hall, digitRun?_append hrun htail, if_neg fun h => h.2 htl,
        htl, List.append_nil]
  · rw [if_neg fun h => htl ((all_isDigit_append_iff hrun htail).1 h.1), numberAt_ended front hrun htail htl]

end

/-- **Digits at any position.** Reading stops wherever it starts, and the run is what lies between. Behind the end
there is none, and before the start there is no position. From a position that is counted from the end, the run
is that of the suffix there; but where the suffix is all digits and the text is not, reading goes round, stops
before it comes to where it started, and the run is empty. Only there it differs from the run at the same place
counted from the start. -/
theorem numberAt_any_position (t : Text) (index : Int) :
    (∃ stop, ReadsOn t index stop ∧ (∀ stop', ReadsOn t index stop' → stop' = stop) ∧
        numberAt t index = stop.map (runBetween t index)) ∧
      (t.length < index → numberAt t index = .ok none) ∧
      (index < -t.length → numberAt t index = .error (.ofIndex index)) ∧
      (-t.length ≤ index → index < 0 → ∀ suffix, suffix = t.drop (t.length + index).toNat →
        ((∃ c r, suffix = c :: r ∧ c.isDigit = false) → numberAt t index = .ok none) ∧
        ((∃ c r, suffix = c :: r ∧ c.isDigit = true) → suffix.all CodePoint.isDigit = false →
          ∃ run, IsLongestRun run suffix ∧ numberAt t index = .ok (some run)) ∧
        (t.all CodePoint.isDigit = true → numberAt t index = .ok (some suffix)) ∧
        (suffix.all CodePoint.isDigit = true → t.all CodePoint.isDigit = false → numberAt t index = .ok (some [])) ∧
        (numberAt t index = numberAt t (t.length + index) ↔
          ¬(suffix.all CodePoint.isDigit = true ∧ t.all CodePoint.isDigit = false))) := by
  refine ⟨exists_readsOn t index, numberAt_of_behind, numberAt_of_before, fun hge hneg suffix hsuffix => ?_⟩
  have hplace : ((t.length + index).toNat : Int) = t.length + index := Int.toNat_of_nonneg (by omega)
  have hlen : suffix.length = -index := by
    rw [hsuffix, List.length_drop]
    omega
  have hne : suffix ≠ [] := List.length_pos_iff.1 (by omega)
  have hat := numberAt_suffix (t.take (t.length + index).toNat) hne
  have hcounted : numberAt t (t.length + index) = .ok (digitRun? suffix) := by
    rw [← hplace, numberAt_natCast (by omega), ← hsuffix]
  rw [hlen, Int.neg_neg, hsuffix, List.take_append_drop, ← hsuffix] at hat
  have hnot (h : ¬(suffix.all CodePoint.isDigit = true ∧ t.all CodePoint.isDigit = false)) :
      numberAt t index = .ok (digitRun? suffix) := by rw [hat, if_neg h]
  refine ⟨?_, ?_, fun hall => ?_, fun hs hall => by rw [hat, if_pos ⟨hs, hall⟩], ?_⟩
  · rintro ⟨c, r, hcons, hc⟩
    rw [hnot (by simp [hcons, hc]), digitRun?_eq_none_iff.2 ⟨c, r, hcons, hc⟩]
  · rintro ⟨c, r, hcons, hc⟩ hs
    obtain ⟨run, hlongest, hrun⟩ := exists_digitRun? hc r
    rw [← hcons] at hlongest hrun
    exact ⟨run, hlongest, by rw [hnot (by simp [hs]), hrun]⟩
  · have hs : suffix.all CodePoint.isDigit = true :=
      List.all_eq_true.2 fun c hc => List.all_eq_true.1 hall c (List.mem_of_mem_drop (hsuffix ▸ hc))
    rw [hnot (by simp [hall]), digitRun?_of_digits hs]
  · rw [hcounted]
    refine ⟨fun heq hround => ?_, hnot⟩
    rw [hat, if_pos hround, digitRun?_of_digits hround.1] at heq
    cases heq
    exact hne rfl

/-- From the second last position of `9a12` reading goes round to the `a`. -/
theorem numberAt_any_position_9a12 :
    -(("9a12" : Text).length : Int) ≤ -2 ∧ (-2 : Int) < 0 ∧ numberAt "9a12" (-2) = .ok (some []) ∧
      numberAt "9a12" (-2) ≠ numberAt "9a12" 2 := by
  have hge : -(("9a12" : Text).length : Int) ≤ -2 := by decide
  have hneg : (-2 : Int) < 0 := by decide
  obtain ⟨-, -, -, hround, hsame⟩ := (numberAt_any_position "9a12" (-2)).2.2.2 hge hneg "12" (by decide)
  exact ⟨hge, hneg, hround (by decide) (by decide), fun h => hsame.1 h ⟨by decide, by decide⟩⟩

end Typeahead
