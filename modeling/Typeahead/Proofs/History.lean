import Mathlib.Data.List.Basic
import Mathlib.Data.List.Induction
import Typeahead.Journal

/-!
# Sessions

In a session handlers come and go, the library's records are let out or kept back, and records come up. A program
knows the handlers by the numbers that it was told, so here they are named by the order in which they were added.
Two sessions with the same handlers differ in what they deliver only while there is a handler and one of them is
silent.
-/

namespace Typeahead

open Logging (handlers isActive next)

/-! ## Events -/

inductive Event
  | setUp (choice : LevelChoice)
  /-- Removes the handler that was added after `k` others. -/
  | remove (k : Nat)
  | enable
  | disable
  | log (r : Record)

inductive Outcome
  | added (handler : Except LevelFault Nat)
  | removed (known : Bool)
  | silent
  | logged (deliveries : Except Json.DisplayFault (List Delivery))

structure Session [Logging] where
  state : Logging.State
  /-- The numbers of the handlers that were added, the first one first. -/
  told : List Nat

theorem within_libraryModule : within libraryModule libraryModule = true := by
  decide

/-- A record of the library that just reaches the level of a handler. -/
def justFor (h : Handler) : Record :=
  { module := libraryModule, function := [], source := none, level := ⟨[], h.severity⟩, message := .ok [] }

theorem takes_justFor {h : Handler} (hfilter : h.filter = libraryModule) :
    h.takes (justFor h) = true ∧ h.reaches (justFor h) = true := by
  have hreaches : h.reaches (justFor h) = true := decide_eq_true (Int.le_refl _)
  refine ⟨?_, hreaches⟩
  rw [Handler.takes, hfilter, hreaches]
  exact Bool.and_eq_true_iff.2 ⟨within_libraryModule, rfl⟩

namespace Session

section
variable [Logging]

def opened : Session := ⟨start, []⟩

def after (σ : Session) : Event → Session
  | .setUp choice =>
    let (number, s) := setUp choice σ.state
    ⟨s, σ.told ++ number.toOption.toList⟩
  | .remove k =>
    match σ.told[k]? with
    | some number => ⟨Logging.remove number σ.state, σ.told⟩
    | none => σ
  | .enable => ⟨Logging.enable libraryModule σ.state, σ.told⟩
  | .disable => ⟨Logging.disable libraryModule σ.state, σ.told⟩
  | .log _ => σ

def afterAll (σ : Session) (events : List Event) : Session := events.foldl after σ

/-- The handler with the number of its turn. -/
def turned (σ : Session) (h : Handler) : Handler := { h with number := σ.told.idxOf h.number }

/-- The delivery with the number of the handler's turn. -/
def turn (σ : Session) (d : Delivery) : Delivery := { d with handler := σ.told.idxOf d.handler }

def turns (σ : Session) : List Handler := (handlers σ.state).map σ.turned

def outcome (σ : Session) : Event → Outcome
  | .setUp choice => .added ((setUp choice σ.state).1.map fun _ => σ.told.length)
  | .remove k => .removed (σ.turns.any (·.number = k))
  | .enable | .disable => .silent
  | .log r => .logged ((Logging.log σ.state r).map (List.map σ.turn))

/-- What comes of each event, in their order. -/
def outcomes (σ : Session) : List Event → List Outcome
  | [] => []
  | event :: events => σ.outcome event :: (σ.after event).outcomes events

theorem afterAll_concat (σ : Session) (past : List Event) (event : Event) :
    σ.afterAll (past ++ [event]) = (σ.afterAll past).after event := by
  simp only [afterAll, List.foldl_append, List.foldl_cons, List.foldl_nil]

/-! ## Setting up -/

section
variable [LawfulLogging] (choice : LevelChoice) (s : Logging.State)

/-- The next handler's number once the library's records are let out. -/
def nextNumber (s : Logging.State) : Nat := next (Logging.enable libraryModule s)

theorem isActive_setUp (module : Text) :
    isActive (setUp choice s).2 module = (within libraryModule module || isActive s module) := by
  rw [setUp, LawfulLogging.isActive_add, LawfulLogging.isActive_enable]

variable {choice}

theorem setUp_of_level {level : Level} (h : choice.level = .ok level) :
    (setUp choice s).1 = .ok (nextNumber s) ∧
      handlers (setUp choice s).2 = handlers s ++ [⟨nextNumber s, level.severity, libraryModule⟩] ∧
      next s ≤ nextNumber s ∧ nextNumber s < next (setUp choice s).2 := by
  obtain ⟨hnumber, hhandlers, hnext⟩ := LawfulLogging.add_of_level h libraryModule (Logging.enable libraryModule s)
  rw [LawfulLogging.handlers_enable] at hhandlers
  exact ⟨hnumber, hhandlers, LawfulLogging.next_enable _ _, hnext⟩

theorem setUp_of_fault {fault : LevelFault} (h : choice.level = .error fault) :
    (setUp choice s).1 = .error fault ∧ handlers (setUp choice s).2 = handlers s ∧ next s ≤ next (setUp choice s).2 := by
  obtain ⟨hnumber, hhandlers, hnext⟩ := LawfulLogging.add_of_fault h libraryModule (Logging.enable libraryModule s)
  rw [LawfulLogging.handlers_enable] at hhandlers
  exact ⟨hnumber, hhandlers, Nat.le_trans (LawfulLogging.next_enable _ _) hnext⟩

end

/-! ## What an event does -/

section
variable [LawfulLogging] (σ : Session) {choice : LevelChoice}

theorem after_setUp_of_level {level : Level} (h : choice.level = .ok level) :
    (σ.after (.setUp choice)).told = σ.told ++ [nextNumber σ.state] ∧
      handlers (σ.after (.setUp choice)).state =
        handlers σ.state ++ [⟨nextNumber σ.state, level.severity, libraryModule⟩] := by
  obtain ⟨hnumber, hhandlers, -⟩ := setUp_of_level σ.state h
  refine ⟨?_, hhandlers⟩
  simp only [after, hnumber]
  rfl

theorem after_setUp_of_fault {fault : LevelFault} (h : choice.level = .error fault) :
    (σ.after (.setUp choice)).told = σ.told ∧ handlers (σ.after (.setUp choice)).state = handlers σ.state := by
  obtain ⟨hnumber, hhandlers, -⟩ := setUp_of_fault σ.state h
  refine ⟨?_, hhandlers⟩
  simp only [after, hnumber]
  exact List.append_nil _

theorem isActive_after (event : Event) (module : Text) : isActive (σ.after event).state module =
    match event with
    | .setUp _ | .enable => within libraryModule module || isActive σ.state module
    | .disable => !within libraryModule module && isActive σ.state module
    | .remove _ | .log _ => isActive σ.state module := by
  cases event with
  | setUp choice => exact isActive_setUp choice σ.state module
  | remove k =>
    simp only [after]
    split
    · exact LawfulLogging.isActive_remove _ _ _
    · rfl
  | enable => exact LawfulLogging.isActive_enable _ _ _
  | disable => exact LawfulLogging.isActive_disable _ _ _
  | log r => rfl

end

/-! ## What holds in every session -/

/-- Handlers stand in the order in which they were told of, take the library's records only, and were told of by
growing numbers; the library's modules are active or silent together. -/
structure Kept (σ : Session) : Prop where
  growing : σ.told.Pairwise (· < ·)
  below : ∀ number ∈ σ.told, number < next σ.state
  ordered : ((handlers σ.state).map (·.number)).Sublist σ.told
  filters : ∀ h ∈ handlers σ.state, h.filter = libraryModule
  together : ∀ module, within libraryModule module = true → isActive σ.state module = isActive σ.state libraryModule

section
variable {σ : Session}

theorem Kept.of_sublist (h : σ.Kept) {τ : Session} (htold : τ.told = σ.told) (hnext : next σ.state ≤ next τ.state)
    (hhandlers : (handlers τ.state).Sublist (handlers σ.state))
    (htogether : ∀ module, within libraryModule module = true → isActive τ.state module = isActive τ.state libraryModule) :
    τ.Kept where
  growing := htold ▸ h.growing
  below := fun number hnumber => Nat.lt_of_lt_of_le (h.below number (htold ▸ hnumber)) hnext
  ordered := htold ▸ (hhandlers.map _).trans h.ordered
  filters := fun handler hin => h.filters handler (hhandlers.subset hin)
  together := htogether

variable [LawfulLogging]

theorem Kept.together_after (h : σ.Kept) (event : Event) {module : Text} (hmodule : within libraryModule module = true) :
    isActive (σ.after event).state module = isActive (σ.after event).state libraryModule := by
  rw [isActive_after, isActive_after]
  cases event <;> simp only [hmodule, within_libraryModule, h.together module hmodule]

theorem Kept.after_setUp_of_level (h : σ.Kept) {choice : LevelChoice} {level : Level} (hl : choice.level = .ok level) :
    (σ.after (.setUp choice)).Kept := by
  obtain ⟨htold, hhandlers⟩ := Session.after_setUp_of_level σ hl
  obtain ⟨-, -, hle, hlt⟩ := setUp_of_level σ.state hl
  have hbelow : ∀ number ∈ σ.told, number < nextNumber σ.state := fun number hnumber =>
    Nat.lt_of_lt_of_le (h.below number hnumber) hle
  refine ⟨?_, ?_, ?_, ?_, fun module => h.together_after (.setUp choice)⟩
  · rw [htold, List.pairwise_append]
    exact ⟨h.growing, List.pairwise_singleton _ _, fun number hnumber other hother =>
      List.mem_singleton.1 hother ▸ hbelow number hnumber⟩
  · rw [htold]
    intro number hnumber
    rcases List.mem_append.1 hnumber with hnumber | hnumber
    · exact Nat.lt_trans (hbelow number hnumber) hlt
    · exact List.mem_singleton.1 hnumber ▸ hlt
  · rw [htold, hhandlers, List.map_append]
    exact h.ordered.append (List.Sublist.refl _)
  · rw [hhandlers]
    intro handler hin
    rcases List.mem_append.1 hin with hin | hin
    · exact h.filters handler hin
    · rw [List.mem_singleton.1 hin]

theorem Kept.after (h : σ.Kept) (event : Event) : (σ.after event).Kept := by
  have htogether (module : Text) (hmodule : within libraryModule module = true) := h.together_after event hmodule
  cases event with
  | setUp choice =>
    cases hl : choice.level with
    | ok level => exact h.after_setUp_of_level hl
    | error fault =>
      obtain ⟨htold, hhandlers⟩ := after_setUp_of_fault σ hl
      obtain ⟨-, -, hle⟩ := setUp_of_fault σ.state hl
      exact h.of_sublist htold hle (hhandlers ▸ List.Sublist.refl _) htogether
  | remove k =>
    cases hk : σ.told[k]? with
    | none =>
      have hsame : σ.after (.remove k) = σ := by simp only [Session.after, hk]
      rwa [hsame]
    | some number =>
      have hafter : σ.after (.remove k) = ⟨Logging.remove number σ.state, σ.told⟩ := by simp only [Session.after, hk]
      rw [hafter] at htogether ⊢
      refine h.of_sublist rfl (LawfulLogging.next_remove _ _) ?_ htogether
      rw [LawfulLogging.handlers_remove]
      exact List.filter_sublist
  | enable =>
    have hsame : handlers (σ.after .enable).state = handlers σ.state := LawfulLogging.handlers_enable _ _
    exact h.of_sublist rfl (LawfulLogging.next_enable _ _) (hsame ▸ List.Sublist.refl _) htogether
  | disable =>
    have hsame : handlers (σ.after .disable).state = handlers σ.state := LawfulLogging.handlers_disable _ _
    exact h.of_sublist rfl (LawfulLogging.next_disable _ _) (hsame ▸ List.Sublist.refl _) htogether
  | log r => exact h

theorem kept_opened : opened.Kept := by
  have hnone : handlers start = [] := by rw [start, LawfulLogging.handlers_disable, LawfulLogging.handlers_initial]
  refine ⟨.nil, nofun, ?_, ?_, fun module hmodule => ?_⟩
  · show ((handlers start).map _).Sublist []
    rw [hnone]
    exact List.Sublist.refl _
  · intro handler (hin : handler ∈ handlers start)
    rw [hnone] at hin
    cases hin
  · show isActive start module = isActive start libraryModule
    rw [start, LawfulLogging.isActive_disable, LawfulLogging.isActive_disable, hmodule, within_libraryModule]
    rfl

theorem kept_afterAll (past : List Event) : (opened.afterAll past).Kept := by
  induction past using List.reverseRecOn with
  | nil => exact kept_opened
  | append_singleton past event ih =>
    rw [afterAll_concat]
    exact ih.after event

end

/-! ## Handlers by their turn -/

section
variable {σ : Session}

theorem Kept.number_mem (h : σ.Kept) {handler : Handler} (hin : handler ∈ handlers σ.state) : handler.number ∈ σ.told :=
  h.ordered.subset (List.mem_map_of_mem hin)

theorem Kept.nodup (h : σ.Kept) : σ.told.Nodup := h.growing.imp Nat.ne_of_lt

theorem Kept.idxOf_eq_iff (h : σ.Kept) {handler : Handler} (hin : handler ∈ handlers σ.state) {k : Nat} :
    σ.told.idxOf handler.number = k ↔ σ.told[k]? = some handler.number := by
  have hmem := h.number_mem hin
  constructor
  · rintro rfl
    rw [List.getElem?_eq_getElem (List.idxOf_lt_length_of_mem hmem), List.getElem_idxOf]
  · intro hk
    obtain ⟨hlt, hget⟩ := List.getElem?_eq_some_iff.1 hk
    rw [← hget, h.nodup.idxOf_getElem k hlt]

variable [LawfulLogging]

theorem turns_setUp_of_level (h : σ.Kept) {choice : LevelChoice} {level : Level} (hl : choice.level = .ok level) :
    (σ.after (.setUp choice)).turns = σ.turns ++ [⟨σ.told.length, level.severity, libraryModule⟩] := by
  obtain ⟨htold, hhandlers⟩ := after_setUp_of_level σ hl
  obtain ⟨-, -, hle, -⟩ := setUp_of_level σ.state hl
  have hnew : nextNumber σ.state ∉ σ.told := fun hin => Nat.lt_irrefl _ (Nat.lt_of_lt_of_le (h.below _ hin) hle)
  rw [turns, hhandlers, List.map_append, turns]
  congr 1
  · refine List.map_congr_left fun handler hin => ?_
    simp only [turned, htold, List.idxOf_append_of_mem (h.number_mem hin)]
  · simp only [List.map_cons, List.map_nil, turned, htold, List.idxOf_append_of_notMem hnew, List.idxOf_cons_self]
    rfl

theorem turns_setUp_of_fault {choice : LevelChoice} {fault : LevelFault} (hl : choice.level = .error fault) :
    (σ.after (.setUp choice)).turns = σ.turns := by
  obtain ⟨htold, hhandlers⟩ := after_setUp_of_fault σ hl
  have hturned : (σ.after (.setUp choice)).turned = σ.turned := by
    funext handler
    rw [turned, turned, htold]
  rw [turns, hhandlers, hturned, turns]

theorem turns_remove (h : σ.Kept) (k : Nat) : (σ.after (.remove k)).turns = σ.turns.filter (·.number ≠ k) := by
  have hkeeps (handler : Handler) (hin : handler ∈ handlers σ.state) :
      ((σ.turned handler).number ≠ k) ↔ σ.told[k]? ≠ some handler.number :=
    not_congr (h.idxOf_eq_iff hin)
  rw [turns, turns, List.filter_map]
  cases hk : σ.told[k]? with
  | none =>
    have hsame : σ.after (.remove k) = σ := by simp only [Session.after, hk]
    rw [hsame, List.filter_eq_self.2 fun handler hin => ?_]
    rw [Function.comp, decide_eq_true_eq, hkeeps handler hin, hk]
    exact nofun
  | some number =>
    have hafter : σ.after (.remove k) = ⟨Logging.remove number σ.state, σ.told⟩ := by simp only [Session.after, hk]
    rw [hafter]
    show (handlers (Logging.remove number σ.state)).map σ.turned = _
    rw [LawfulLogging.handlers_remove]
    congr 1
    refine List.filter_congr fun handler hin => ?_
    rw [Function.comp, decide_eq_decide, hkeeps handler hin, hk, ne_eq, ne_eq, Option.some.injEq, eq_comm]

theorem turns_enable : (σ.after .enable).turns = σ.turns :=
  congrArg (List.map σ.turned) (LawfulLogging.handlers_enable libraryModule σ.state)

theorem turns_disable : (σ.after .disable).turns = σ.turns :=
  congrArg (List.map σ.turned) (LawfulLogging.handlers_disable libraryModule σ.state)

theorem logged_eq (σ : Session) (r : Record) : (Logging.log σ.state r).map (List.map σ.turn) =
    if isActive σ.state r.module && σ.turns.any (·.reaches r) then
      (fun message => (σ.turns.filter (·.takes r)).map (·.deliver r message)) <$> r.message
    else .ok [] := by
  have hany : σ.turns.any (·.reaches r) = (handlers σ.state).any (·.reaches r) := List.any_map
  have htakes : (·.takes r) ∘ σ.turned = (·.takes r) := rfl
  rw [LawfulLogging.log_eq, hany]
  split
  · rw [turns, List.filter_map, htakes]
    cases r.message with
    | error fault => rfl
    | ok message =>
      simp only [Functor.map, Except.map, List.map_map]
      rfl
  · rfl

end

/-! ## Sessions that cannot be told apart -/

/-- The same handlers; and where there are any, the library's records are let out in both sessions or in none. -/
structure Alike (σ τ : Session) : Prop where
  told : σ.told.length = τ.told.length
  turns : σ.turns = τ.turns
  outside : ∀ module, within libraryModule module = false → isActive σ.state module = isActive τ.state module
  inside : σ.turns ≠ [] → isActive σ.state libraryModule = isActive τ.state libraryModule

section
variable {σ τ : Session} (hσ : σ.Kept) (hτ : τ.Kept)
include hσ hτ

theorem Alike.isActive_eq (h : Alike σ τ) (hne : σ.turns ≠ []) (module : Text) :
    isActive σ.state module = isActive τ.state module := by
  cases hmodule : within libraryModule module with
  | false => exact h.outside module hmodule
  | true => rw [hσ.together module hmodule, hτ.together module hmodule, h.inside hne]

variable [LawfulLogging]

theorem Alike.outcome_eq (h : Alike σ τ) (event : Event) : σ.outcome event = τ.outcome event := by
  cases event with
  | setUp choice =>
    simp only [outcome, h.told]
    cases hl : choice.level with
    | ok level => rw [(setUp_of_level σ.state hl).1, (setUp_of_level τ.state hl).1]; rfl
    | error fault => rw [(setUp_of_fault σ.state hl).1, (setUp_of_fault τ.state hl).1]
  | remove k => simp only [outcome, h.turns]
  | enable | disable => rfl
  | log r =>
    simp only [outcome, logged_eq]
    by_cases hne : σ.turns = []
    · simp [hne, ← h.turns]
    · rw [h.isActive_eq hσ hτ hne, h.turns]

theorem Alike.after (h : Alike σ τ) (event : Event) : Alike (σ.after event) (τ.after event) := by
  have houtside (module : Text) (hmodule : within libraryModule module = false) :
      isActive (σ.after event).state module = isActive (τ.after event).state module := by
    rw [isActive_after, isActive_after]
    cases event <;> simp only [h.outside module hmodule]
  cases event with
  | setUp choice =>
    have hinside : isActive (σ.after (.setUp choice)).state libraryModule =
        isActive (τ.after (.setUp choice)).state libraryModule := by
      rw [isActive_after, isActive_after, within_libraryModule]
      rfl
    cases hl : choice.level with
    | ok level =>
      refine ⟨?_, ?_, houtside, fun _ => hinside⟩
      · rw [(after_setUp_of_level σ hl).1, (after_setUp_of_level τ hl).1, List.length_append, List.length_append, h.told]
        rfl
      · rw [turns_setUp_of_level hσ hl, turns_setUp_of_level hτ hl, h.turns, h.told]
    | error fault =>
      refine ⟨?_, ?_, houtside, fun _ => hinside⟩
      · rw [(after_setUp_of_fault σ hl).1, (after_setUp_of_fault τ hl).1, h.told]
      · rw [turns_setUp_of_fault hl, turns_setUp_of_fault hl, h.turns]
  | remove k =>
    have htold (υ : Session) : (υ.after (.remove k)).told = υ.told := by
      simp only [Session.after]
      split <;> rfl
    refine ⟨by rw [htold, htold, h.told], by rw [turns_remove hσ, turns_remove hτ, h.turns], houtside, fun hne => ?_⟩
    rw [isActive_after, isActive_after]
    -- a handler that is left was there before
    refine h.inside fun hnil => hne ?_
    rw [turns_remove hσ, hnil]
    rfl
  | enable =>
    refine ⟨h.told, by rw [turns_enable, turns_enable, h.turns], houtside, fun _ => ?_⟩
    rw [isActive_after, isActive_after, within_libraryModule]
    rfl
  | disable =>
    refine ⟨h.told, by rw [turns_disable, turns_disable, h.turns], houtside, fun _ => ?_⟩
    rw [isActive_after, isActive_after, within_libraryModule]
    rfl
  | log r => exact h

/-- Each event has the same outcome in both, however long they go on. -/
theorem Alike.outcomes_eq (h : Alike σ τ) (events : List Event) : σ.outcomes events = τ.outcomes events := by
  induction events generalizing σ τ with
  | nil => rfl
  | cons event events ih =>
    simp only [outcomes, h.outcome_eq hσ hτ event, ih (hσ.after event) (hτ.after event) (h.after hσ hτ event)]

end

/-! ## A handler that cannot be added -/

section
variable [LawfulLogging] {σ : Session}

theorem outcomes_after_fault_iff (h : σ.Kept) {choice : LevelChoice} {fault : LevelFault}
    (hl : choice.level = .error fault) :
    (∀ events, (σ.after (.setUp choice)).outcomes events = σ.outcomes events) ↔
      isActive σ.state libraryModule = true ∨ handlers σ.state = [] := by
  have hturns : (σ.after (.setUp choice)).turns = σ.turns := turns_setUp_of_fault hl
  have hloud : isActive (σ.after (.setUp choice)).state libraryModule = true := by
    rw [isActive_after, within_libraryModule]
    rfl
  constructor
  · intro hall
    by_cases hactive : isActive σ.state libraryModule = true
    · exact .inl hactive
    right
    refine List.eq_nil_iff_forall_not_mem.2 fun handler hin => ?_
    -- a record made for the handler gets to it after the fault and would not have got to it before
    have hturned : σ.turned handler ∈ σ.turns := List.mem_map_of_mem hin
    have hmodule : (justFor (σ.turned handler)).module = libraryModule := rfl
    obtain ⟨htakes, hreaches⟩ := takes_justFor (h := σ.turned handler) (h.filters handler hin)
    have hsame := List.head_eq_of_cons_eq (hall [.log (justFor (σ.turned handler))])
    simp only [outcome, logged_eq, hturns, hmodule, Outcome.logged.injEq] at hsame
    rw [if_pos (Bool.and_eq_true_iff.2 ⟨hloud, List.any_eq_true.2 ⟨_, hturned, hreaches⟩⟩),
      if_neg fun hand => hactive (Bool.and_eq_true_iff.1 hand).1] at hsame
    have hnone := Except.ok.inj hsame
    rw [List.map_eq_nil_iff, List.filter_eq_nil_iff] at hnone
    exact hnone _ hturned htakes
  · intro hcases
    refine Alike.outcomes_eq (h.after (.setUp choice)) h ⟨?_, hturns, fun module hmodule => ?_, fun hne => ?_⟩
    · rw [(after_setUp_of_fault σ hl).1]
    · rw [isActive_after, hmodule]
      rfl
    · rcases hcases with hactive | hnone
      · rw [hloud, hactive]
      · rw [hturns, turns, hnone] at hne
        exact absurd rfl hne

/-- **A handler that cannot be added.** The handlers are the same as before, and so are all modules outside the
library, but the library's records are let out. So all is as before just where they were out already, and
whatever comes later can tell the difference just where they were not and there is a handler to take them. -/
theorem setUp_refused (past : List Event) {choice : LevelChoice} {fault : LevelFault}
    (h : (setUp choice (opened.afterAll past).state).1 = .error fault) :
    let σ := opened.afterAll past
    let τ := σ.after (.setUp choice)
    handlers τ.state = handlers σ.state ∧ τ.told = σ.told ∧
      (∀ module, isActive τ.state module = (within libraryModule module || isActive σ.state module)) ∧
      ((∀ module, isActive τ.state module = isActive σ.state module) ↔ isActive σ.state libraryModule = true) ∧
      ((∀ events, τ.outcomes events = σ.outcomes events) ↔
        isActive σ.state libraryModule = true ∨ handlers σ.state = []) := by
  intro σ τ
  have hkept : σ.Kept := kept_afterAll past
  have hactive (module : Text) : isActive τ.state module = (within libraryModule module || isActive σ.state module) :=
    isActive_after σ (.setUp choice) module
  cases hl : choice.level with
  | ok level => cases (setUp_of_level σ.state hl).1.symm.trans h
  | error fault' =>
    obtain ⟨htold, hhandlers⟩ := after_setUp_of_fault σ hl
    refine ⟨hhandlers, htold, hactive, ⟨fun hall => ?_, fun hlet module => ?_⟩, outcomes_after_fault_iff hkept hl⟩
    · rw [← hall, hactive, within_libraryModule]
      rfl
    · rw [hactive]
      cases hmodule : within libraryModule module with
      | false => rfl
      | true => rw [hkept.together module hmodule, hlet]; rfl

end
end

attribute [local instance] Journal.logging Journal.lawful

def silencedAgain : List Event := [.setUp (.named "TRACE"), .disable]

theorem setUp_refused_silencedAgain :
    (setUp (.named "LOUD") (opened.afterAll silencedAgain).state).1 = .error (.unknown "LOUD") ∧
      ¬∀ events, ((opened.afterAll silencedAgain).after (.setUp (.named "LOUD"))).outcomes events =
        (opened.afterAll silencedAgain).outcomes events := by
  have h : (setUp (.named "LOUD") (opened.afterAll silencedAgain).state).1 = .error (.unknown "LOUD") := by rfl
  obtain ⟨-, -, -, -, hsame⟩ := setUp_refused silencedAgain h
  refine ⟨h, fun hall => ?_⟩
  rcases hsame.1 hall with hactive | hnone
  · exact absurd hactive (by decide)
  · exact absurd hnone (by decide)

theorem silencedAgain_loud :
    let σ := opened.afterAll silencedAgain
    let τ := σ.after (.setUp (.named "LOUD"))
    (setUp (.named "LOUD") σ.state).1 = .error (.unknown "LOUD") ∧
      isActive τ.state libraryModule ≠ isActive σ.state libraryModule ∧
      ∃ r message, r.message = .ok message ∧ Logging.log σ.state r = .ok [] ∧
        Logging.log τ.state r = .ok [⟨0, none, r.line message⟩] := by
  refine ⟨by rfl, by decide, ⟨libraryModule, "match", none, .trace, .ok "No number at 0"⟩, "No number at 0", rfl, by rfl, by rfl⟩

end Session

end Typeahead
