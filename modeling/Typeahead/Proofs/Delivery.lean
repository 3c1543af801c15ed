import Typeahead.Proofs.History

/-!
# Deliveries over a session

Which handlers get a record is fixed by what has happened in the session: whether the library's records were let
out and not kept back since, and which handlers were added and not removed since.
-/

namespace Typeahead

open Logging (handlers isActive)

/-! ## Since when -/

/-- Something started in the past, and nothing that ends it has happened since. What starts may depend on
what was before. -/
def Since (starts : List Event → Event → Prop) (ends : Event → Prop) (past : List Event) : Prop :=
  ∃ before event after, past = before ++ event :: after ∧ starts before event ∧ ∀ e ∈ after, ¬ends e

section
variable {starts : List Event → Event → Prop} {ends : Event → Prop}

theorem not_since_nil : ¬Since starts ends [] := by
  rintro ⟨before, event, after, h, -⟩
  simp at h

theorem since_concat_iff {past : List Event} {event : Event} :
    Since starts ends (past ++ [event]) ↔ starts past event ∨ Since starts ends past ∧ ¬ends event := by
  constructor
  · rintro ⟨before, e, after, h, hstarts, hends⟩
    rcases List.eq_nil_or_concat after with rfl | ⟨after, last, rfl⟩
    · obtain ⟨rfl, hlast⟩ := List.append_inj' h rfl
      cases hlast
      exact .inl hstarts
    · rw [List.concat_eq_append, ← List.cons_append, ← List.append_assoc] at h
      obtain ⟨rfl, hlast⟩ := List.append_inj' h rfl
      cases hlast
      refine .inr ⟨⟨before, e, after, rfl, hstarts, fun e he => hends e (by simp [he])⟩, hends event (by simp)⟩
  · rintro (hstarts | ⟨⟨before, e, after, rfl, hstarts, hends⟩, hlast⟩)
    · exact ⟨past, event, [], rfl, hstarts, by simp⟩
    · refine ⟨before, e, after ++ [event], by simp, hstarts, fun e he => ?_⟩
      rcases List.mem_append.1 he with he | he
      · exact hends e he
      · rw [List.mem_singleton.1 he]
        exact hlast

end

/-- The event lets the library's records out. A handler that is set up does, also if there is no such level. -/
def Event.LetsOut : Event → Prop
  | setUp _ | enable => True
  | remove _ | disable | log _ => False

def LetOut (past : List Event) : Prop := Since (fun _ event => event.LetsOut) (· = .disable) past

def OfLibrary (module : Text) : Prop := module = libraryModule ∨ (libraryModule ++ "." : Text) <+: module

theorem within_libraryModule_iff {module : Text} : within libraryModule module = true ↔ OfLibrary module := by
  have hdot : (libraryModule ++ "." : Text) = module ++ "." ↔ module = libraryModule := by
    rw [List.append_cancel_right_eq, eq_comm]
  rw [within, List.isPrefixOf_iff_prefix, OfLibrary, ← hdot]
  exact List.prefix_concat_iff

namespace Session

section
variable [Logging]

/-- After `k` handlers the event adds one of the severity. -/
def Adds (k : Nat) (severity : Int) (before : List Event) (event : Event) : Prop :=
  (opened.afterAll before).told.length = k ∧
    ∃ choice level, event = .setUp choice ∧ choice.level = .ok level ∧ level.severity = severity

/-- The handler that was added after `k` others has the severity, and it has not been removed since. -/
def Attached (past : List Event) (k : Nat) (severity : Int) : Prop :=
  Since (Adds k severity) (· = .remove k) past

variable [LawfulLogging]

/-! ## Records let out -/

theorem isActive_libraryModule_after_iff (σ : Session) (event : Event) :
    isActive (σ.after event).state libraryModule = true ↔
      event.LetsOut ∨ isActive σ.state libraryModule = true ∧ event ≠ .disable := by
  rw [isActive_after]
  cases event <;> simp [Event.LetsOut, within_libraryModule]

theorem letOut_iff (past : List Event) : isActive (opened.afterAll past).state libraryModule = true ↔ LetOut past := by
  induction past using List.reverseRecOn with
  | nil =>
    have hsilent : isActive opened.state libraryModule = false := by
      rw [opened, start, LawfulLogging.isActive_disable, within_libraryModule]
      rfl
    exact ⟨fun h => absurd (hsilent.symm.trans h) Bool.false_ne_true, fun h => absurd h not_since_nil⟩
  | append_singleton past event ih =>
    rw [afterAll_concat, isActive_libraryModule_after_iff, ih, LetOut, LetOut, since_concat_iff]

/-! ## Handlers attached -/

theorem mem_turns_after_iff {past : List Event} {event : Event} {k : Nat} {severity : Int} :
    ⟨k, severity, libraryModule⟩ ∈ ((opened.afterAll past).after event).turns ↔
      Adds k severity past event ∨ ⟨k, severity, libraryModule⟩ ∈ (opened.afterAll past).turns ∧ event ≠ .remove k := by
  have hkept := kept_afterAll past
  cases event with
  | setUp choice =>
    cases hl : choice.level with
    | ok level =>
      have hadds : Adds k severity past (.setUp choice) ↔
          (opened.afterAll past).told.length = k ∧ level.severity = severity := by
        simp [Adds, hl]
      rw [turns_setUp_of_level hkept hl, hadds, List.mem_append, List.mem_singleton, Handler.mk.injEq, or_comm]
      simp [eq_comm]
    | error fault => simp [turns_setUp_of_fault hl, Adds, hl]
  | remove j => simp [turns_remove hkept, Adds, @eq_comm _ k j]
  | enable => simp [turns_enable, Adds]
  | disable => simp [turns_disable, Adds]
  | log r =>
    have hsame : ((opened.afterAll past).after (.log r)).turns = (opened.afterAll past).turns := rfl
    simp [hsame, Adds]

theorem mem_turns_iff (past : List Event) (k : Nat) (severity : Int) :
    ⟨k, severity, libraryModule⟩ ∈ (opened.afterAll past).turns ↔ Attached past k severity := by
  induction past using List.reverseRecOn with
  | nil =>
    have hnone : opened.turns = [] := by
      rw [turns, opened, start, LawfulLogging.handlers_disable, LawfulLogging.handlers_initial]
      rfl
    refine ⟨fun h => ?_, fun h => absurd h not_since_nil⟩
    rw [afterAll, List.foldl_nil, hnone] at h
    cases h
  | append_singleton past event ih =>
    rw [afterAll_concat, mem_turns_after_iff, ih, Attached, Attached, since_concat_iff]

theorem exists_told {past : List Event} {k : Nat} {severity : Int} (h : Attached past k severity) :
    ∃ number, (opened.afterAll past).told[k]? = some number := by
  obtain ⟨handler, hin, hturned⟩ := List.mem_map.1 ((mem_turns_iff past k severity).2 h)
  exact ⟨_, ((kept_afterAll past).idxOf_eq_iff hin).1 (congrArg Handler.number hturned)⟩

theorem exists_handler_iff {past : List Event} {number : Nat} {severity : Int} :
    (∃ h ∈ handlers (opened.afterAll past).state, h.number = number ∧ h.severity = severity) ↔
      ∃ k, (opened.afterAll past).told[k]? = some number ∧ Attached past k severity := by
  have hkept := kept_afterAll past
  simp only [← mem_turns_iff, turns, List.mem_map]
  constructor
  · rintro ⟨h, hin, rfl, rfl⟩
    refine ⟨_, (hkept.idxOf_eq_iff hin).1 rfl, h, hin, ?_⟩
    rw [turned, hkept.filters h hin]
  · rintro ⟨k, hk, h, hin, hturned⟩
    rw [turned, Handler.mk.injEq] at hturned
    rw [(hkept.idxOf_eq_iff hin).1 hturned.1, Option.some.injEq] at hk
    exact ⟨h, hin, hk, hturned.2.1⟩

/-! ## Records -/

/-- What becomes of a record that comes up after the past. -/
structure Gets (past : List Event) (r : Record) (message : Text) (deliveries : List Delivery) : Prop where
  only : deliveries ≠ [] → OfLibrary r.module ∧ LetOut past
  handlers : OfLibrary r.module → LetOut past → ∀ number, number ∈ deliveries.map (·.handler) ↔
    ∃ k severity, (opened.afterAll past).told[k]? = some number ∧ Attached past k severity ∧ severity ≤ r.level.severity
  /-- In increasing order, so to none of the handlers twice. -/
  ordered : (deliveries.map (·.handler)).Pairwise (· < ·)
  content : ∀ d ∈ deliveries, d.source = r.source ∧ d.text = r.line message

/-- All handlers are the library's, so a record from outside gets to none even if its module is not silent. -/
theorem takes_eq {past : List Event} {h : Handler} (hin : h ∈ handlers (opened.afterAll past).state) (r : Record) :
    h.takes r = (within libraryModule r.module && h.reaches r) := by
  rw [Handler.takes, (kept_afterAll past).filters h hin]

theorem log_of_ok (past : List Event) {r : Record} {message : Text} (h : r.message = .ok message) :
    Logging.log (opened.afterAll past).state r =
      .ok (if within libraryModule r.module && isActive (opened.afterAll past).state libraryModule then
        ((handlers (opened.afterAll past).state).filter (·.reaches r)).map (·.deliver r message)
      else []) := by
  have htakes : (handlers (opened.afterAll past).state).filter (·.takes r) =
      (handlers (opened.afterAll past).state).filter fun h => within libraryModule r.module && h.reaches r :=
    List.filter_congr fun h hin => takes_eq hin r
  rw [LawfulLogging.log_eq, h, htakes]
  cases hmodule : within libraryModule r.module with
  | false => simp [Functor.map, Except.map]
  | true =>
    rw [(kept_afterAll past).together r.module hmodule]
    cases isActive (opened.afterAll past).state libraryModule with
    | false => rfl
    | true =>
      by_cases hany : ∃ h ∈ handlers (opened.afterAll past).state, h.reaches r = true
      · simp [hany, Functor.map, Except.map]
      · have hnone : (handlers (opened.afterAll past).state).filter (·.reaches r) = [] :=
          List.filter_eq_nil_iff.2 fun h hin hreaches => hany ⟨h, hin, hreaches⟩
        simp [hany, hnone]

theorem gets_log {past : List Event} {r : Record} {message : Text} {deliveries : List Delivery}
    (h : r.message = .ok message) (hlog : Logging.log (opened.afterAll past).state r = .ok deliveries) :
    Gets past r message deliveries := by
  have hkept := kept_afterAll past
  rw [log_of_ok past h] at hlog
  cases hlog
  by_cases hout :
      (within libraryModule r.module && isActive (opened.afterAll past).state libraryModule) = true
  · rw [if_pos hout]
    rw [Bool.and_eq_true, within_libraryModule_iff, letOut_iff] at hout
    refine ⟨fun _ => hout, fun _ _ number => ?_, ?_, ?_⟩
    · simp only [List.map_map, List.mem_map, List.mem_filter, Function.comp, Handler.deliver]
      constructor
      · rintro ⟨h, ⟨hin, hreaches⟩, rfl⟩
        obtain ⟨k, htold, hattached⟩ := exists_handler_iff.1 ⟨h, hin, rfl, rfl⟩
        exact ⟨k, h.severity, htold, hattached, of_decide_eq_true hreaches⟩
      · rintro ⟨k, severity, htold, hattached, hlevel⟩
        obtain ⟨h, hin, rfl, rfl⟩ := exists_handler_iff.2 ⟨k, htold, hattached⟩
        exact ⟨h, ⟨hin, decide_eq_true hlevel⟩, rfl⟩
    · rw [List.map_map]
      exact hkept.growing.sublist ((List.filter_sublist.map _).trans hkept.ordered)
    · intro d hd
      obtain ⟨h, -, rfl⟩ := List.mem_map.1 hd
      exact ⟨rfl, rfl⟩
  · rw [if_neg hout]
    rw [Bool.and_eq_true, within_libraryModule_iff, letOut_iff] at hout
    exact ⟨fun h => absurd rfl h, fun hmodule hlet => absurd ⟨hmodule, hlet⟩ hout, .nil, nofun⟩

theorem log_of_fault {past : List Event} {r : Record} {fault : Json.DisplayFault} (h : r.message = .error fault) :
    Logging.log (opened.afterAll past).state r = .error fault ∨ Logging.log (opened.afterAll past).state r = .ok [] := by
  rw [LawfulLogging.log_eq, h]
  split
  · exact .inl rfl
  · exact .inr rfl

/-! ## Sessions -/

theorem told_setUp_of_level (past : List Event) {choice : LevelChoice} {level : Level} (h : choice.level = .ok level) :
    ∃ number, (setUp choice (opened.afterAll past).state).1 = .ok number ∧
      (opened.afterAll (past ++ [.setUp choice])).told = (opened.afterAll past).told ++ [number] ∧
        ∀ earlier ∈ (opened.afterAll past).told, earlier < number := by
  have hgrowing := ((kept_afterAll past).after (.setUp choice)).growing
  obtain ⟨htold, -⟩ := after_setUp_of_level (opened.afterAll past) h
  refine ⟨_, (setUp_of_level _ h).1, by rw [afterAll_concat, htold], fun earlier hearlier => ?_⟩
  rw [htold, List.pairwise_append] at hgrowing
  exact hgrowing.2.2 earlier hearlier _ (List.mem_singleton_self _)

/-- **Which records get out.** Whatever has happened in a session, a record that comes up is delivered only if it
is the library's, and the library's records were let out and not kept back since. It is then delivered once to
each handler that was added and not removed since and takes its level, in the order of their numbers; if its
message cannot be put together, it is delivered to none. And no number is told twice: each is larger than all
before it. -/
theorem records_get_out (past : List Event) :
    (∀ r message, r.message = .ok message →
        ∃ deliveries, Logging.log (opened.afterAll past).state r = .ok deliveries ∧ Gets past r message deliveries) ∧
      (∀ r fault, r.message = .error fault →
        Logging.log (opened.afterAll past).state r = .error fault ∨
          Logging.log (opened.afterAll past).state r = .ok []) ∧
      (∀ choice level, choice.level = .ok level → ∃ number,
        (setUp choice (opened.afterAll past).state).1 = .ok number ∧
          (opened.afterAll (past ++ [.setUp choice])).told = (opened.afterAll past).told ++ [number] ∧
            ∀ earlier ∈ (opened.afterAll past).told, earlier < number) ∧
      ∀ choice fault, choice.level = .error fault →
        (setUp choice (opened.afterAll past).state).1 = .error fault ∧
          (opened.afterAll (past ++ [.setUp choice])).told = (opened.afterAll past).told := by
  refine ⟨fun r message h => ?_, fun r fault h => log_of_fault h, fun choice level h => told_setUp_of_level past h,
    fun choice fault h => ?_⟩
  · exact ⟨_, log_of_ok past h, gets_log h (log_of_ok past h)⟩
  · rw [afterAll_concat]
    exact ⟨(setUp_of_fault _ h).1, (after_setUp_of_fault _ h).1⟩

end

attribute [local instance] Journal.logging Journal.lawful

/-- The first of two handlers is gone, and the library's records are let out again. -/
def reopened : List Event := [.setUp (.named "TRACE"), .setUp (.named "ERROR"), .remove 0, .disable, .enable]

theorem records_get_out_reopened :
    let r : Record := ⟨"syntaxparts.config", "load", none, .critical, .ok "gone"⟩
    (∃ deliveries, Logging.log (opened.afterAll reopened).state r = .ok deliveries ∧ Gets reopened r "gone" deliveries ∧
        deliveries.map (·.handler) = [1]) ∧
      ∃ number, (setUp (.named "INFO") (opened.afterAll reopened).state).1 = .ok number ∧ 1 < number := by
  intro r
  obtain ⟨hok, -, hset, -⟩ := records_get_out reopened
  obtain ⟨deliveries, hlog, hgets⟩ := hok r "gone" rfl
  have hone : Logging.log (opened.afterAll reopened).state r = .ok [⟨1, none, r.line "gone"⟩] := by rfl
  obtain ⟨number, hnumber, -, hlarger⟩ := hset (.named "INFO") .info rfl
  refine ⟨⟨deliveries, hlog, hgets, ?_⟩, number, hnumber, hlarger 1 (by decide)⟩
  rw [← Except.ok.inj (hone.symm.trans hlog)]
  rfl

end Session

end Typeahead
