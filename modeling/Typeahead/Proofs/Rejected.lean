import Typeahead.Part.Record
import Typeahead.Proofs.Completion
import Typeahead.Proofs.Delivery

/-!
# Records of rejecting leaves

Whatever a part is asked, its leaves are matched one after another, and one record comes up for each that
rejects. What a leaf is asked again, it is asked after it has matched, so no leaf is recorded twice. The record
says word for word what was rejected by whom.
-/

namespace Typeahead

open Logging (handlers isActive)

theorem map_map_eq {ε α β γ : Type} (g : β → γ) (f : α → β) (x : Except ε α) :
    g <$> (f <$> x) = (fun a => g (f a)) <$> x := by
  cases x <;> rfl

/-! ## Wording -/

/-- The count of digits that are too many, as the message has it. -/
def Reason.counted : Reason → Text
  | .mismatch => []
  | .tooManyDigits count => Text.ofNat count ++ " digits in "

/-- What comes after the leaf in the wording. -/
def Reason.pieces (reason : Reason) : List Template.Piece :=
  (" rejected " : Text).map .char ++ (match reason with
    | .mismatch => []
    | .tooManyDigits _ => .field [] none [] :: (" digits in " : Text).map .char) ++
      .field [] (some 'r') [] :: ((" at " : Text).map .char ++ [.field [] none []])

theorem Reason.pieces_wording (reason : Reason) :
    Template.pieces reason.wording = .field [] (some 'r') [] :: reason.pieces := by
  cases reason with
  | mismatch => decide +kernel
  | tooManyDigits count =>
    have hcount : Reason.wording (.tooManyDigits count) = Reason.wording (.tooManyDigits 0) := rfl
    rw [hcount]
    show _ = _ :: Reason.pieces (.tooManyDigits 0)
    decide +kernel

/-! ## Delivery -/

theorem filter_handler_eq {deliveries : List Delivery} (h : (deliveries.map (·.handler)).Pairwise (· < ·))
    {d : Delivery} (hd : d ∈ deliveries) : deliveries.filter (·.handler = d.handler) = [d] := by
  induction deliveries with
  | nil => cases hd
  | cons first rest ih =>
    rw [List.map_cons, List.pairwise_cons] at h
    have hlt : ∀ e ∈ rest, first.handler < e.handler := fun e he => h.1 _ (List.mem_map_of_mem he)
    rcases List.mem_cons.1 hd with rfl | hd
    · have hrest : rest.filter (·.handler = d.handler) = [] :=
        List.filter_eq_nil_iff.2 fun e he => by simpa using Nat.ne_of_gt (hlt e he)
      rw [List.filter_cons_of_pos (by simp), hrest]
    · rw [List.filter_cons_of_neg (by simpa using Nat.ne_of_lt (hlt d hd)), ih h.2 hd]

namespace Session

section
variable [Logging] {past : List Event} (hout : LetOut past) {k number : Nat} {severity : Int}
  (htold : (opened.afterAll past).told[k]? = some number) (hattached : Attached past k severity)
include hout htold hattached

theorem Gets.filter_handler {r : Record} {message : Text} {deliveries : List Delivery}
    (h : Gets past r message deliveries) (hmodule : OfLibrary r.module) (hlevel : severity ≤ r.level.severity) :
    deliveries.filter (·.handler = number) = [⟨number, r.source, r.line message⟩] := by
  obtain ⟨d, hd, rfl⟩ :=
    List.mem_map.1 ((h.handlers hmodule hout number).2 ⟨k, severity, htold, hattached, hlevel⟩)
  obtain ⟨hsource, htext⟩ := h.content d hd
  rw [filter_handler_eq h.ordered hd, ← hsource, ← htext]

variable [LawfulLogging]

/-- Its message is put together, though it cannot be. -/
theorem log_of_fault_of_attached {r : Record} {fault : Json.DisplayFault} (h : r.message = .error fault)
    (hmodule : OfLibrary r.module) (hlevel : severity ≤ r.level.severity) :
    Logging.log (opened.afterAll past).state r = .error fault := by
  obtain ⟨handler, hin, -, rfl⟩ := exists_handler_iff.2 ⟨k, htold, hattached⟩
  have hactive : isActive (opened.afterAll past).state r.module = true := by
    rw [(kept_afterAll past).together r.module (within_libraryModule_iff.2 hmodule), letOut_iff]
    exact hout
  have hreached : (handlers (opened.afterAll past).state).any (·.reaches r) = true :=
    List.any_eq_true.2 ⟨handler, hin, decide_eq_true hlevel⟩
  rw [LawfulLogging.log_eq, hactive, hreached, h]
  rfl

theorem filter_handler_logAll {records : List Record}
    (h : ∀ r ∈ records, OfLibrary r.module ∧ severity ≤ r.level.severity ∧ ∃ message, r.message = .ok message) :
    (logAll (opened.afterAll past).state records).2 = .ok () ∧
      records.mapM (fun r => (fun message => (⟨number, r.source, r.line message⟩ : Delivery)) <$> r.message) =
        .ok ((logAll (opened.afterAll past).state records).1.filter (·.handler = number)) := by
  induction records with
  | nil => exact ⟨rfl, rfl⟩
  | cons r records ih =>
    obtain ⟨hmodule, hlevel, message, hmessage⟩ := h r List.mem_cons_self
    obtain ⟨hresult, hrest⟩ := ih fun r hr => h r (List.mem_cons_of_mem _ hr)
    have hlog := log_of_ok past hmessage
    have hgets := Gets.filter_handler hout htold hattached (gets_log hmessage hlog) hmodule hlevel
    simp only [logAll, hlog]
    refine ⟨hresult, ?_⟩
    rw [List.mapM_cons, hmessage, hrest, List.filter_append, hgets]
    rfl

end

end Session

section
variable [Host]

/-! ## What a record says -/

/-- The leaf itself finds nothing at the position. -/
def Leaf.rejectsAt (l : Leaf) (value : Text) (index : Int) : Bool :=
  match (l.matchAt value index).result with
  | .ok none => true
  | _ => false

/-- The count of the digits where there are more than the length. -/
def Leaf.surplus : Leaf → Text → Text
  | .fixedLength length _ _, rest =>
    let count := (rest.takeWhile CodePoint.isDigit).length
    if length < count then Text.ofNat count ++ " digits in " else []
  | _, _ => []

/-- The record of a leaf that rejects a text at a position. It can be put together if the leaf can be displayed. -/
def Leaf.refusal (l : Leaf) (value : Text) (n : Nat) : Record :=
  ⟨l.module, "match", some "parts", .trace,
    (fun shown => shown ++ (" rejected " ++ l.surplus (value.drop n) ++ Text.quoted value ++ " at " ++ Text.ofNat n)) <$>
      l.display⟩

/-- One record for each leaf that rejects, in the order of the leaves. -/
def Part.refusals (p : Part) (value : Text) (n : Nat) : List Record :=
  (p.leaves.filter (·.rejectsAt value n)).map (·.refusal value n)

def Reported.records {ε α : Type} (x : Reported ε α) : List Record := x.rejections.map Rejection.record

/-! ## Messages -/

theorem fill_char_append (t : Text) (pieces : List Template.Piece) (shown : List Shown) :
    fill (t.map .char ++ pieces) shown = (t ++ ·) <$> fill pieces shown := by
  induction t with
  | nil => exact (id_map _).symm
  | cons c t ih => rw [List.map_cons, List.cons_append, fill, ih, map_map_eq]; rfl

theorem fill_field {s : Shown} {conversion : Option CodePoint} {t : Text} (h : s.display conversion = .ok t)
    (name spec : Text) (pieces : List Template.Piece) (shown : List Shown) :
    fill (.field name conversion spec :: pieces) (s :: shown) = (t ++ ·) <$> fill pieces shown := by
  rw [fill, h, ok_bind]
  cases fill pieces shown <;> rfl

theorem fill_field_of_error {s : Shown} {conversion : Option CodePoint} {fault : Json.DisplayFault}
    (h : s.display conversion = .error fault) (name spec : Text) (pieces : List Template.Piece) (shown : List Shown) :
    fill (.field name conversion spec :: pieces) (s :: shown) = .error fault := by
  rw [fill, h, error_bind]

theorem Rejection.message_eq (l : Leaf) (value : Text) (n : Nat) (reason : Reason) :
    (Rejection.mk l value n reason).message =
      (fun shown => shown ++ (" rejected " ++ reason.counted ++ Text.quoted value ++ " at " ++ Text.ofNat n)) <$>
        l.display := by
  have hleaf : (Rejection.mk l value n reason).shown = .leaf l :: (Rejection.mk l value n reason).shown.tail := by
    cases reason <;> rfl
  have htail : fill reason.pieces (Rejection.mk l value n reason).shown.tail =
      .ok (" rejected " ++ reason.counted ++ Text.quoted value ++ " at " ++ Text.ofNat n) := by
    cases reason <;>
      simp [Reason.pieces, Rejection.shown, Reason.counted, fill_char_append, fill, Shown.display, Text.ofInt,
        Functor.map, Except.map]
  rw [message, Reason.pieces_wording, hleaf]
  cases hl : l.display with
  | error fault => exact fill_field_of_error (s := .leaf l) hl ..
  | ok shown =>
    rw [fill_field (s := .leaf l) hl, htail]
    rfl

theorem Leaf.rejectsAt_iff (l : Leaf) {value : Text} {n : Nat} (h : n ≤ value.length) :
    l.rejectsAt value n = true ↔ l.matchRest (value.drop n) = none := by
  unfold Leaf.rejectsAt
  rw [l.matchAt_natCast h]
  cases l.matchRest (value.drop n) <;> simp

theorem Leaf.counted_reason {l : Leaf} {rest : Text} (h : l.matchRest rest = none) :
    (l.reason rest).counted = l.surplus rest := by
  cases l with
  | literal l => rfl
  | number s => rfl
  | fixedLength length pos s =>
    obtain ⟨run, tail, rfl, hrun, htail⟩ := exists_run rest
    rw [Leaf.matchRest, fixedLengthMatchRest_append hrun htail] at h
    simp only [Leaf.reason, Leaf.surplus, digitRun?_append hrun htail, takeWhile_isDigit_append hrun htail]
    by_cases hnone : run = [] ∧ tail ≠ []
    · simp [hnone, Reason.counted]
    · rw [if_neg hnone] at h ⊢
      have hlong : length < run.length := by
        refine Nat.lt_of_le_of_ne (Nat.le_of_not_lt fun hlt => ?_) fun heq => ?_
        · rw [if_neg (Nat.ne_of_lt hlt), if_pos hlt] at h
          cases h
        · rw [if_pos heq.symm] at h
          cases h
      rw [if_pos hlong]
      rfl

theorem Leaf.records_rejections (l : Leaf) {value : Text} {n : Nat} (h : n ≤ value.length) :
    (l.rejections value n).map Rejection.record = if l.rejectsAt value n then [l.refusal value n] else [] := by
  by_cases hr : l.matchRest (value.drop n) = none
  · have hname : boundName (some ("parts" : Text)) = some ("parts" : Text) := rfl
    rw [if_pos ((l.rejectsAt_iff h).2 hr), Leaf.rejections, hr]
    simp only [List.map_cons, List.map_nil, Rejection.record, Rejection.message_eq, Leaf.counted_reason hr, hname,
      Leaf.refusal]
  · obtain ⟨m, hm⟩ := Option.ne_none_iff_exists'.1 hr
    rw [if_neg fun h' => hr ((l.rejectsAt_iff h).1 h'), Leaf.rejections, hm]
    rfl

theorem Part.records_leaves (p : Part) {value : Text} {n : Nat} (h : n ≤ value.length) :
    (p.leaves.flatMap (·.rejections value n)).map Rejection.record = p.refusals value n := by
  unfold Part.refusals
  induction p.leaves with
  | nil => rfl
  | cons l ls ih =>
    rw [List.flatMap_cons, List.map_append, ih, l.records_rejections h, List.filter_cons]
    split <;> rfl

/-! ## What is reported on the way -/

namespace Reported

variable {ε α β : Type}

/-- What comes after a result adds nothing if it reports nothing. -/
theorem rejections_bind_of_silent {x : Reported ε α} {f : α → Reported ε β}
    (h : ∀ a, x.result = .ok a → (f a).rejections = []) : (x >>= f).rejections = x.rejections := by
  cases hx : x.result with
  | ok a => rw [bind_of_ok hx, h a hx, List.append_nil]
  | error e => rw [bind_of_error hx]

theorem rejections_ofExcept (r : Except ε α) : (ofExcept r).rejections = [] := rfl

theorem rejections_mapM_singleton (f : α → Reported ε β) (a : α) : ([a].mapM f).rejections = (f a).rejections := by
  rw [List.mapM_cons, rejections_bind_of_silent fun b _ => rfl]

end Reported

open Reported (rejections_bind_of_silent rejections_ofExcept rejections_mapM_singleton)

/-- A number is not matched before its suggestions are looked for, and nothing is reported of it. -/
theorem Leaf.rejections_suggestionsAt_number (s : Settings) (value : Text) (n : Nat) :
    ((Leaf.number s).suggestionsAt value n).rejections = [] := by
  unfold Leaf.suggestionsAt
  refine (rejections_bind_of_silent fun rest _ => ?_).trans (rejections_ofExcept _)
  split <;> rfl

section
variable {value : Text} {n : Nat} (hn : n ≤ value.length)
include hn

theorem Leaf.rejections_matchAt (l : Leaf) : (l.matchAt value n).rejections = l.rejections value n := by
  rw [l.matchAt_natCast hn]

theorem Leaf.matchRest_of_result {l : Leaf} {found : Option Match} (h : (l.matchAt value n).result = .ok found) :
    l.matchRest (value.drop n) = found := by
  rw [l.matchAt_natCast hn] at h
  exact Except.ok.inj h

theorem Leaf.rejections_suggestionsAt {l : Leaf} (hl : ∀ s, l ≠ .number s) :
    (l.suggestionsAt value n).rejections = l.rejections value n := by
  rw [← l.rejections_matchAt hn]
  unfold Leaf.suggestionsAt
  cases l with
  | number s => exact absurd rfl (hl s)
  | literal l =>
    refine rejections_bind_of_silent fun found _ => ?_
    cases found <;> rfl
  | fixedLength length pos s =>
    refine rejections_bind_of_silent fun found _ => ?_
    cases found with
    | none => rfl
    | some m =>
      refine (rejections_bind_of_silent fun rest _ => ?_).trans (rejections_ofExcept _)
      dsimp only
      split
      · rfl
      · exact (rejections_bind_of_silent fun label _ => rfl).trans (rejections_ofExcept _)
      · split
        · rfl
        · split <;> rfl

theorem Leaf.rejections_suggestionsAt_of_matched {l : Leaf} {m : Match} (h : l.matchRest (value.drop n) = some m) :
    (l.suggestionsAt value n).rejections = [] := by
  cases l with
  | number s => exact Leaf.rejections_suggestionsAt_number s value n
  | literal l => rw [Leaf.rejections_suggestionsAt hn (by simp), Leaf.rejections, h]
  | fixedLength length pos s => rw [Leaf.rejections_suggestionsAt hn (by simp), Leaf.rejections, h]

theorem Leaf.rejections_suggestionsIfMatched (l : Leaf) :
    (l.suggestionsIfMatched value n).rejections = l.rejections value n := by
  rw [← l.rejections_matchAt hn]
  refine rejections_bind_of_silent fun found hfound => ?_
  cases found with
  | none => rfl
  | some m => exact Leaf.rejections_suggestionsAt_of_matched hn (Leaf.matchRest_of_result hn hfound)

theorem Leaf.rejections_completions (l : Leaf) : (l.completions value n).rejections = l.rejections value n := by
  rw [← l.rejections_matchAt hn]
  refine rejections_bind_of_silent fun found hfound => ?_
  cases found with
  | none => rfl
  | some m =>
    dsimp only
    split
    · rfl
    · rw [rejections_bind_of_silent fun suggestions _ => rfl]
      exact Leaf.rejections_suggestionsAt_of_matched hn (Leaf.matchRest_of_result hn hfound)

end

/-! ## Parts -/

/-- Where no literal stops at a fault, all of them are asked. -/
theorem Options.rejections_mapM (o : Options) {ε β : Type} {f : Leaf → Reported ε β} {g : Literal → β} {value : Text}
    {n : Nat} (hok : ∀ w, (f (.literal w)).result = .ok (g w)) (hf : ∀ l, (f l).rejections = l.rejections value n) :
    ((Part.options o).leaves.mapM f).rejections = (Part.options o).leaves.flatMap (·.rejections value n) := by
  simp only [Part.leaves, List.mapM_map, List.flatMap_map]
  rw [Reported.mapM_of_ok (f ∘ Leaf.literal) g o.literals fun w _ => hok w]
  simp only [Function.comp, hf]

section
variable {value : Text} {n : Nat} (hn : n ≤ value.length)
include hn

theorem Part.records_matchAt (p : Part) : (p.matchAt value n).records = p.refusals value n := by
  rw [Reported.records, p.matchAt_natCast hn, p.records_leaves hn]

theorem Part.records_suggestionsAt {p : Part} (hp : ∀ s, p ≠ .number s) :
    (p.suggestionsAt value n).records = p.refusals value n := by
  rw [Reported.records, ← p.records_leaves hn]
  cases p with
  | leaf l =>
    have hl : ∀ s, l ≠ .number s := fun s h => hp s (by rw [h]; rfl)
    show ((l.suggestionsAt value n).rejections).map _ = _
    rw [Leaf.rejections_suggestionsAt hn hl, Part.leaves, List.flatMap_cons, List.flatMap_nil, List.append_nil]
  | options o =>
    rw [← o.rejections_mapM (fun w => w.result_suggestionsIfMatched hn) (Leaf.rejections_suggestionsIfMatched hn)]
    refine congrArg _ (rejections_bind_of_silent fun found _ => ?_)
    dsimp only
    split <;> rfl

theorem Part.records_validate (p : Part) (allowBegun : Bool) :
    (p.validate n allowBegun value).records = p.refusals value n := by
  have hle : ¬(n : Int) > value.length := by omega
  rw [← p.records_matchAt hn, Part.validate, if_neg hle]
  exact congrArg _ (rejections_bind_of_silent fun found _ => rfl)

end

theorem Part.records_completions (p : Part) (text : Text) (cursor n : Nat) :
    (p.completions n text cursor).records =
      if (text.take cursor).length < n then [] else p.refusals (text.take cursor) n := by
  unfold Part.completions
  by_cases hn : (text.take cursor).length < n
  · rw [if_pos hn, if_pos (by omega)]
    rfl
  · have hle : n ≤ (text.take cursor).length := Nat.le_of_not_lt hn
    rw [if_neg hn, ← p.records_leaves hle, if_neg (by omega)]
    refine congrArg _ ((rejections_bind_of_silent fun found _ => rfl).trans ?_)
    cases p with
    | leaf l => exact (rejections_mapM_singleton _ l).trans (by simp [l.rejections_completions hle, Part.leaves])
    | options o =>
      exact o.rejections_mapM (fun w => ((Leaf.literal w).completions_iff hle _).2 ⟨trivial, rfl⟩)
        (Leaf.rejections_completions hle)

/-! ## Delivery -/

theorem Leaf.ofLibrary_module (l : Leaf) : OfLibrary l.module := by
  cases l <;> exact within_libraryModule_iff.1 rfl

theorem Part.of_mem_refusals {p : Part} {value : Text} {n : Nat} {r : Record} (h : r ∈ p.refusals value n) :
    OfLibrary r.module ∧ r.level = .trace := by
  obtain ⟨l, -, rfl⟩ := List.mem_map.1 h
  exact ⟨l.ofLibrary_module, rfl⟩

section
variable [Logging] {ε α : Type} (x : Reported ε α) (undisplayable : Json.DisplayFault → ε) {s : Logging.State}

theorem Reported.logged_of_ok (h : (logAll s x.records).2 = .ok ()) :
    x.logged undisplayable s = ((logAll s x.records).1, x.result) := by
  have hrun : logAll s (x.rejections.map Rejection.record) = ((logAll s x.records).1, .ok ()) := Prod.ext rfl h
  rw [logged, hrun]

theorem Reported.logged_of_fault {fault : Json.DisplayFault} (h : (logAll s x.records).2 = .error fault) :
    x.logged undisplayable s = ((logAll s x.records).1, .error (undisplayable fault)) := by
  have hrun : logAll s (x.rejections.map Rejection.record) = ((logAll s x.records).1, .error fault) := Prod.ext rfl h
  rw [logged, hrun]

end

theorem Part.exists_message {p : Part} {shown : Text} (h : p.display = .ok shown) {value : Text} {n : Nat} {r : Record}
    (hr : r ∈ p.refusals value n) : ∃ message, r.message = .ok message := by
  have hleaves (l : Leaf) (hl : l ∈ p.leaves) : ∃ t, l.display = .ok t := by
    cases p with
    | leaf l' => exact ⟨shown, List.mem_singleton.1 hl ▸ h⟩
    | options o =>
      obtain ⟨w, -, rfl⟩ := List.mem_map.1 hl
      exact ⟨_, rfl⟩
  obtain ⟨l, hl, rfl⟩ := List.mem_map.1 hr
  obtain ⟨t, ht⟩ := hleaves l (List.mem_filter.1 hl).1
  exact ⟨_, map_eq_ok_iff.2 ⟨t, ht, rfl⟩⟩

/-- Only a leaf cannot be displayed, so only one message fails. -/
theorem Part.refusals_of_fault {p : Part} {fault : Json.DisplayFault} (h : p.display = .error fault) (value : Text)
    (n : Nat) : p.refusals value n = [] ∨ ∃ r, p.refusals value n = [r] ∧ r.message = .error fault := by
  cases p with
  | leaf l =>
    have hdisplay : l.display = .error fault := h
    rw [Part.refusals, Part.leaves, List.filter_cons, List.filter_nil]
    split
    · exact .inr ⟨_, rfl, by simp only [Leaf.refusal, hdisplay]; rfl⟩
    · exact .inl rfl
  | options o => cases h

section
variable [Logging] [LawfulLogging] {p : Part} {value : Text} {n : Nat} {past : List Event} {k number : Nat} {severity : Int}
  (hout : LetOut past) (htold : (Session.opened.afterAll past).told[k]? = some number)
  (hattached : Session.Attached past k severity) (hlevel : severity ≤ Level.trace.severity)
  {α : Type} {x : Reported QueryFault α} (hx : x.records = p.refusals value n)
include hout htold hattached hlevel hx

theorem Part.logged_of_display {shown : Text} (h : p.display = .ok shown) :
    (x.logged .undisplayable (Session.opened.afterAll past).state).2 = x.result ∧
      (p.refusals value n).mapM (fun r =>
          (fun message => (⟨number, r.source, r.line message⟩ : Delivery)) <$> r.message) =
        .ok ((x.logged .undisplayable (Session.opened.afterAll past).state).1.filter (·.handler = number)) := by
  have hrecords (r : Record) (hr : r ∈ p.refusals value n) :
      OfLibrary r.module ∧ severity ≤ r.level.severity ∧ ∃ message, r.message = .ok message := by
    obtain ⟨hmodule, htrace⟩ := Part.of_mem_refusals hr
    exact ⟨hmodule, by rw [htrace]; exact hlevel, Part.exists_message h hr⟩
  obtain ⟨hresult, hdelivered⟩ := Session.filter_handler_logAll hout htold hattached hrecords
  rw [x.logged_of_ok .undisplayable (hx ▸ hresult)]
  exact ⟨rfl, hx ▸ hdelivered⟩

theorem Part.logged_of_fault {fault : Json.DisplayFault} (h : p.display = .error fault) :
    x.logged .undisplayable (Session.opened.afterAll past).state =
      ([], if p.refusals value n = [] then x.result else .error (.undisplayable fault)) := by
  rcases Part.refusals_of_fault h value n with hnone | ⟨r, hone, hmessage⟩
  · have hrun : logAll (Session.opened.afterAll past).state x.records = ([], .ok ()) := by
      rw [hx, hnone]
      rfl
    rw [if_pos hnone, x.logged_of_ok .undisplayable (congrArg Prod.snd hrun), hrun]
  · obtain ⟨hmodule, htrace⟩ := Part.of_mem_refusals (hone ▸ List.mem_singleton_self r)
    have hlog := Session.log_of_fault_of_attached hout htold hattached hmessage hmodule (htrace ▸ hlevel)
    have hrun : logAll (Session.opened.afterAll past).state x.records = ([], .error fault) := by
      rw [hx, hone, logAll, hlog]
    have hne : p.refusals value n ≠ [] := by
      rw [hone]
      exact List.cons_ne_nil _ _
    rw [if_neg hne, x.logged_of_fault .undisplayable (congrArg Prod.snd hrun), hrun]

end

end

attribute [local instance] Host.usual Journal.logging Journal.lawful

end Typeahead
