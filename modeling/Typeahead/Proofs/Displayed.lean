import Mathlib.Algebra.Order.Group.Nat
import Typeahead.Part.Basic
import Typeahead.Proofs.LongestFirst
import Typeahead.Proofs.Numeral
import Typeahead.Proofs.PlainLabel

/-!
# What a display tells

Where a quoted text ends, and what it says, can be read off whatever follows it. So a list of quoted texts
falls apart in one way only, whatever quotes, commas or escapes are in them, and so do the displays of settings
and of parts: two parts with the same display are equal.
-/

namespace Typeahead

namespace Text

/-! ## Reading one character -/

def readHex (width : Nat) (t : Text) : CodePoint × Text :=
  (.ofNat (value 16 (digitsIn 16 (t.take width))), t.drop width)

/-- The first character that is written in an escaped text, and what follows it. -/
def readEscaped : Text → Option (CodePoint × Text)
  | [] => none
  | c :: t =>
    if c = '\\' then
      match t with
      | [] => none
      | d :: t =>
        if d = 'n' then some ('\n', t)
        else if d = 'r' then some ('\r', t)
        else if d = 't' then some ('\t', t)
        else if d = 'x' then some (readHex 2 t)
        else if d = 'u' then some (readHex 4 t)
        else if d = 'U' then some (readHex 8 t)
        else some (d, t)
    else some (c, t)

theorem value_hex (width n : Nat) : value 16 (digitsIn 16 (hex width n)) = n := by
  rw [hex, padLeft, List.leftpad, digitsIn_append, digitsIn_replicate_zero (by decide), value_zeros,
    value_digits (by decide) (by decide)]

theorem length_hex {width n : Nat} (hwidth : 0 < width) (h : n < 16 ^ width) : (hex width n).length = width := by
  have hdigits : (digits 16 n).length ≤ width := by
    rw [digits, ofChars, List.length_map, Nat.length_toDigits_le_iff (by decide) hwidth]
    exact h
  rw [hex, length_padLeft, Nat.max_eq_left hdigits]

theorem readHex_hex {width : Nat} (hwidth : 0 < width) {c : CodePoint} (h : c.toNat < 16 ^ width) (t : Text) :
    readHex width (hex width c.toNat ++ t) = (c, t) := by
  rw [readHex, List.take_left' (length_hex hwidth h), List.drop_left' (length_hex hwidth h), value_hex,
    CodePoint.ofNat_toNat]

theorem readEscaped_escapeCodePoint (c : CodePoint) (t : Text) :
    readEscaped (escapeCodePoint c.toNat ++ t) = some (c, t) := by
  have hc := c.toNat_lt
  unfold escapeCodePoint
  split
  · next h => exact congrArg some (readHex_hex (by decide) h t)
  split
  · next h => exact congrArg some (readHex_hex (by decide) h t)
  · exact congrArg some (readHex_hex (by decide) (Nat.lt_trans hc (by decide)) t)

section
variable {quote : CodePoint} (hquote : quote = '\x27' ∨ quote = '"')
include hquote

theorem readEscaped_escape (c : CodePoint) (t : Text) : readEscaped (escape quote c ++ t) = some (c, t) := by
  unfold escape
  split
  · next h =>
    rcases h with rfl | rfl
    · rcases hquote with rfl | rfl <;> rfl
    · rfl
  split
  · next h _ => exact if_neg fun hback => h (.inr hback)
  split
  · next h => rw [h]; rfl
  split
  · next h => rw [h]; rfl
  split
  · next h => rw [h]; rfl
  · exact readEscaped_escapeCodePoint c t

/-- An unescaped quote would be read as itself, but a quote that is written has a backslash before it. -/
theorem escape_append_ne (c : CodePoint) (t u : Text) : escape quote c ++ t ≠ quote :: u := by
  intro h
  have hread : readEscaped (quote :: u) = some (quote, u) := by rcases hquote with rfl | rfl <;> rfl
  rw [← h, readEscaped_escape hquote] at hread
  obtain ⟨rfl, -⟩ := Prod.mk.inj (Option.some.inj hread)
  rw [escape, if_pos (.inl rfl)] at h
  rcases hquote with rfl | rfl <;> exact absurd (List.cons.inj h).1 (by decide)

theorem escaped_append_inj {t u v w : Text}
    (h : t.flatMap (escape quote) ++ quote :: v = u.flatMap (escape quote) ++ quote :: w) : t = u ∧ v = w := by
  induction t generalizing u with
  | nil =>
    cases u with
    | nil => exact ⟨rfl, (List.cons.inj h).2⟩
    | cons d u =>
      rw [List.flatMap_cons, List.append_assoc] at h
      exact absurd h.symm (escape_append_ne hquote d _ _)
  | cons c t ih =>
    cases u with
    | nil =>
      rw [List.flatMap_cons, List.append_assoc] at h
      exact absurd h (escape_append_ne hquote c _ _)
    | cons d u =>
      have hread := congrArg readEscaped h
      simp only [List.flatMap_cons, List.append_assoc, readEscaped_escape hquote] at hread
      obtain ⟨rfl, hrest⟩ := Prod.mk.inj (Option.some.inj hread)
      obtain ⟨rfl, hvw⟩ := ih hrest
      exact ⟨rfl, hvw⟩

end

/-! ## Quoted texts -/

theorem quoted_append_inj {t u v w : Text} (h : quoted t ++ v = quoted u ++ w) : t = u ∧ v = w := by
  simp only [quoted, List.cons_append, List.append_assoc, List.nil_append] at h
  obtain ⟨hquote, hrest⟩ := List.cons.inj h
  rw [← hquote] at hrest
  exact escaped_append_inj (quoteFor_eq t) hrest

/-- A list of quoted texts falls apart in one way, and it tells where it ends. -/
theorem join_quoted_append_inj {t u : Text} {ts us : List Text} {v w : Text}
    (h : join ", " ((t :: ts).map quoted) ++ .scalar ')' :: v = join ", " ((u :: us).map quoted) ++ .scalar ')' :: w) :
    t :: ts = u :: us ∧ v = w := by
  induction ts generalizing t u us with
  | nil =>
    cases us with
    | nil =>
      obtain ⟨rfl, hrest⟩ := quoted_append_inj h
      exact ⟨rfl, (List.cons.inj hrest).2⟩
    | cons u' us =>
      simp only [List.map_cons, List.map_nil, join, List.append_assoc] at h
      exact absurd (List.cons.inj (quoted_append_inj h).2).1 (by decide)
  | cons t' ts ih =>
    cases us with
    | nil =>
      simp only [List.map_cons, List.map_nil, join, List.append_assoc] at h
      exact absurd (List.cons.inj (quoted_append_inj h).2).1 (by decide)
    | cons u' us =>
      simp only [List.map_cons, join, List.append_assoc] at h
      obtain ⟨rfl, hrest⟩ := quoted_append_inj h
      obtain ⟨htail, hvw⟩ := ih (List.append_cancel_left hrest)
      exact ⟨by rw [htail], hvw⟩

/-! ## What stands before a separator -/

theorem append_cons_inj {c : CodePoint} {t u v w : Text} (ht : c ∉ t) (hu : c ∉ u) (h : t ++ c :: v = u ++ c :: w) :
    t = u ∧ v = w := by
  induction t generalizing u with
  | nil =>
    cases u with
    | nil => exact ⟨rfl, (List.cons.inj h).2⟩
    | cons e u => exact absurd (List.mem_cons.2 (.inl (List.cons.inj h).1)) hu
  | cons d t ih =>
    cases u with
    | nil => exact absurd (List.mem_cons.2 (.inl (List.cons.inj h).1.symm)) ht
    | cons e u =>
      obtain ⟨rfl, hrest⟩ := List.cons.inj h
      rw [List.mem_cons, not_or] at ht hu
      obtain ⟨rfl, hvw⟩ := ih ht.2 hu.2 hrest
      exact ⟨rfl, hvw⟩

theorem comma_not_mem_ofNat (n : Nat) : CodePoint.scalar ',' ∉ ofNat n :=
  fun h => absurd (isDigit_of_mem_ofNat h) (by decide)

end Text

theorem writeNat_eq_ok_iff {n : Nat} {t : Text} : writeNat n = .ok t ↔ Text.isWritable n = true ∧ t = Text.ofNat n := by
  unfold writeNat
  split
  · next h => exact ⟨fun ht => ⟨h, (Except.ok.inj ht).symm⟩, fun ht => congrArg Except.ok ht.2.symm⟩
  · next h => exact ⟨fun ht => (by cases ht), fun ht => absurd ht.1 h⟩

theorem Options.literals_inj {o o' : Options} : o.literals = o'.literals ↔ o = o' := by
  cases o
  cases o'
  simp

section
variable [Host]

/-! ## Settings -/

theorem Json.shown_string (t : Text) : (Json.string t).shown = .ok (Text.quoted t) := by
  have hfault : (Json.string t).displayFault? = none := by
    rw [displayFault?, ← Nat.sub_add_cancel Host.displayDepth_pos]
    rfl
  rw [shown, hfault]
  rfl

namespace Settings

def OfTexts (s : Settings) : Prop := ∃ version label, s.version = .string version ∧ s.numberLabel = .string label

variable {s t : Settings}

theorem same_iff_eq (hs : s.OfTexts) (ht : t.OfTexts) : s.same t = true ↔ s = t := by
  obtain ⟨version, label, hversion, hlabel⟩ := hs
  obtain ⟨version', label', hversion', hlabel'⟩ := ht
  cases s
  cases t
  subst hversion hlabel hversion' hlabel'
  simp [Settings.same, Json.same, Json.sameLeaf, and_assoc]

theorem display_eq_ok {version label : Text} (hversion : s.version = .string version)
    (hlabel : s.numberLabel = .string label) : s.display = .ok ("SyntaxConfig(" ++ Text.join ", "
      [versionName ++ ("=" : Text) ++ Text.quoted version, numberLabelName ++ ("=" : Text) ++ Text.quoted label,
        lengthLabelName ++ ("=" : Text) ++ Text.quoted s.lengthLabel,
        padName ++ ("=" : Text) ++ Text.quoted [s.pad]] ++ ")") := by
  simp only [display, Fields.members, fields, hversion, hlabel, List.mapM_cons, List.mapM_nil, Json.shown_string]
  rfl

theorem exists_display (hs : s.OfTexts) : ∃ x, s.display = .ok x := by
  obtain ⟨version, label, hversion, hlabel⟩ := hs
  exact ⟨_, display_eq_ok hversion hlabel⟩

theorem display_append_inj (hs : s.OfTexts) (ht : t.OfTexts) {x y u v : Text} (hx : s.display = .ok x)
    (hy : t.display = .ok y) (h : x ++ u = y ++ v) : s = t ∧ u = v := by
  obtain ⟨version, label, hversion, hlabel⟩ := hs
  obtain ⟨version', label', hversion', hlabel'⟩ := ht
  cases (display_eq_ok hversion hlabel).symm.trans hx
  cases (display_eq_ok hversion' hlabel').symm.trans hy
  simp only [Text.join, List.append_assoc, List.append_cancel_left_eq] at h
  obtain ⟨rfl, h⟩ := Text.quoted_append_inj h
  simp only [List.append_cancel_left_eq] at h
  obtain ⟨rfl, h⟩ := Text.quoted_append_inj h
  simp only [List.append_cancel_left_eq] at h
  obtain ⟨hlength, h⟩ := Text.quoted_append_inj h
  simp only [List.append_cancel_left_eq] at h
  obtain ⟨hpad, h⟩ := Text.quoted_append_inj h
  refine ⟨?_, List.append_cancel_left h⟩
  cases s
  cases t
  cases hversion.trans hversion'.symm
  cases hlabel.trans hlabel'.symm
  cases hlength
  cases hpad
  rfl

end Settings

/-! ## Leaves -/

def Leaf.OfTexts (l : Leaf) : Prop := ∀ s ∈ l.settings?, s.OfTexts

theorem Leaf.contents_fixedLength_iff {n : Nat} {pos : 0 < n} {s : Settings} {x : Text} :
    (Leaf.fixedLength n pos s).contents = .ok x ↔
      Text.isWritable n = true ∧ ∃ settings, s.display = .ok settings ∧ x = Text.ofNat n ++ (", " : Text) ++ settings := by
  have hcontents : (Leaf.fixedLength n pos s).contents = writeNat n >>= fun length => s.display >>= fun settings =>
      .ok (length ++ (", " : Text) ++ settings) := rfl
  rw [hcontents]
  constructor
  · intro h
    obtain ⟨length, hlength, h⟩ := exists_of_bind_eq_ok h
    obtain ⟨settings, hsettings, h⟩ := exists_of_bind_eq_ok h
    obtain ⟨hn, rfl⟩ := writeNat_eq_ok_iff.1 hlength
    exact ⟨hn, settings, hsettings, (Except.ok.inj h).symm⟩
  · rintro ⟨hn, settings, hsettings, rfl⟩
    rw [writeNat_eq_ok_iff.2 ⟨hn, rfl⟩, ok_bind, hsettings, ok_bind]

theorem Leaf.same_iff_eq {l l' : Leaf} (h : l.OfTexts) (h' : l'.OfTexts) : l.same l' = true ↔ l = l' := by
  cases l <;> cases l'
  case literal.literal a b => simp [Leaf.same]
  case number.number s t => rw [Leaf.same, Settings.same_iff_eq (h s rfl) (h' t rfl), Leaf.number.injEq]
  case fixedLength.fixedLength m _ s n _ t =>
    rw [Leaf.same, Bool.and_eq_true, decide_eq_true_eq, Settings.same_iff_eq (h s rfl) (h' t rfl), Leaf.fixedLength.injEq]
  all_goals simp [Leaf.same]

theorem Leaf.eq_of_contents {l l' : Leaf} (h : l.OfTexts) (h' : l'.OfTexts) (htype : l.typeName = l'.typeName)
    {x y : Text} (hx : l.contents = .ok x) (hy : l'.contents = .ok y)
    (hbody : x ++ [.scalar ')'] = y ++ [.scalar ')']) : l = l' := by
  cases l <;> cases l'
  case literal.literal a b =>
    cases hx
    cases hy
    rw [Literal.text_injective (Text.quoted_append_inj hbody).1]
  case number.number s t => rw [(Settings.display_append_inj (h s rfl) (h' t rfl) hx hy hbody).1]
  case fixedLength.fixedLength m _ s n _ t =>
    obtain ⟨-, settings, hsettings, rfl⟩ := Leaf.contents_fixedLength_iff.1 hx
    obtain ⟨-, settings', hsettings', rfl⟩ := Leaf.contents_fixedLength_iff.1 hy
    simp only [List.append_assoc] at hbody
    obtain ⟨hlength, hrest⟩ :=
      Text.append_cons_inj (Text.comma_not_mem_ofNat m) (Text.comma_not_mem_ofNat n) hbody
    cases Text.ofNat_injective hlength
    rw [(Settings.display_append_inj (h s rfl) (h' t rfl) hsettings hsettings' (List.cons.inj hrest).2).1]
  all_goals exact absurd htype (by simp only [Leaf.typeName]; decide)

theorem Leaf.contents_cases {l : Leaf} (h : l.OfTexts) : (∃ x, l.contents = .ok x) ∨
    l.contents = .error .numberTooLong ∧ ∃ n pos s, l = .fixedLength n pos s ∧ Text.isWritable n = false := by
  cases l with
  | literal w => exact .inl ⟨_, rfl⟩
  | number s => exact .inl (Settings.exists_display (h s rfl))
  | fixedLength n pos s =>
    by_cases hn : Text.isWritable n = true
    · obtain ⟨settings, hsettings⟩ := Settings.exists_display (h s rfl)
      exact .inl ⟨_, Leaf.contents_fixedLength_iff.2 ⟨hn, settings, hsettings, rfl⟩⟩
    · refine .inr ⟨?_, n, pos, s, rfl, Bool.eq_false_iff.2 hn⟩
      rw [Leaf.contents, writeNat, if_neg hn]
      rfl

/-! ## Parts -/

namespace Part

def OfTexts (p : Part) : Prop := ∀ l ∈ p.leaves, l.OfTexts

def contents : Part → Except Json.DisplayFault Text
  | leaf l => l.contents
  | options o => .ok (Text.join ", " (o.texts.map Text.quoted))

theorem display_eq (p : Part) :
    p.display = (fun x => p.typeName ++ .scalar '(' :: (x ++ [.scalar ')'])) <$> p.contents := by
  have happend (name x : Text) : name ++ ("(" : Text) ++ x ++ (")" : Text) = name ++ .scalar '(' :: (x ++ [.scalar ')']) := by
    simp [Text.ofString, Text.ofChars]
  cases p with
  | leaf l =>
    rw [Part.display, Leaf.display, Part.contents]
    simp only [happend]
    rfl
  | options o =>
    exact congrArg Except.ok (happend "StringOptionsSyntax" _)

theorem paren_not_mem_typeName (p : Part) : CodePoint.scalar '(' ∉ p.typeName := by
  cases p with
  | leaf l => cases l <;> simp only [Part.typeName, Leaf.typeName] <;> decide
  | options o => simp only [Part.typeName]; decide

theorem same_iff_eq {p q : Part} (hp : p.OfTexts) (hq : q.OfTexts) : p.same q = true ↔ p = q := by
  cases p <;> cases q
  case leaf.leaf a b =>
    rw [Part.same, Leaf.same_iff_eq (hp a List.mem_cons_self) (hq b List.mem_cons_self), Part.leaf.injEq]
  case options.options a b =>
    rw [Part.same, decide_eq_true_eq, Part.options.injEq, Options.literals_inj]
  all_goals simp [Part.same]

theorem eq_of_contents {p q : Part} (hp : p.OfTexts) (hq : q.OfTexts) (htype : p.typeName = q.typeName) {x y : Text}
    (hx : p.contents = .ok x) (hy : q.contents = .ok y) (hbody : x ++ [.scalar ')'] = y ++ [.scalar ')']) : p = q := by
  cases p <;> cases q
  case leaf.leaf a b =>
    rw [Leaf.eq_of_contents (hp a List.mem_cons_self) (hq b List.mem_cons_self) htype hx hy hbody]
  case options.options a b =>
    cases hx
    cases hy
    have hne (o : Options) : o.texts ≠ [] := fun h => o.ne_nil (List.map_eq_nil_iff.1 h)
    obtain ⟨t, ts, ha⟩ := List.exists_cons_of_ne_nil (hne a)
    obtain ⟨u, us, hb⟩ := List.exists_cons_of_ne_nil (hne b)
    rw [ha, hb] at hbody
    have htexts : a.texts = b.texts := by rw [ha, hb, (Text.join_quoted_append_inj hbody).1]
    rw [Options.literals_inj.1 (Options.eq_iff_texts.2 htexts)]
  case leaf.options a b => cases a <;> exact absurd htype (by simp only [Part.typeName, Leaf.typeName]; decide)
  case options.leaf a b => cases b <;> exact absurd htype (by simp only [Part.typeName, Leaf.typeName]; decide)

theorem contents_cases {p : Part} (h : p.OfTexts) : (∃ x, p.contents = .ok x) ∨
    p.contents = .error .numberTooLong ∧ ∃ n pos s, p = .fixedLength n pos s ∧ Text.isWritable n = false := by
  cases p with
  | leaf l =>
    refine (Leaf.contents_cases (h l List.mem_cons_self)).imp_right ?_
    rintro ⟨herror, n, pos, s, rfl, hn⟩
    exact ⟨herror, n, pos, s, rfl, hn⟩
  | options o => exact .inl ⟨_, rfl⟩

theorem eq_of_display {p q : Part} (hp : p.OfTexts) (hq : q.OfTexts) {t : Text} (ht : p.display = .ok t)
    (hu : q.display = .ok t) : p = q := by
  rw [display_eq] at ht hu
  obtain ⟨x, hx, rfl⟩ := map_eq_ok_iff.1 ht
  obtain ⟨y, hy, h⟩ := map_eq_ok_iff.1 hu
  obtain ⟨htype, hbody⟩ := Text.append_cons_inj (paren_not_mem_typeName p) (paren_not_mem_typeName q) h
  exact eq_of_contents hp hq htype hx hy hbody

end Part

end

namespace Part

attribute [local instance] Host.usual

end Part

end Typeahead
