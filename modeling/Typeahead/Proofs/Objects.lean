import Typeahead.Proofs.Match
import Typeahead.Proofs.Quotation

/-!
# Objects of texts, written and read back

An object whose members are null or texts is read back as it was, members in their order, if no name
comes twice.
-/

namespace Typeahead

namespace Members

variable {α : Type}

def putAll (known members : List (Text × α)) : List (Text × α) :=
  members.foldl (fun known m => put m.1 m.2 known) known

theorem put_eq_append {name : Text} (value : α) {members : List (Text × α)} (h : name ∉ members.map (·.1)) :
    put name value members = members ++ [(name, value)] := by
  induction members with
  | nil => rfl
  | cons m rest ih =>
    obtain ⟨k, v⟩ := m
    simp only [List.map_cons, List.mem_cons, not_or] at h
    rw [put, if_neg (Ne.symm h.1), ih h.2, List.cons_append]

theorem putAll_of_nodup {known members : List (Text × α)} (h : ((known ++ members).map (·.1)).Nodup) :
    putAll known members = known ++ members := by
  induction members generalizing known with
  | nil => rw [List.append_nil]; rfl
  | cons m rest ih =>
    obtain ⟨k, v⟩ := m
    have hk : k ∉ known.map (·.1) := by
      rw [List.map_append, List.nodup_append] at h
      intro hmem
      exact h.2.2 k hmem k (by simp) rfl
    rw [List.append_cons] at h
    rw [putAll, List.foldl_cons, put_eq_append v hk]
    exact (ih h).trans (List.append_cons known (k, v) rest).symm

end Members

namespace Json

/-! ## Blanks -/

theorem rest_skipBlank (position : Nat) (t : Text) : (skipBlank position t).rest = t.dropWhile isBlank := rfl

theorem dropBlanks_append {blanks t : Text} (hb : ∀ c ∈ blanks, isBlank c = true)
    (ht : ∀ c ∈ t.head?, isBlank c = false) : (blanks ++ t).dropWhile isBlank = t := by
  rw [List.dropWhile_append_of_pos hb]
  cases t with
  | nil => rfl
  | cons c t => rw [List.dropWhile_cons_of_neg (by simp [ht c rfl])]

theorem isBlank_newline {depth : Nat} : ∀ c ∈ newline depth, isBlank c = true := by
  intro c hc
  rcases List.mem_cons.1 hc with rfl | hc
  · decide
  · rw [List.eq_of_mem_replicate hc]
    decide

theorem dropBlanks_newline (depth : Nat) {c : CodePoint} (h : isBlank c = false) (t : Text) :
    (newline depth ++ c :: t).dropWhile isBlank = c :: t :=
  dropBlanks_append isBlank_newline (by simpa using h)

theorem dropBlanks_cons {c : CodePoint} (h : isBlank c = false) (t : Text) : (c :: t).dropWhile isBlank = c :: t :=
  List.dropWhile_cons_of_neg (by simp [h])

/-! ## Values -/

/-- Null, or a text that reads back as it is. -/
inductive IsPlain : Json → Prop
  | null : IsPlain null
  | string {t : Text} (h : t.Unpaired) : IsPlain (string t)

theorem writeString_append (t rest : Text) :
    writeString t ++ rest = .scalar '"' :: (t.flatMap writeChar ++ .scalar '"' :: rest) := by
  have hq : Text.ofString "\"" = [.scalar '"'] := rfl
  simp [writeString, hq]

theorem readValue_write {value : Json} (h : value.IsPlain) (depth bound allowed position : Nat) (rest : Text) :
    ∃ position', readValue (bound + 1) allowed position (write depth value ++ rest) =
      .ok ⟨value, position', rest⟩ := by
  cases h with
  | null =>
    have hw : write depth null ++ rest = .scalar 'n' :: .scalar 'u' :: .scalar 'l' :: .scalar 'l' :: rest := by
      rw [write]
      rfl
    refine ⟨position + 4, ?_⟩
    rw [hw, readValue]
    · rfl
    all_goals simp
  | @string t h =>
    obtain ⟨position', hread⟩ := readString_writeString h position (position + 1) rest
    refine ⟨position', ?_⟩
    rw [write, writeString_append, readValue, hread]
    rfl

/-! ## Members -/

/-- A member as it is written, up to its value's end. -/
def writeMember (depth : Nat) (key : Text) (value : Json) : Text :=
  writeString key ++ ": " ++ write depth value

theorem head?_write {value : Json} (h : value.IsPlain) (depth : Nat) (rest : Text) :
    ∀ c ∈ (write depth value ++ rest).head?, isBlank c = false := by
  intro c hc
  cases h with
  | null =>
    rw [write] at hc
    cases hc
    decide
  | string h =>
    rw [write, writeString_append] at hc
    cases hc
    decide

/-- After a member a brace ends the object, and a comma leads to the next member. -/
theorem readMembers_member {key : Text} {value : Json} (hk : key.Unpaired) (hv : value.IsPlain)
    (depth bound allowed position : Nat) (known : List (Text × Json)) (rest : Text) : ∃ position',
      (∀ u, rest.dropWhile isBlank = .scalar '}' :: u →
        readMembers (bound + 2) allowed known position (writeMember depth key value ++ rest) =
          .ok ⟨Members.put key value known, position', u⟩) ∧
      (∀ u, rest.dropWhile isBlank = .scalar ',' :: u → ∃ position'',
        readMembers (bound + 2) allowed known position (writeMember depth key value ++ rest) =
          readMembers (bound + 1) allowed (Members.put key value known) position'' (u.dropWhile isBlank)) := by
  have hsep : Text.ofString ": " = [.scalar ':', .scalar ' '] := rfl
  obtain ⟨position₁, hkey⟩ := readString_writeString hk position (position + 1)
    (.scalar ':' :: .scalar ' ' :: (write depth value ++ rest))
  have hcolon (t : Text) := dropBlanks_cons (c := .scalar ':') rfl t
  have hspace : (.scalar ' ' :: (write depth value ++ rest) : Text).dropWhile isBlank = write depth value ++ rest :=
    @dropBlanks_append [.scalar ' '] _ (by decide) (head?_write hv depth rest)
  obtain ⟨position₂, hvalue⟩ := readValue_write hv depth bound allowed
    (skipBlank ((skipBlank position₁ (.scalar ':' :: .scalar ' ' :: (write depth value ++ rest))).position + 1)
      (.scalar ' ' :: (write depth value ++ rest))).position rest
  refine ⟨(skipBlank position₂ rest).position + 1, ?_⟩
  simp only [writeMember, hsep, List.append_assoc, List.cons_append, List.nil_append, writeString_append, readMembers,
    hkey, ok_bind, rest_skipBlank, hcolon, hspace, hvalue]
  constructor
  · intro u hu
    simp [hu]
  · intro u hu
    exact ⟨(skipBlank ((skipBlank position₂ rest).position + 1) u).position, by simp [hu]⟩

theorem exists_quote (depth : Nat) (key : Text) (value : Json) (rest : Text) :
    ∃ t, writeMember depth key value ++ rest = .scalar '"' :: t := by
  rw [writeMember, List.append_assoc, List.append_assoc, writeString_append]
  exact ⟨_, rfl⟩

theorem dropBlanks_member (lineDepth depth : Nat) (key : Text) (value : Json) (rest : Text) :
    (newline lineDepth ++ (writeMember depth key value ++ rest)).dropWhile isBlank = writeMember depth key value ++ rest := by
  obtain ⟨t, ht⟩ := exists_quote depth key value rest
  rw [ht, dropBlanks_newline lineDepth rfl]

theorem writeMembers_cons (depth : Nat) (key : Text) (value : Json) (members : List (Text × Json)) (rest : Text) :
    writeMembers depth ((key, value) :: members) ++ rest =
      .scalar ',' :: (newline depth ++ (writeMember depth key value ++ (writeMembers depth members ++ rest))) := by
  rw [writeMembers]
  simp only [writeMember, List.append_assoc]
  rfl

theorem readMembers_write (depth allowed : Nat) (rest : Text) {members : List (Text × Json)} {key : Text} {value : Json}
    (hk : key.Unpaired) (hv : value.IsPlain) (hm : ∀ m ∈ members, m.1.Unpaired ∧ m.2.IsPlain)
    (bound position : Nat) (known : List (Text × Json)) : ∃ position',
      readMembers (bound + members.length + 2) allowed known position
        (writeMember (depth + 1) key value ++ (writeMembers (depth + 1) members ++ (newline depth ++ .scalar '}' :: rest))) =
        .ok ⟨Members.putAll known ((key, value) :: members), position', rest⟩ := by
  induction members generalizing key value position known with
  | nil =>
    obtain ⟨position', hlast, _⟩ := readMembers_member hk hv (depth + 1) bound allowed position known
      (newline depth ++ .scalar '}' :: rest)
    exact ⟨position', hlast rest (dropBlanks_newline depth rfl rest)⟩
  | cons m members ih =>
    obtain ⟨next, nextValue⟩ := m
    obtain ⟨hm₁, hm⟩ := List.forall_mem_cons.1 hm
    rw [writeMembers_cons]
    obtain ⟨_, _, hnext⟩ := readMembers_member hk hv (depth + 1) (bound + members.length + 1) allowed position known _
    obtain ⟨position₁, hread⟩ := hnext _ (dropBlanks_cons rfl _)
    obtain ⟨position', hrest⟩ := ih hm₁.1 hm₁.2 hm position₁ (Members.put key value known)
    refine ⟨position', ?_⟩
    rw [List.length_cons, ← Nat.add_assoc, Nat.add_right_comm _ 1 2, hread,
      dropBlanks_member, hrest]
    rfl

theorem length_le_writeMembers (depth : Nat) (members : List (Text × Json)) :
    members.length ≤ (writeMembers depth members).length := by
  induction members with
  | nil => exact Nat.zero_le _
  | cons m members ih =>
    rw [← List.append_nil (writeMembers depth (m :: members)), writeMembers_cons]
    simp only [List.length_cons, List.length_append]
    omega

theorem write_object_cons (depth : Nat) (key : Text) (value : Json) (members : List (Text × Json)) (rest : Text) :
    write depth (object ((key, value) :: members)) ++ rest =
      .scalar '{' :: (newline (depth + 1) ++ (writeMember (depth + 1) key value ++
        (writeMembers (depth + 1) members ++ (newline depth ++ .scalar '}' :: rest)))) := by
  rw [write]
  simp only [writeMember, List.append_assoc]
  rfl

theorem exists_brace (depth : Nat) (members : List (Text × Json)) (rest : Text) :
    ∃ t, write depth (object members) ++ rest = .scalar '{' :: t := by
  cases members with
  | nil =>
    rw [write]
    exact ⟨_, rfl⟩
  | cons m members =>
    obtain ⟨key, value⟩ := m
    exact ⟨_, write_object_cons depth key value members rest⟩

theorem length_lt_write (depth : Nat) (members : List (Text × Json)) :
    members.length < (write depth (object members)).length := by
  cases members with
  | nil =>
    rw [write]
    decide
  | cons m members =>
    obtain ⟨key, value⟩ := m
    have := length_le_writeMembers (depth + 1) members
    rw [← List.append_nil (write depth _), write_object_cons]
    simp only [List.length_cons, List.length_append]
    omega

section
variable {members : List (Text × Json)} (hm : ∀ m ∈ members, m.1.Unpaired ∧ m.2.IsPlain)
  (distinct : (members.map (·.1)).Nodup)
include hm distinct

theorem readValue_object (depth allowed position : Nat) (rest : Text) {bound : Nat} (hb : members.length + 2 ≤ bound) :
    ∃ position', readValue bound (allowed + 1) position (write depth (object members) ++ rest) =
      .ok ⟨object members, position', rest⟩ := by
  obtain ⟨extra, rfl⟩ := Nat.exists_eq_add_of_le' hb
  cases members with
  | nil =>
    have hw : write depth (object []) ++ rest = .scalar '{' :: .scalar '}' :: rest := by
      rw [write]
      rfl
    refine ⟨position + 2, ?_⟩
    rw [hw, List.length_nil, Nat.zero_add, readValue, if_neg (Nat.succ_ne_zero _)]
    simp only [rest_skipBlank, dropBlanks_cons (rfl : isBlank (.scalar '}') = false)]
    rfl
  | cons m members =>
    obtain ⟨key, value⟩ := m
    obtain ⟨hm₁, hm⟩ := List.forall_mem_cons.1 hm
    rw [write_object_cons, List.length_cons, ← Nat.add_assoc, ← Nat.add_assoc, readValue, if_neg (Nat.succ_ne_zero _)]
    obtain ⟨t, ht⟩ := exists_quote (depth + 1) key value
      (writeMembers (depth + 1) members ++ (newline depth ++ .scalar '}' :: rest))
    obtain ⟨position', hread⟩ := readMembers_write depth allowed rest hm₁.1 hm₁.2 hm extra
      (skipBlank (position + 1) (newline (depth + 1) ++ .scalar '"' :: t)).position []
    refine ⟨position', ?_⟩
    rw [Members.putAll_of_nodup distinct, ht] at hread
    rw [ht]
    simp only [rest_skipBlank, dropBlanks_newline _ (rfl : isBlank (.scalar '"') = false), Nat.add_sub_cancel]
    exact congrArg (mapRead object) hread

/-- An object of plain members with different names is read back as it was, also before blanks. -/
theorem read_text [Host] {blanks : Text} (hb : ∀ c ∈ blanks, isBlank c = true) :
    read (text (object members) ++ blanks) = .ok (object members) := by
  obtain ⟨t, ht⟩ := exists_brace 0 members blanks
  have hbound : members.length + 2 ≤ 2 * (write 0 (object members) ++ blanks).length + 2 := by
    have := length_lt_write 0 members
    rw [List.length_append]
    omega
  obtain ⟨position', hread⟩ := readValue_object hm distinct 0 (Host.readDepth - 1) 0 blanks hbound
  have hlimit : Host.readDepth - 1 + 1 = Host.readDepth := Nat.sub_add_cancel Host.readDepth_pos
  rw [ht, hlimit] at hread
  have hstart : skipBlank 0 (.scalar '{' :: t) = ⟨(), 0, .scalar '{' :: t⟩ := by
    simp [skipBlank, isBlank]
  have hend : blanks.dropWhile isBlank = [] := by
    simpa using dropBlanks_append (t := []) hb nofun
  rw [read, readWithin, text, ht, if_neg (by simp), hstart]
  simp only [hread, ok_bind, rest_skipBlank, hend, if_true]

end

end Json

end Typeahead
