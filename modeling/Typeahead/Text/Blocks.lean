import Typeahead.Text

/-!
# Blocks

A text that was filled up may be far longer than all that tells it from another text. It is given as
blocks here, each a text that is repeated. `length` and `same` measure and compare such texts without
writing them out: `length_toText` and `same_iff` say that they agree with what is written out.
-/

namespace Typeahead

structure Block where
  count : Nat
  text : Text
deriving DecidableEq, Repr

namespace Block

def once (t : Text) : Block := ⟨1, t⟩

def fill (count : Nat) (c : CodePoint) : Block := ⟨count, [c]⟩

end Block

abbrev Blocks := List Block

namespace Blocks

/-! ## The text of blocks -/

def repeatOnto (t rest : Text) : Nat → Text
  | 0 => rest
  | n + 1 => repeatOnto t (t ++ rest) n

def toText (a : Blocks) : Text := a.foldr (fun b rest => repeatOnto b.text rest b.count) []

def length : Blocks → Nat
  | [] => 0
  | b :: a => b.count * b.text.length + length a

theorem append_repeatOnto (t rest : Text) (n : Nat) :
    t ++ repeatOnto t rest n = repeatOnto t (t ++ rest) n := by
  induction n generalizing rest with
  | zero => rfl
  | succ n ih => simp [repeatOnto, ih]

theorem repeatOnto_succ (t rest : Text) (n : Nat) :
    repeatOnto t rest (n + 1) = t ++ repeatOnto t rest n := by
  rw [repeatOnto, append_repeatOnto]

theorem repeatOnto_append (t rest more : Text) (n : Nat) :
    repeatOnto t (rest ++ more) n = repeatOnto t rest n ++ more := by
  induction n with
  | zero => rfl
  | succ n ih => simp [repeatOnto_succ, ih]

theorem repeatOnto_add (t rest : Text) (m n : Nat) :
    repeatOnto t rest (m + n) = repeatOnto t (repeatOnto t rest n) m := by
  induction m with
  | zero => simp [repeatOnto]
  | succ m ih => rw [Nat.succ_add, repeatOnto_succ, ih, repeatOnto_succ]

theorem repeatOnto_inj {t x y : Text} {n : Nat} :
    repeatOnto t x n = repeatOnto t y n ↔ x = y := by
  induction n with
  | zero => rfl
  | succ n ih => simp [repeatOnto_succ, ih]

theorem length_repeatOnto (t rest : Text) (n : Nat) :
    (repeatOnto t rest n).length = n * t.length + rest.length := by
  induction n with
  | zero => simp [repeatOnto]
  | succ n ih => simp [repeatOnto_succ, ih, Nat.succ_mul]; omega

@[simp] theorem toText_nil : toText [] = [] := rfl

theorem toText_cons (b : Block) (a : Blocks) :
    toText (b :: a) = repeatOnto b.text (toText a) b.count := rfl

@[simp] theorem toText_once (t : Text) (a : Blocks) : toText (.once t :: a) = t ++ toText a := rfl

@[simp] theorem toText_fill (n : Nat) (c : CodePoint) (a : Blocks) :
    toText (.fill n c :: a) = List.replicate n c ++ toText a := by
  rw [toText_cons]
  induction n with
  | zero => rfl
  | succ n ih => simp_all [Block.fill, repeatOnto_succ, List.replicate_succ]

@[simp] theorem toText_append (a b : Blocks) : toText (a ++ b) = toText a ++ toText b := by
  induction a with
  | nil => rfl
  | cons c a ih => rw [List.cons_append, toText_cons, ih, repeatOnto_append, toText_cons]

@[simp] theorem length_nil : length [] = 0 := rfl

@[simp] theorem length_cons (b : Block) (a : Blocks) :
    length (b :: a) = b.count * b.text.length + length a := rfl

@[simp] theorem length_append (a b : Blocks) : length (a ++ b) = length a + length b := by
  induction a with
  | nil => simp
  | cons c a ih => simp [ih]; omega

theorem length_toText (a : Blocks) : a.toText.length = a.length := by
  induction a with
  | nil => rfl
  | cons b a ih => rw [toText_cons, length_repeatOnto, ih, length_cons]

/-! ## Comparison -/

/-- What is left to be compared of blocks; a block counts for more than its characters. -/
def weight : Blocks → Nat
  | [] => 0
  | b :: a => b.count * (b.text.length + 1) + 1 + weight a

theorem weight_unrolled (n : Nat) (t : Text) (a : Blocks) :
    t.length + weight (⟨n, t⟩ :: a) < weight (⟨n + 1, t⟩ :: a) := by
  simp only [weight, Nat.succ_mul]; omega

theorem weight_shortened {m n : Nat} (t : Text) (a : Blocks) (h : m ≤ n) :
    weight (⟨m, t⟩ :: a) ≤ weight (⟨n, t⟩ :: a) := by
  have := Nat.mul_le_mul_right (t.length + 1) h
  simp only [weight]; omega

/-- Whether `x` and then `a` is the same text as `y` and then `b`. Where both go on with blocks of one
text, it is left out as often as both have it. -/
def sameFrom : Text → Blocks → Text → Blocks → Bool
  | c :: x, a, d :: y, b => if c = d then sameFrom x a y b else false
  | [], ⟨0, _⟩ :: a, y, b => sameFrom [] a y b
  | x, a, [], ⟨0, _⟩ :: b => sameFrom x a [] b
  | [], ⟨m + 1, t⟩ :: a, [], ⟨n + 1, u⟩ :: b =>
    if t = u then sameFrom [] (⟨m - n, t⟩ :: a) [] (⟨n - m, u⟩ :: b)
    else sameFrom t (⟨m, t⟩ :: a) u (⟨n, u⟩ :: b)
  | [], ⟨m + 1, t⟩ :: a, y, b => sameFrom t (⟨m, t⟩ :: a) y b
  | x, a, [], ⟨n + 1, u⟩ :: b => sameFrom x a u (⟨n, u⟩ :: b)
  | [], [], [], [] => true
  | [], [], _ :: _, _ => false
  | _ :: _, _, [], [] => false
termination_by x a y b => x.length + weight a + (y.length + weight b)
decreasing_by
  · simp only [List.length_cons]; omega
  · simp only [weight]; omega
  · simp only [weight]; omega
  · have := weight_unrolled m t a
    have := weight_unrolled n u b
    have := weight_shortened t a (Nat.sub_le m n)
    have := weight_shortened u b (Nat.sub_le n m)
    simp only [List.length_nil, Nat.succ_eq_add_one]; omega
  · have := weight_unrolled m t a
    have := weight_unrolled n u b
    simp only [List.length_nil, Nat.succ_eq_add_one]; omega
  · have := weight_unrolled m t a
    simp only [List.length_nil, Nat.succ_eq_add_one]; omega
  · have := weight_unrolled n u b
    simp only [List.length_nil, Nat.succ_eq_add_one]; omega

theorem toText_unrolled (n : Nat) (t : Text) (a : Blocks) :
    toText (⟨n + 1, t⟩ :: a) = t ++ toText (⟨n, t⟩ :: a) := by
  simp only [toText_cons, repeatOnto_succ]

theorem toText_shortened_eq_iff (m n : Nat) (t : Text) (a b : Blocks) :
    toText (⟨m - n, t⟩ :: a) = toText (⟨n - m, t⟩ :: b) ↔
      toText (⟨m, t⟩ :: a) = toText (⟨n, t⟩ :: b) := by
  rcases Nat.le_total m n with h | h <;> obtain ⟨k, rfl⟩ := Nat.exists_eq_add_of_le h <;>
    simp [toText_cons, repeatOnto_add, repeatOnto_inj, repeatOnto]

theorem sameFrom_iff (x : Text) (a : Blocks) (y : Text) (b : Blocks) :
    sameFrom x a y b = true ↔ x ++ a.toText = y ++ b.toText := by
  fun_induction sameFrom x a y b with
  | case1 x a d y b ih => simp [ih]
  | case2 c x a d y b h => simp [h]
  | case3 t a y b ih => rw [ih]; rfl
  | case4 x a t b _ ih => rw [ih]; rfl
  | case5 m a n u b ih =>
    rw [ih, List.nil_append, List.nil_append, toText_shortened_eq_iff, Nat.succ_eq_add_one,
      Nat.succ_eq_add_one, toText_unrolled, toText_unrolled]
    simp
  | case6 m t a n u b _ ih => simp only [ih, toText_unrolled, List.nil_append]
  | case7 m t a y b _ _ ih => simp only [ih, toText_unrolled, List.nil_append]
  | case8 x a n u b _ _ ih => simp only [ih, toText_unrolled, List.nil_append]
  | case9 => simp
  | case10 d y b => simp
  | case11 c x a => simp

def same (a b : Blocks) : Bool := sameFrom [] a [] b

theorem same_iff {a b : Blocks} : same a b = true ↔ a.toText = b.toText := by
  simp [same, sameFrom_iff]

end Blocks

end Typeahead
