/-!
# Text measured in UTF-8 bytes

A text is a list of characters. Offsets into a text count the bytes of its UTF-8 form, and
every cut falls between two characters: `before p` and `after p` cut at the last character
boundary that is at most `p`, so an offset inside a character, or past the end, still names a
boundary. `before_append_after` says that a cut loses nothing, and `size_append` that offsets
of adjacent texts add up.
-/

set_option autoImplicit false

namespace LatexTokens

/-- A text, as the sequence of its characters. -/
abbrev Text := List Char

namespace Text

/-- Length of the UTF-8 form, in bytes. -/
def size : Text → Nat
  | [] => 0
  | c :: t => c.utf8Size + size t

@[simp] theorem size_nil : size [] = 0 := rfl

@[simp] theorem size_cons (c : Char) (t : Text) : size (c :: t) = c.utf8Size + size t := rfl

@[simp] theorem size_append (s t : Text) : size (s ++ t) = size s + size t := by
  induction s with
  | nil => simp
  | cons c s ih => simp [ih, Nat.add_assoc]

theorem length_le_size (t : Text) : t.length ≤ size t := by
  induction t with
  | nil => simp
  | cons c t ih =>
    have h := c.utf8Size_pos
    simp only [List.length_cons, size_cons]
    omega

@[simp] theorem size_eq_zero {t : Text} : size t = 0 ↔ t = [] := by
  cases t with
  | nil => simp
  | cons c t =>
    have h := c.utf8Size_pos
    simp only [size_cons, reduceCtorEq, iff_false]
    omega

/-- The whole characters that fit into the first `p` bytes. -/
def before : Nat → Text → Text
  | _, [] => []
  | p, c :: t => if c.utf8Size ≤ p then c :: before (p - c.utf8Size) t else []

/-- What follows the whole characters that fit into the first `p` bytes. -/
def after : Nat → Text → Text
  | _, [] => []
  | p, c :: t => if c.utf8Size ≤ p then after (p - c.utf8Size) t else c :: t

@[simp] theorem before_append_after (p : Nat) (t : Text) : before p t ++ after p t = t := by
  induction t generalizing p with
  | nil => rfl
  | cons c t ih => by_cases h : c.utf8Size ≤ p <;> simp [before, after, h, ih]

/-- The last character boundary that is at most `p`. -/
def floor : Nat → Text → Nat
  | _, [] => 0
  | p, c :: t => if c.utf8Size ≤ p then c.utf8Size + floor (p - c.utf8Size) t else 0

@[simp] theorem size_before (p : Nat) (t : Text) : size (before p t) = floor p t := by
  induction t generalizing p with
  | nil => rfl
  | cons c t ih => by_cases h : c.utf8Size ≤ p <;> simp [before, floor, h, ih]

theorem floor_le (p : Nat) (t : Text) : floor p t ≤ p := by
  induction t generalizing p with
  | nil => exact Nat.zero_le p
  | cons c t ih =>
    have := ih (p - c.utf8Size)
    rw [floor]
    split <;> omega

theorem floor_add_size_after (p : Nat) (t : Text) : floor p t + size (after p t) = size t := by
  rw [← size_before, ← size_append, before_append_after]

theorem floor_le_size (p : Nat) (t : Text) : floor p t ≤ size t := by
  have := floor_add_size_after p t
  omega

@[simp] theorem before_size_append (s t : Text) : before (size s) (s ++ t) = s := by
  induction s with
  | nil =>
    cases t with
    | nil => rfl
    | cons c t =>
      have h := c.utf8Size_pos
      simp only [size_nil, List.nil_append, before, ite_eq_right_iff, reduceCtorEq]
      omega
  | cons c s ih => simp [before, ih]

@[simp] theorem after_size_append (s t : Text) : after (size s) (s ++ t) = t := by
  have h := before_append_after (size s) (s ++ t)
  rwa [before_size_append, List.append_cancel_left_eq] at h

/-- Size of the first character, or zero where there is none. -/
def headSize : Text → Nat
  | [] => 0
  | c :: _ => c.utf8Size

end Text

end LatexTokens
