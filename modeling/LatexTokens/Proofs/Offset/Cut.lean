import LatexTokens.Proofs.Balance.Finding

/-!
# Offsets that can leave their range

A reader that works with offsets into one buffer has 64-bit words for them and cuts the buffer
where they say. A sum that does not fit a word, a difference below zero and a cut outside the
buffer or inside a character give nothing; a fault is given only if the places it speaks of fit
words. In a buffer that is shorter than a word can count, every cut between two of its parts
succeeds (`Checked.slice_append`), and so does every fault placed in it
(`Checked.fail_of_isPlacedIn`).
-/

set_option autoImplicit false

namespace LatexTokens

/-- The size from which on a text is too large for a buffer: half of what a word can count. -/
def bufferLimit : Nat := 0x8000000000000000

/-- What a reader by offsets gives: a result or a fault, and nothing where an offset leaves its
range. -/
abbrev Checked (α : Type) := ExceptT Fault Option α

namespace Checked

/-- The sum of two words. -/
def sum (m n : Nat) : Option Nat := if m + n < wordSize then some (m + n) else none

def difference (m n : Nat) : Option Nat := if n ≤ m then some (m - n) else none

/-- The part of a buffer between two offsets. -/
def slice (s : Text) (start stop : Nat) : Option Text :=
  if start ≤ stop ∧ s.IsBoundary start ∧ s.IsBoundary stop then
    some (Span.textIn ⟨start, stop⟩ s)
  else none

def sliceFrom (s : Text) (start : Nat) : Option Text := slice s start s.size

/-- The character at an offset, or nothing there at the end of the buffer. -/
def charAt (s : Text) (p : Nat) : Option (Option Char) := (sliceFrom s p).map List.head?

/-- The buffer with another text in place of the part between two offsets. -/
def splice (s : Text) (start stop : Nat) (new : Text) : Option Text :=
  if start ≤ stop ∧ s.IsBoundary start ∧ s.IsBoundary stop ∧
      (s.before start ++ new ++ s.after stop).size < bufferLimit then
    some (s.before start ++ new ++ s.after stop)
  else none

/-- The offset of the first character of a class. -/
def indexOf (p : Char → Bool) (t : Text) : Option Nat :=
  if t.any p then some (Text.size (t.takeWhile (!p ·))) else none

end Checked

/-- Whether the places that a fault speaks of fit words. -/
def Fault.FitsWords (f : Fault) : Prop :=
  ∀ l ∈ f.labels, l.span.start < wordSize ∧ l.span.stop < wordSize

instance (f : Fault) : Decidable f.FitsWords := inferInstanceAs (Decidable (∀ l ∈ f.labels, _))

namespace Checked
variable {α β : Type}

def fail (f : Fault) : Checked α := if f.FitsWords then throw f else ExceptT.mk none

/-- A result of reading a part of a buffer as seen from the buffer, in which the part starts at
an offset. -/
def rebase (n : Nat) (r : Checked α) : Checked α :=
  match r.run with
  | some (.error f) => fail (f.shift n)
  | r => ExceptT.mk r

/-- A result that no offset out of range can spoil, as seen from an offset. -/
def placed (p : Nat) (r : Except Fault α) : Checked α :=
  ExceptT.mk (some (r.mapError (Fault.shift p)))

/-! ## Running a reader -/

@[simp] theorem liftM_some_bind (a : α) (k : α → Checked β) :
    ((liftM (some a) : Checked α) >>= k) = k a := rfl

@[simp] theorem placed_error (p : Nat) (f : Fault) :
    (placed p (.error f) : Checked α) = throw (f.shift p) := rfl

@[simp] theorem placed_ok (p : Nat) (a : α) : placed p (.ok a) = (pure a : Checked α) := rfl

@[simp] theorem throw_bind (f : Fault) (k : α → Checked β) :
    ((throw f : Checked α) >>= k) = throw f := rfl

@[simp] theorem bind_of_pure (a : α) (k : α → Checked β) : ((pure a : Checked α) >>= k) = k a := rfl

/-! ## Cuts, sums and faults in range -/

theorem sum_eq {m n : Nat} (h : m + n < wordSize) : sum m n = some (m + n) := if_pos h

theorem sum_size {u x v : Text} (hs : (u ++ (x ++ v)).size < wordSize) :
    sum u.size x.size = some (u ++ x).size := by
  rw [← List.append_assoc, Text.size_append] at hs
  rw [Text.size_append] at hs ⊢
  exact sum_eq (by omega)

theorem difference_eq {m n : Nat} (h : n ≤ m) : difference m n = some (m - n) := if_pos h

theorem slice_append (u x v : Text) :
    slice (u ++ (x ++ v)) u.size (u.size + x.size) = some x := by
  have hstop : (u ++ (x ++ v)).IsBoundary (u.size + x.size) := by
    rw [← List.append_assoc, ← Text.size_append]
    exact Text.isBoundary_size_append _ v
  rw [slice, if_pos ⟨Nat.le_add_right _ _, Text.isBoundary_size_append _ _, hstop,⟩,
    Span.textIn_append]

/-- No cut falls inside a character. -/
example : slice ['a', 'é', 'b'] 1 3 = some ['é'] ∧ slice ['a', 'é', 'b'] 1 2 = none := by decide

theorem slice_eq {s u x v : Text} {p q : Nat} (hs : s = u ++ (x ++ v)) (hp : p = u.size)
    (hq : q = u.size + x.size) : slice s p q = some x := by
  rw [hs, hp, hq, slice_append]

theorem sliceFrom_append (u v : Text) : sliceFrom (u ++ v) u.size = some v :=
  slice_eq (by rw [List.append_nil]) rfl (Text.size_append u v)

theorem charAt_append (u v : Text) : charAt (u ++ v) u.size = some v.head? := by
  rw [charAt, sliceFrom_append]
  rfl

theorem fail_of_isPlacedIn {s : Text} {f : Fault} (h : f.IsPlacedIn s) (hs : s.size < wordSize) :
    (fail f : Checked α) = throw f := by
  have hf := h.pointsInto (Nat.zero_le _) fun _ _ _ _ => Nat.zero_le _
  have hfits : f.FitsWords := by
    intro l hl
    obtain ⟨_, hle, hstop⟩ := hf.labels l hl
    omega
  rw [fail, if_pos hfits]

/-- A fault that a region has, or that finds it nested too deep, is seen from the buffer. -/
theorem rebase_of_placesFaults {nested : RegionLexer} (hn : Lexing.PlacesFaults nested)
    {u inner v : Text} (hs : (u ++ (inner ++ v)).size < wordSize) (math : Bool) :
    rebase u.size (ExceptT.mk (some (nested math inner))) = placed u.size (nested math inner) := by
  cases hr : nested math inner with
  | ok ts => rfl
  | error f =>
    rw [placed_error]
    change fail (f.shift u.size) = _
    rcases hn _ _ _ hr with rfl | hp
    · apply if_pos
      intro l hl
      cases List.mem_singleton.mp hl
      rw [Text.size_append, Text.size_append] at hs
      simp only [Fault.shift, Span.shift]
      omega
    · exact fail_of_isPlacedIn ((hp.append v).shift u) hs

end Checked

end LatexTokens
