import LatexTokens.Text.Basic

/-!
# Blank characters

The characters with the Unicode property White_Space, and the removal of blank margins.
-/

set_option autoImplicit false

namespace LatexTokens

/-- The Unicode property White_Space, which has 25 members. -/
def isBlank (c : Char) : Bool :=
  let n := c.toNat
  (0x9 ≤ n && n ≤ 0xd) || n = 0x20 || n = 0x85 || n = 0xa0 || n = 0x1680 ||
    (0x2000 ≤ n && n ≤ 0x200a) || n = 0x2028 || n = 0x2029 || n = 0x202f || n = 0x205f ||
    n = 0x3000

namespace Text

def trimStart (t : Text) : Text := t.dropWhile isBlank

def trimEnd (t : Text) : Text := (trimStart t.reverse).reverse

def trim (t : Text) : Text := trimEnd (trimStart t)

@[simp] theorem trimStart_nil : trimStart [] = [] := rfl

theorem trimStart_eq_nil {t : Text} : trimStart t = [] ↔ ∀ c ∈ t, isBlank c := by
  induction t with
  | nil => simp
  | cons c t ih =>
    rw [trimStart] at ih ⊢
    by_cases h : isBlank c <;> simp [h, ih]

theorem trimEnd_eq_nil {t : Text} : trimEnd t = [] ↔ ∀ c ∈ t, isBlank c := by
  simp [trimEnd, trimStart_eq_nil]

end Text

end LatexTokens
