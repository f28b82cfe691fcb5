import LatexTokens.Proofs.Lexing.Reading
import LatexTokens.Proofs.Text.Boundary

/-!
# The token at an offset under edits

Which token stands at an offset depends on its own literal and one character more. So an edit of
the text keeps each token that ends before the character in front of the edit, and each token
behind the edit, which moves with the text.
-/

set_option autoImplicit false

namespace LatexTokens

/-- Whether a token is what is read at an offset of a text, which is a character boundary. -/
structure LexesAt (t : Text) (p : Nat) (token : Token) : Prop where
  boundary : t.IsBoundary p
  lexed : tokenAt? t p = .ok (some token)

theorem tokenAt?_size_append (u v : Text) :
    tokenAt? (u ++ v) u.size =
      match readToken? v with
      | .error f => .error (f.shift u.size)
      | .ok r => .ok r := by
  cases hr : readToken? v with
  | error f => simp only [tokenAt?, Text.after_size_append, Text.floor_size_append, hr]
  | ok r => simp only [tokenAt?, Text.after_size_append, hr]

theorem tokenAt?_floor (t : Text) (p : Nat) : tokenAt? t (t.floor p) = tokenAt? t p := by
  simp only [tokenAt?, Text.floor_floor, Text.after_floor]

theorem tokenAt?_eq_some_iff {u v : Text} {token : Token} :
    tokenAt? (u ++ v) u.size = .ok (some token) ↔ readToken? v = .ok (some token) := by
  rw [tokenAt?_size_append]
  cases readToken? v with
  | error f => simp
  | ok r => simp

theorem lexesAt_iff {t : Text} {p : Nat} {token : Token} :
    LexesAt t p token ↔ ∃ u rest, t = u ++ (token.literal ++ rest) ∧ u.size = p ∧
      Lexing.Stands (lexRegion maxNesting) false rest.head? 0 token := by
  constructor
  · intro h₀
    obtain ⟨hb, hl⟩ := h₀
    obtain ⟨u, v, rfl, rfl⟩ := Text.isBoundary_iff.mp hb
    obtain ⟨rest, rfl, h⟩ := readToken?_eq_some_iff.mp (tokenAt?_eq_some_iff.mp hl)
    exact ⟨u, rest, rfl, rfl, h⟩
  · intro h₀
    obtain ⟨u, rest, rfl, rfl, h⟩ := h₀
    refine ⟨Text.isBoundary_size_append _ _, tokenAt?_eq_some_iff.mpr ?_⟩
    exact readToken?_eq_some_iff.mpr ⟨rest, rfl, h⟩

theorem LexesAt.add_size_le {t : Text} {p : Nat} {token : Token} (h : LexesAt t p token) :
    p + token.size ≤ t.size := by
  obtain ⟨u, rest, rfl, rfl, _⟩ := lexesAt_iff.mp h
  simp only [Token.size, Text.size_append]
  omega

theorem LexesAt.size_pos {t : Text} {p : Nat} {token : Token} (h : LexesAt t p token) :
    0 < token.size := by
  obtain ⟨u, rest, rfl, rfl, hs⟩ := lexesAt_iff.mp h
  exact Text.size_pos_of_ne_nil hs.literal_ne_nil

/-- A token that ends before the last character in front of a cut is read there whatever follows
the cut. -/
theorem LexesAt.before_cut {t : Text} {p q : Nat} {token : Token} (h : LexesAt t q token)
    (hp : t.IsBoundary p) (hq : q + token.size < p) (v : Text) :
    LexesAt (t.before p ++ v) q token := by
  obtain ⟨x, rest, ht, rfl, hs⟩ := lexesAt_iff.mp h
  have hcut : t.before p ++ t.after p = x ++ token.literal ++ rest := by
    rw [Text.before_append_after, ht, List.append_assoc]
  have hlt : (x ++ token.literal).size < (t.before p).size := by
    rw [hp.size_before, Text.size_append]
    exact hq
  obtain ⟨c, z, hbefore, rfl⟩ := Text.exists_append_cons_of_size_lt hcut hlt
  refine lexesAt_iff.mpr ⟨x, c :: (z ++ v), ?_, rfl, hs⟩
  rw [hbefore]
  simp only [List.append_assoc, List.cons_append]

/-- A token behind a cut is read there whatever precedes the cut. -/
theorem LexesAt.after_cut {t : Text} {p q : Nat} {token : Token} (h : LexesAt t q token)
    (hp : t.IsBoundary p) (hq : p ≤ q) (u : Text) :
    LexesAt (u ++ t.after p) (q - p + u.size) token := by
  obtain ⟨x, rest, ht, rfl, hs⟩ := lexesAt_iff.mp h
  have hcut : x ++ (token.literal ++ rest) = t.before p ++ t.after p := by
    rw [Text.before_append_after, ht]
  have hle : (t.before p).size ≤ x.size := by
    rw [hp.size_before]
    exact hq
  obtain ⟨z, hx, hafter⟩ := Text.exists_append_of_size_le hcut hle
  refine lexesAt_iff.mpr ⟨u ++ z, rest, ?_, ?_, hs⟩
  · rw [hafter, List.append_assoc]
  · have hsize := congrArg Text.size hx
    rw [Text.size_append, hp.size_before] at hsize
    rw [Text.size_append]
    omega

end LatexTokens
