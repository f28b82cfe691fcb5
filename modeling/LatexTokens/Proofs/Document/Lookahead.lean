import LatexTokens.Proofs.Document.Nesting
import LatexTokens.Proofs.Lexing.Following

/-!
# One character of lookahead

Outside math, at any depth, the token at an offset is the same in all texts that have its literal
there and the same character behind it, or none.
-/

set_option autoImplicit false

namespace LatexTokens

/-- Reads the token at the last character boundary up to an offset of a region, which is so many
regions deep, or nothing at its end. In math the brackets in front of the token count. -/
def readAt? (depth : Nat) (math : Bool) (s : Text) (p : Nat) : Except Fault (Option Token) :=
  match s.after p with
  | [] => .ok none
  | c :: t =>
    match Lexing.read (lexAt (depth + 1)) math (Lexing.openBrackets 0 (s.before p)) c t with
    | .error f => .error (f.shift (s.floor p))
    | .ok token => .ok (some token)

/-- The tokens of a document are read outside all regions. -/
theorem tokenAt?_eq_readAt? (s : Text) (p : Nat) : tokenAt? s p = readAt? 0 false s p := by
  have hnested : lexAt 1 = lexRegion maxNesting := rfl
  rw [tokenAt?, readAt?, hnested]
  cases s.after p with
  | nil => rfl
  | cons c t =>
    simp only [readToken?, Lexing.read_false (Lexing.openBrackets 0 (s.before p))]
    cases Lexing.read (lexRegion maxNesting) false 0 c t <;> rfl

theorem readAt?_eq_some_iff {depth : Nat} {math : Bool} {s : Text} {p : Nat} {token : Token} :
    readAt? depth math s p = .ok (some token) ↔ ∃ rest, s.after p = token.literal ++ rest ∧
      Lexing.Stands (lexAt (depth + 1)) math rest.head? (Lexing.openBrackets 0 (s.before p))
        token := by
  unfold readAt?
  cases hs : s.after p with
  | nil =>
    refine iff_of_false (by simp) ?_
    rintro ⟨rest, hnil, h⟩
    exact h.literal_ne_nil (List.append_eq_nil_iff.mp hnil.symm).1
  | cons c t =>
    rw [← Lexing.read_eq_ok_iff]
    simp only
    split
    · next hread =>
      rw [hread]
      simp
    · next hread =>
      rw [hread]
      simp

/-- The token at an offset outside math is read in every text that has its literal and the same
character behind it, or nothing behind it. -/
theorem readAt?_of_lookahead {depth : Nat} {s s' : Text} {p p' : Nat} {token : Token} {rest : Text}
    (hp : s.IsBoundary p) (h : readAt? depth false s p = .ok (some token))
    (hs' : s'.after p' = token.literal ++ rest)
    (hrest : rest = [] ∨ rest.head? = (s.after (p + token.size)).head?) :
    s.after p = token.literal ++ s.after (p + token.size) ∧
      readAt? depth false s' p' = .ok (some token) := by
  obtain ⟨behind, hs, hstands⟩ := readAt?_eq_some_iff.mp h
  have hbehind : s.after (p + token.size) = behind := by
    have hsplit : s.before p ++ token.literal ++ behind = s := by
      rw [List.append_assoc, ← hs, Text.before_append_after]
    have hsize : (s.before p ++ token.literal).size = p + token.size := by
      rw [Text.size_append, hp.size_before, Token.size]
    have hafter := Text.after_size_append (s.before p ++ token.literal) behind
    rwa [hsplit, hsize] at hafter
  rw [hbehind] at hrest ⊢
  refine ⟨hs, readAt?_eq_some_iff.mpr ⟨rest, hs', ?_⟩⟩
  rcases hrest with rfl | hhead
  · exact hstands.last.of_false
  · rw [hhead]
    exact hstands.of_false

/-- A starred command with a required argument, in front of a letter and at the end of a text. -/
theorem readAt?_of_lookahead_starred :
    let literal : Text := ['\\', 'x', '*', '{', 'b', '}']
    let token : Token := .command ['x', '*'] [.required [.ofText ['b']] ['{', 'b', '}']] literal
    let s : Text := 'é' :: (literal ++ ['c', '}'])
    readAt? 127 false s 2 = .ok (some token) ∧
      readAt? 127 false (['{', '%'] ++ (literal ++ ['c', '['])) 2 = .ok (some token) ∧
      readAt? 127 false (['#'] ++ literal) 1 = .ok (some token) := by
  intro literal token s
  have h : readAt? 127 false s 2 = .ok (some token) := by
    simp only [s, token, literal]
    cbv
  have hp : s.IsBoundary 2 := by decide
  have hbefore : Text.after 2 (['{', '%'] ++ (literal ++ ['c', '['])) = literal ++ ['c', '['] := rfl
  have hlast : Text.after 1 (['#'] ++ literal) = literal ++ [] := rfl
  refine ⟨h, ?_, ?_⟩
  · exact (readAt?_of_lookahead hp h hbefore (.inr rfl)).2
  · exact (readAt?_of_lookahead hp h hlast (.inl rfl)).2

end LatexTokens
