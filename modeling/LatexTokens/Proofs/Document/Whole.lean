import LatexTokens.Proofs.Document.Tiling

/-!
# Reading a document is reading its text as one region

Outside math no token depends on the brackets before it, so reading token by token from the start
of a document gives what `tokenize` gives, with its faults placed where they are.
-/

set_option autoImplicit false

namespace LatexTokens

namespace Lexing
variable {nested : RegionLexer}

theorem read_false (opened : Nat) (c : Char) (t : Text) :
    read nested false opened c t = read nested false 0 c t := by
  unfold read
  rfl

theorem tokens_false (opened : Nat) (t : Text) :
    tokens nested false opened t = tokens nested false 0 t := by
  cases t with
  | nil => rw [tokens, tokens]
  | cons c t =>
    rw [tokens, tokens, read_false]
    split
    · rfl
    · next token _ =>
      rw [tokens_false (openBrackets opened token.literal),
        tokens_false (openBrackets 0 token.literal)]
termination_by t.length
decreasing_by all_goals simp only [List.length_drop, List.length_cons]; omega

end Lexing

/-- A result behind a text, given the tokens of that text. -/
def Document.behind (u : Text) (ts : List Token) :
    Except Fault (List Token) → Except Fault (List Token)
  | .error f => .error (f.shift u.size)
  | .ok us => .ok (ts ++ us)

theorem tokenize_append_of_token {t : Token} {v : Text}
    (h : readToken? (t.literal ++ v) = .ok (some t)) :
    tokenize (t.literal ++ v) = Document.behind t.literal [t] (tokenize v) := by
  have hne : t.literal ≠ [] := by
    obtain ⟨rest, _, hs⟩ := readToken?_eq_some_iff.mp h
    exact hs.literal_ne_nil
  obtain ⟨c, l, hl⟩ := List.exists_cons_of_ne_nil hne
  rw [hl, List.cons_append, readToken?] at h
  obtain ⟨t', hread, ht'⟩ := Lexing.eq_ok_of_map_eq_ok h
  cases ht'
  change Lexing.tokens (lexRegion maxNesting) false 0 (t.literal ++ v) =
    Document.behind t.literal [t] (Lexing.tokens (lexRegion maxNesting) false 0 v)
  rw [hl, List.cons_append, Lexing.tokens, hread]
  simp only [hl, List.tail_cons, List.drop_left]
  rw [Lexing.tokens_false]
  cases Lexing.tokens (lexRegion maxNesting) false 0 v with
  | error f =>
    rw [Token.size, hl]
    rfl
  | ok ts => rfl

namespace Drained
variable {κ : Type} {r : Drained κ}

theorem result_eq_ok_iff {ts : List Token} :
    r.result = .ok ts ↔ r.fault = none ∧ r.tokens = ts := by
  unfold result
  cases r.fault <;> simp

theorem result_eq_error_iff {f : Fault} : r.result = .error f ↔ r.fault = some f := by
  unfold result
  cases r.fault <;> simp

end Drained

namespace Document

theorem behind_nil_left (r : Except Fault (List Token)) : behind [] [] r = r := by
  cases r with
  | error f => exact congrArg Except.error f.shift_zero
  | ok ts => rfl

theorem behind_append (u : Text) (t : Token) (r : Except Fault (List Token)) :
    (behind (u ++ t.literal) [] r).map (t :: ·) = behind u [] (behind t.literal [t] r) := by
  cases r with
  | error f =>
    simp only [behind, Fault.shift_shift, Text.size_append, Nat.add_comm]
    rfl
  | ok ts => rfl

theorem result_drainTo_cutAt (u v : Text) :
    ((cutAt u v).drainTo (u ++ v).size).result = behind u [] (tokenize v) := by
  induction u, v using drain_induction with
  | stop u =>
    rw [tokenize, lexRegion, Lexing.tokens]
    rfl
  | fault u v f h =>
    rw [tokenAt?_size_append] at h
    cases v with
    | nil => cases h
    | cons c t =>
      cases hread : Lexing.read (lexRegion maxNesting) false 0 c t with
      | error g =>
        rw [readToken?, hread] at h
        cases h
        rw [tokenize, lexRegion, Lexing.tokens, hread]
        rfl
      | ok token =>
        rw [readToken?, hread] at h
        cases h
  | token u v t r hlexes ih =>
    have hread := tokenAt?_eq_some_iff.mp hlexes.lexed
    have hresult : Drained.result { r with tokens := t :: r.tokens } =
        r.result.map (t :: ·) := by
      unfold Drained.result
      cases r.fault <;> rfl
    rw [hresult, ih, tokenize_append_of_token hread, behind_append]

/-- Reading what is left of a text, if there is no fault in it. -/
theorem drain_cutAt_of_ok {u v : Text} {ts : List Token} (h : tokenize v = .ok ts) :
    (cutAt u v).drain.result = .ok ts ∧ (cutAt u v).drain.document = cutAt (u ++ v) [] := by
  have hresult : (cutAt u v).drain.result = behind u [] (tokenize v) := result_drainTo_cutAt u v
  obtain ⟨rest, htext, hdocument, hended, -⟩ := Drained.exists_leavesOff u v
  rw [h] at hresult
  have hrest := hended.mp (Drained.result_eq_ok_iff.mp hresult).1
  rw [hrest, List.append_nil] at htext
  rw [hrest, ← htext] at hdocument
  exact ⟨hresult, hdocument⟩

/-- Reading what is left of a text, if there is a fault in it. -/
theorem drain_cutAt_of_error {u v : Text} {f : Fault} (h : tokenize v = .error f) :
    let r := (cutAt u v).drain
    r.result = .error (f.shift u.size) ∧ r.document.buffer = u ++ v ∧
      r.document.next = (.error (f.shift u.size), r.document) := by
  intro r
  have hresult : r.result = behind u [] (tokenize v) := result_drainTo_cutAt u v
  obtain ⟨rest, htext, hdocument, -, hfailed⟩ := Drained.exists_leavesOff u v
  change v = r.literals ++ rest at htext
  change r.document = cutAt (u ++ r.literals) rest at hdocument
  rw [h] at hresult
  have hnext := hfailed _ (Drained.result_eq_error_iff.mp hresult)
  change tokenAt? (u ++ v) (u ++ r.literals).size = _ at hnext
  refine ⟨hresult, ?_, ?_⟩
  · rw [hdocument, htext, cutAt, List.append_assoc]
  · rw [htext, ← List.append_assoc] at hnext
    rw [hdocument, next_cutAt_of_error hnext]

/-- What reading a document from its start to its end gives. -/
theorem fst_readToEnd (d : Document Uncached) : d.readToEnd.1 = tokenize d.buffer := by
  rw [readToEnd, drain, seek_zero]
  have h := result_drainTo_cutAt [] d.buffer
  rwa [behind_nil_left] at h

end Document

end LatexTokens
