import LatexTokens.Proofs.Cache.Moving
import LatexTokens.Proofs.Document.Typing

/-!
# Typing where tokens start

The boundaries of a document that can be read are where its tokens start, and from each of them the
text can be read. So a word can be typed at every boundary and taken back, any number of times. Each
time the tokens from the boundary on are read, with the word in the first of them or in front of it
(`Document.typeWords_at_boundaries`).
-/

set_option autoImplicit false

namespace LatexTokens

namespace Document
open TokenTable (extent)

@[simp] theorem length_starts (p : Nat) (ts : List Token) : (starts p ts).length = ts.length := by
  induction ts generalizing p with
  | nil => rfl
  | cons t ts ih => rw [starts, List.length_cons, ih, List.length_cons]

theorem le_of_mem_starts {p q : Nat} {ts : List Token} (h : q ∈ starts p ts) : p ≤ q := by
  induction ts generalizing p with
  | nil => cases h
  | cons t ts ih =>
    rcases List.mem_cons.mp h with rfl | h
    · exact Nat.le_refl q
    · exact Nat.le_of_add_right_le (ih h)

theorem pairwise_starts {ts : List Token} (h : ∀ t ∈ ts, 0 < t.size) (p : Nat) :
    (starts p ts).Pairwise (· < ·) := by
  induction ts generalizing p with
  | nil => exact .nil
  | cons t ts ih =>
    obtain ⟨ht, hts⟩ := List.forall_mem_cons.mp h
    refine List.pairwise_cons.mpr ⟨fun q hq => ?_, ih hts _⟩
    have hle := le_of_mem_starts hq
    omega

theorem getElem?_starts {p i : Nat} {ts : List Token} (h : i < ts.length) :
    (starts p ts)[i]? = some (p + extent (ts.take i)) := by
  induction ts generalizing p i with
  | nil => cases h
  | cons t ts ih =>
    cases i with
    | zero => rfl
    | succ i =>
      rw [starts, List.getElem?_cons_succ, ih (Nat.lt_of_succ_lt_succ h), List.take_succ_cons,
        TokenTable.extent_cons, Nat.add_assoc]

/-! ## What is read from a boundary -/

section
variable {s : Text} {ts us : List Token}

theorem readsFrom_of_tokenize (h : tokenize s = .ok (ts ++ us)) : ReadsFrom s (extent ts) us := by
  obtain ⟨rfl, hrow⟩ := Lexing.tokens_eq_ok_iff.mp h
  rw [List.flatMap_append]
  refine ⟨Text.isBoundary_size_append _ _, ?_⟩
  rw [extent, Text.after_size_append]
  exact Lexing.tokens_eq_ok_iff.mpr ⟨rfl, hrow.of_append⟩

theorem readsFrom_of_picks (h : tokenize s = .ok ts) {picks offsets : List Nat}
    (hpicks : List.Forall₂ (fun i p => (starts 0 ts)[i]? = some p) picks offsets) :
    List.Forall₂ (ReadsFrom s) offsets (picks.map ts.drop) := by
  refine List.forall₂_map_right_iff.mpr (hpicks.flip.imp fun p i hi => ?_)
  change (starts 0 ts)[i]? = some p at hi
  have hlt : i < ts.length := by
    rw [← length_starts 0 ts]
    exact (List.getElem?_eq_some_iff.mp hi).1
  rw [getElem?_starts hlt, Nat.zero_add] at hi
  rw [← Option.some.inj hi]
  exact readsFrom_of_tokenize (by rwa [List.take_append_drop])

theorem forall₂_lexesAt_starts (h : tokenize s = .ok (ts ++ us)) :
    List.Forall₂ (LexesAt s) (starts (extent ts) us) us := by
  induction us generalizing ts with
  | nil => exact .nil
  | cons u us ih =>
    have hbehind : extent ts + u.size = extent (ts ++ [u]) := by
      rw [extent, extent, List.flatMap_append, Text.size_append, List.flatMap_singleton]
      rfl
    refine .cons ?_ ?_
    · obtain ⟨rfl, hrow⟩ := Lexing.tokens_eq_ok_iff.mp h
      refine lexesAt_iff.mpr ⟨ts.flatMap Token.literal, us.flatMap Token.literal, ?_, rfl,
        hrow.of_append.1⟩
      rw [List.flatMap_append, List.flatMap_cons]
    · rw [hbehind]
      exact ih (by rwa [List.append_assoc])

end

variable {κ : Type} [TokenCache κ] [LawfulTokenCache κ]

theorem Faithful.fst_boundaries {d : Document κ} (h : d.Faithful) :
    d.boundaries.1 = (tokenize d.buffer).map (starts 0) :=
  congrArg (Except.map (starts 0)) h.fst_readToEnd

/-- The boundaries of a text that can be read are where its tokens start, and typing the word at any
of them, one after the other, reads all tokens from there on and leaves the text as it was. The word
joins the token at the boundary if that is text and does not start with a bracket. The text with the
word must fit into memory, which holds less than `bufferLimit`. -/
theorem typeWords_at_boundaries {d : Document κ} (h : d.Faithful)
    (hfit : d.size + typedWord.size < bufferLimit) {ts : List Token}
    (hts : tokenize d.buffer = .ok ts) :
    d.boundaries.1 = .ok (starts 0 ts) ∧
      (starts 0 ts).Pairwise (· < ·) ∧ (∀ p ∈ (starts 0 ts).head?, p = 0) ∧
      List.Forall₂ (LexesAt d.buffer) (starts 0 ts) ts ∧
      ∀ picks offsets, List.Forall₂ (fun i p => (starts 0 ts)[i]? = some p) picks offsets →
        let r := d.typeWords offsets
        r.1 = .ok (picks.map fun i =>
          ts.length - i + if ts[i]?.any Token.joinsWord then 0 else 1).sum ∧
          r.2.buffer = d.buffer ∧ (picks ≠ [] → r.2.cursor = d.size) := by
  have hlexes := @forall₂_lexesAt_starts d.buffer [] ts hts
  refine ⟨?_, ?_, ?_, hlexes, ?_⟩
  · rw [h.fst_boundaries, hts]
    rfl
  · exact pairwise_starts (fun _ ht => size_pos_of_tokenize hts ht) 0
  · cases ts with
    | nil => simp [starts]
    | cons t ts =>
      rintro p ⟨⟩
      rfl
  · intro picks offsets hpicks r
    obtain ⟨e, hrun, hbuffer, hcursor, -⟩ :=
      h.typeWordsFrom_of_readsFrom hfit (readsFrom_of_picks hts hpicks) rfl 0
    have hr : r = _ := hrun
    have hcounts : (picks.map ts.drop).map (fun us => (Token.behindWord typedWord us).length) =
        picks.map fun i => ts.length - i + if ts[i]?.any Token.joinsWord then 0 else 1 := by
      rw [List.map_map]
      refine List.map_congr_left fun i _ => ?_
      rw [Function.comp_apply, Token.length_behindWord, List.length_drop, List.head?_drop]
    rw [hr, Nat.zero_add, hcounts]
    refine ⟨rfl, hbuffer, fun hne => ?_⟩
    have hoffsets : offsets ≠ [] := by
      rintro rfl
      cases hpicks
      exact hne rfl
    exact hcursor.trans (if_neg hoffsets)

/-- Text, text in brackets, a command that is remembered and a comment. -/
theorem typeWords_at_boundaries_bracket :
    let command : Token := .command ['x'] [.required [.ofText ['c']] ['{', 'c', '}']]
      ['\\', 'x', '{', 'c', '}']
    let ts := [.ofText ['a'], .ofText ['[', 'b', ']'], command, .comment ['d'] ['%', 'd', '\n']]
    let d : Document TokenTable := ⟨ts.flatMap Token.literal, 3, TokenTable.empty.add 4 command⟩
    let r := d.typeWords [9, 0, 1, 4]
    d.Faithful ∧ d.size + typedWord.size < bufferLimit ∧ tokenize d.buffer = .ok ts ∧
      d.boundaries.1 = .ok [0, 1, 4, 9] ∧
      r.1 = .ok (2 + (4 + (4 + 3))) ∧ r.2.buffer = d.buffer ∧ r.2.cursor = 12 := by
  intro command ts d r
  have h : d.Faithful := by
    intro p t ht
    rcases TokenTable.get?_add_eq_some_iff.mp ht with ⟨rfl, rfl⟩ | ⟨_, ht⟩
    · exact ⟨by cbv, by cbv⟩
    · cases ht
  have hfit : d.size + typedWord.size < bufferLimit := by
    simp only [d, ts, command]
    decide
  have hts : tokenize d.buffer = .ok ts := by
    simp only [d, ts, command]
    cbv
  obtain ⟨hboundaries, -, -, -, htyping⟩ := typeWords_at_boundaries h hfit hts
  have hpicks : List.Forall₂ (fun i p => (starts 0 ts)[i]? = some p) [3, 0, 1, 2] [9, 0, 1, 4] :=
    .cons rfl (.cons rfl (.cons rfl (.cons rfl .nil)))
  obtain ⟨hresult, hbuffer, hcursor⟩ := htyping [3, 0, 1, 2] [9, 0, 1, 4] hpicks
  exact ⟨h, hfit, hts, hboundaries, hresult, hbuffer, hcursor (by simp)⟩

end Document

end LatexTokens
