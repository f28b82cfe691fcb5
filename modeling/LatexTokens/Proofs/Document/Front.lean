import LatexTokens.Proofs.Document.Whole
import LatexTokens.Proofs.Lexing.Following

/-!
# Text in front of a text

A token that stands in front of a text is read first, and the text is then read as it is by itself,
with its faults moved. A word in front of a text becomes a part of the run of text that is there, or
is a token of its own where none is (`tokenize_word_append`).
-/

set_option autoImplicit false

namespace LatexTokens

namespace Token

/-- Whether a word in front of the token becomes a part of it. -/
def joinsWord : Token → Bool
  | content _ literal => literal.head? ≠ some '['
  | _ => false

/-- The tokens of a text with a word in front of it, given the tokens of the text. -/
def behindWord (word : Text) : List Token → List Token
  | [] => [.ofText word]
  | t :: ts => if t.joinsWord then .ofText (word ++ t.literal) :: ts else .ofText word :: t :: ts

theorem joinsWord_ofText {c : Char} (h : c ≠ '[') (l : Text) :
    (ofText (c :: l)).joinsWord = true := by
  simpa [ofText, joinsWord] using h

theorem behindWord_of_joinsWord {t : Token} (h : t.joinsWord = true) (word : Text)
    (ts : List Token) : behindWord word (t :: ts) = .ofText (word ++ t.literal) :: ts := if_pos h

theorem behindWord_of_any_eq_false {ts : List Token} (h : ts.head?.any joinsWord = false)
    (word : Text) : behindWord word ts = .ofText word :: ts := by
  cases ts with
  | nil => rfl
  | cons t ts => exact if_neg (Bool.eq_false_iff.mp h)

theorem length_behindWord (word : Text) (ts : List Token) :
    (behindWord word ts).length = ts.length + if ts.head?.any joinsWord then 0 else 1 := by
  cases ts with
  | nil => rfl
  | cons t ts =>
    rw [behindWord, List.head?_cons, Option.any_some]
    split <;> rfl

end Token

namespace Lexing
variable {nested : RegionLexer} {next : Option Char} {opened : Nat} {token : Token}

/-- A token that a word in front of it becomes a part of starts with a character of words. -/
theorem Stands.exists_isPlain (h : Stands nested false next opened token)
    (hj : token.joinsWord = true) : ∃ c l, token.literal = c :: l ∧ isPlain false c := by
  cases h with
  | unit _ hc =>
    cases token with
    | content => cases hc
    | _ => cases hj
  | text hc _ => exact ⟨_, _, rfl, hc⟩
  | closingText hm => cases hm
  | bracketText => cases hj
  | _ => cases hj

end Lexing

theorem tokenize_append_of_stands {t : Token} {v : Text}
    (h : Lexing.Stands (lexRegion maxNesting) false v.head? 0 t) :
    tokenize (t.literal ++ v) = Document.behind t.literal [t] (tokenize v) :=
  tokenize_append_of_token (readToken?_eq_some_iff.mpr ⟨v, rfl, h⟩)

/-- A word and a character that is of no word behind it. -/
theorem tokenize_run_append {run v : Text} (hne : run ≠ [])
    (h : Text.IsRun (Lexing.isPlain false) run v.head?) :
    tokenize (run ++ v) = Document.behind run [.ofText run] (tokenize v) := by
  obtain ⟨c, l, rfl⟩ := List.exists_cons_of_ne_nil hne
  obtain ⟨hc, hl⟩ := List.forall_mem_cons.mp h.all
  exact tokenize_append_of_stands (t := .ofText (c :: l)) (.text hc ⟨hl, h.stop⟩)

theorem any_joinsWord_eq_false_of_tokenize {v : Text} {ts : List Token} (h : tokenize v = .ok ts)
    (hv : ∀ c ∈ v.head?, Lexing.isPlain false c = false) :
    ts.head?.any Token.joinsWord = false := by
  obtain ⟨rfl, hrow⟩ := Lexing.tokens_eq_ok_iff.mp h
  cases ts with
  | nil => rfl
  | cons t ts =>
    refine Bool.eq_false_iff.mpr fun hj => ?_
    obtain ⟨c, l, hl, hc⟩ := hrow.1.exists_isPlain hj
    rw [List.flatMap_cons, hl] at hv
    cases (hv c rfl).symm.trans hc

/-- A text with a word in front of it is read as the text by itself, up to the first token. -/
theorem tokenize_word_append {word : Text} (hne : word ≠ [])
    (h : ∀ c ∈ word, Lexing.isPlain false c) (v : Text) :
    tokenize (word ++ v) =
      match tokenize v with
      | .error f => .error (f.shift word.size)
      | .ok ts => .ok (Token.behindWord word ts) := by
  -- The word is one run with the characters of words that the text starts with.
  obtain ⟨rest, hv, hrun⟩ := Text.exists_isRun_takeWhile (Lexing.isPlain false) v
  generalize v.takeWhile (Lexing.isPlain false) = run at hv hrun
  subst hv
  have hboth : Text.IsRun (Lexing.isPlain false) (word ++ run) rest.head? := by
    refine ⟨fun c hc => ?_, hrun.stop⟩
    rcases List.mem_append.mp hc with hc | hc
    · exact h c hc
    · exact hrun.all c hc
  rw [← List.append_assoc, tokenize_run_append (List.append_ne_nil_of_left_ne_nil hne run) hboth]
  cases run with
  | nil =>
    rw [List.append_nil, List.nil_append]
    cases hrest : tokenize rest with
    | error f => rfl
    | ok ts =>
      have hj := any_joinsWord_eq_false_of_tokenize hrest hrun.stop
      exact congrArg Except.ok (Token.behindWord_of_any_eq_false hj word).symm
  | cons c l =>
    rw [tokenize_run_append (List.cons_ne_nil c l) hrun]
    cases tokenize rest with
    | error f =>
      simp only [Document.behind, Fault.shift_shift, Text.size_append, Nat.add_comm]
    | ok ts =>
      have hc := (Lexing.isPlain_false_iff.mp (hrun.all c List.mem_cons_self)).2.1
      have hj := Token.joinsWord_ofText hc l
      exact congrArg Except.ok (Token.behindWord_of_joinsWord hj word ts).symm

end LatexTokens
