import Mathlib
import LatexTokens.Proofs.Comment.Single

/-!
# What is in a comment changes nothing around it

`tokenize_withComment` says of two texts that differ in one comment how their tokens do. Where the
brackets in the comments do not differ, or no formula is around them, both texts can be read or
neither can.
-/

set_option autoImplicit false

namespace LatexTokens

namespace Lexing
variable {c₁ c₂ : Text}

section
variable {nested : RegionLexer} {math : Bool}

/-- The number of open brackets decides of a closing bracket in math whether it is text. -/
theorem read_opened {X : Prop} {m n : Nat} (hX : m ≠ n → math = true → X) (a : Char) (t : Text) :
    Agree X Eq (read nested math m a t) (read nested math n a t) := by
  by_cases hmn : m = n
  · subst hmn
    exact Agree.of_eq fun _ _ => rfl
  · unfold read
    split
    case h_11 =>
      cases math with
      | false => trivial
      | true =>
        have hX := hX hmn rfl
        have hstray : (Fault.point 0 (.noMatchingOpener ']')).IsStrayBracket := rfl
        split
        · split
          · rfl
          · exact .right hX hstray _
        · exact .left hX hstray _
    all_goals exact Agree.of_eq fun _ _ => rfl

theorem tokens_opened {X : Prop} {m n : Nat} (hX : m ≠ n → math = true → X) (t : Text) :
    Agree X Eq (tokens nested math m t) (tokens nested math n t) := by
  cases t with
  | nil =>
    rw [tokens, tokens]
    rfl
  | cons a t =>
    rw [tokens, tokens]
    refine (read_opened hX a t).elim ?_ (fun _ _ => trivial) (fun _ _ hX hf => .left hX hf _)
      (fun _ _ hX hg => .right hX hg _)
    rintro token _ - - rfl
    have hX' (h : openBrackets m token.literal ≠ openBrackets n token.literal) : m ≠ n := by
      rintro rfl
      exact h rfl
    simp only
    refine (tokens_opened (fun h => hX (hX' h)) (t.drop token.literal.tail.length)).elim ?_
      (fun _ _ => trivial) (fun _ _ hX hf => .left hX (hf.shift _) _)
      (fun _ _ hX hg => .right hX (hg.shift _) _)
    rintro ts _ - - rfl
    rfl
termination_by t.length
decreasing_by simp only [List.length_drop, List.length_cons]; omega

theorem openBrackets_append (n : Nat) (s t : Text) :
    openBrackets n (s ++ t) = openBrackets (openBrackets n s) t := List.foldl_append

theorem openBrackets_withComment {n : Nat} {u x : Text}
    (h : openBrackets n (u.withComment c₁ x) ≠ openBrackets n (u.withComment c₂ x)) :
    ∃ n, openBrackets n c₁ ≠ openBrackets n c₂ := by
  refine ⟨openBrackets (openBrackets n u) ['%'], ?_⟩
  intro h₀
  apply h
  have hc (c : Text) : u.withComment c x = u ++ (['%'] ++ (c ++ ('\n' :: x))) := rfl
  simp only [hc, openBrackets_append, h₀]

variable (h₁ : '\n' ∉ c₁) (h₂ : '\n' ∉ c₂) (hn : Respects c₁ c₂ nested)
include h₁ h₂ hn

/-- The first token of a text with a comment, which can be the comment itself. -/
theorem read_first_agree (opened : Nat) (u v : Text) : ∃ d t₁ t₂,
    u.withComment c₁ v = d :: t₁ ∧ u.withComment c₂ v = d :: t₂ ∧
      Agree (Exposed c₁ c₂ math u v) (FirstAlike c₁ c₂ Token.literal Token.Differs u v)
        (read nested math opened d t₁) (read nested math opened d t₂) := by
  cases u with
  | nil =>
    refine ⟨'%', c₁ ++ '\n' :: v, c₂ ++ '\n' :: v, rfl, rfl, ?_⟩
    have heq {c : Text} (hc : '\n' ∉ c) : comment (c ++ (['\n'] ++ v)) =
        .comment (withoutReturn c).asWritten ('%' :: (c ++ ['\n'])) :=
      comment_append hc (.inl rfl)
    change Agree _ _ (.ok (comment (c₁ ++ (['\n'] ++ v)))) (.ok (comment (c₂ ++ (['\n'] ++ v))))
    rw [heq h₁, heq h₂]
    exact .around [] v rfl rfl rfl (.comment _ _ _ _)
  | cons a u => exact ⟨a, _, _, rfl, rfl, read_agree h₁ h₂ hn opened a u v⟩

theorem tokens_agree (opened : Nat) (u v : Text) :
    Agree (Exposed c₁ c₂ math u v) (OneDiffers Token.Differs)
      (tokens nested math opened (u.withComment c₁ v))
      (tokens nested math opened (u.withComment c₂ v)) := by
  obtain ⟨d, t₁, t₂, ht₁, ht₂, hread⟩ := read_first_agree h₁ h₂ hn opened u v
  rw [ht₁, ht₂, tokens, tokens]
  refine hread.elim ?_ (fun _ _ => trivial) (fun _ _ hX hf => .left hX hf _)
    (fun _ _ hX hg => .right hX hg _)
  intro a b ha hb h
  obtain ⟨l, hl⟩ := literal_eq_cons_of_read nested math ha
  obtain ⟨l', hl'⟩ := literal_eq_cons_of_read nested math hb
  have hne : a.literal ≠ [] := hl ▸ List.cons_ne_nil _ _
  have hne' : b.literal ≠ [] := hl' ▸ List.cons_ne_nil _ _
  simp only
  rcases h.rests ht₁ ht₂ hne hne' with
    ⟨rfl, u', hu, hlt, hrest, hrest'⟩ | ⟨hd, x, w, rfl, hx, hx', hrest, hrest'⟩
  · rw [hrest, hrest']
    have hX (h : Exposed c₁ c₂ math u' v) : Exposed c₁ c₂ math u v := hu ▸ h.append a.literal
    refine ((tokens_agree (openBrackets opened a.literal) u' v).mono hX).elim ?_
      (fun _ _ => trivial) (fun _ _ hX hf => .left hX (hf.shift _) _)
      (fun _ _ hX hg => .right hX (hg.shift _) _)
    intro ts us _ _ h
    exact h.there a
  · rw [hrest, hrest']
    have hX (hne : openBrackets opened a.literal ≠ openBrackets opened b.literal)
        (hm : math = true) : Exposed c₁ c₂ math u (x ++ w) := by
      rw [hx, hx'] at hne
      exact ⟨openBrackets_withComment hne, .inl hm⟩
    refine (tokens_opened hX w).elim ?_ (fun _ _ => trivial)
      (fun _ _ hX hf => .left hX (hf.shift _) _) (fun _ _ hX hg => .right hX (hg.shift _) _)
    rintro ts _ - - rfl
    exact .here ts hd
termination_by u.length
decreasing_by exact hlt

end

/-- Readers of regions read texts alike that differ in one comment. -/
theorem respects_lexRegion (h₁ : '\n' ∉ c₁) (h₂ : '\n' ∉ c₂) (levels : Nat) :
    Respects c₁ c₂ (lexRegion levels) := by
  induction levels with
  | zero =>
    intro math u v
    trivial
  | succ levels ih =>
    intro math u v
    exact tokens_agree h₁ h₂ ih 0 u v

end Lexing

/-- Two texts that differ in one comment have the same tokens up to that comment and the literals
around it. At most one of them cannot be read, and that only for a stray bracket, where the
comment is in a formula and the brackets in the two comments differ. -/
theorem tokenize_withComment (u v : Text) {c₁ c₂ : Text} (h₁ : '\n' ∉ c₁) (h₂ : '\n' ∉ c₂) :
    (∀ ts us, tokenize (u.withComment c₁ v) = .ok ts → tokenize (u.withComment c₂ v) = .ok us →
      OneDiffers Token.Differs ts us) ∧
    ((∀ n, Lexing.openBrackets n c₁ = Lexing.openBrackets n c₂) ∨ ¬ Lexing.InFormula c₁ u v →
      ((tokenize (u.withComment c₁ v)).isOk ↔ (tokenize (u.withComment c₂ v)).isOk)) ∧
    ∀ ts f, tokenize (u.withComment c₁ v) = .ok ts → tokenize (u.withComment c₂ v) = .error f →
      f.cause = .noMatchingOpener ']' := by
  have h : Agree (Lexing.Exposed c₁ c₂ false u v) (OneDiffers Token.Differs)
      (tokenize (u.withComment c₁ v)) (tokenize (u.withComment c₂ v)) :=
    Lexing.respects_lexRegion h₁ h₂ (maxNesting + 1) false u v
  refine ⟨?_, ?_, ?_⟩
  · intro ts us hts hus
    rwa [hts, hus] at h
  · intro hsame
    have hexposed : ¬ Lexing.Exposed c₁ c₂ false u v := by
      rintro ⟨⟨n, hne⟩, hm | hf⟩
      · cases hm
      · rcases hsame with heq | hout
        · exact hne (heq n)
        · exact hout hf
    rcases (h.mono fun hx => hexposed hx).cases_of_false with ⟨a, b, ha, hb, _⟩ | ⟨f, g, hf, hg⟩
    · rw [ha, hb]
      exact Iff.rfl
    · rw [hf, hg]
      exact Iff.rfl
  · intro ts f hts hf
    rw [hts, hf] at h
    exact h.2

/-- A closing brace and a closing bracket in a comment do not end the group around it. -/
theorem tokenize_withComment_group :
    let u : Text := ['{', 'a']
    let c₁ : Text := ['x']
    let c₂ : Text := [']', '}']
    let v : Text := ['}']
    '\n' ∉ c₁ ∧ '\n' ∉ c₂ ∧ ¬ Lexing.InFormula c₁ u v ∧ (tokenize (u.withComment c₁ v)).isOk ∧
      (tokenize (u.withComment c₂ v)).isOk := by
  intro u c₁ c₂ v
  have h₁ : '\n' ∉ c₁ := by decide
  have h₂ : '\n' ∉ c₂ := by decide
  have hout : ¬ Lexing.InFormula c₁ u v := by
    rintro ⟨f, y, z, hy, -⟩
    have hmem (a : Char) (ha : a ∈ (Enclosure.formula f).opening) : a ∈ u :=
      hy.subset (List.mem_append_left y ha)
    cases f with
    | dollar => exact absurd (hmem '$' (by decide)) (by decide)
    | doubleDollar => exact absurd (hmem '$' (by decide)) (by decide)
    | parenthesis => exact absurd (hmem '(' (by decide)) (by decide)
    | square => exact absurd (hmem '[' (by decide)) (by decide)
  have hok : (tokenize (u.withComment c₁ v)).isOk := by
    simp only [u, c₁, v]
    cbv
  have hboth := (tokenize_withComment u v h₁ h₂).2.1 (.inr hout)
  exact ⟨h₁, h₂, hout, hok, hboth.mp hok⟩

/-- A bracket in a comment is counted in the formula around it: it makes a closing bracket behind
the comment text, and closes an opening one in front of it. -/
theorem tokenize_withComment_bracket :
    (tokenize (Text.withComment ['$'] ['['] [']', '$'])).isOk = true ∧
      (tokenize (Text.withComment ['$'] ['x'] [']', '$'])).isOk = false ∧
      (tokenize (Text.withComment ['$', '['] ['x'] [']', '$'])).isOk = true ∧
      (tokenize (Text.withComment ['$', '['] [']'] [']', '$'])).isOk = false := by
  and_intros <;> cbv

end LatexTokens
