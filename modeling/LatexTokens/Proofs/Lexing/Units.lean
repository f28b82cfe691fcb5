import LatexTokens.Proofs.Lexing.Arguments

/-!
# Units and what a backslash starts

The units of accents and scripts that can be read at the start of a text are those that stand
there. Accents take units in turn, so both directions go by mutual recursion, once along the
text and once along the token.
-/

set_option autoImplicit false

namespace LatexTokens

namespace Lexing

section
variable {nested : RegionLexer} {math : Bool}

theorem block_eq_ok_iff {t : Text} {token : Token} :
    block nested math t = .ok token ↔ ∃ inner tokens rest,
      token = .block tokens ((Enclosure.group .brace).around inner) ∧
      t = inner ++ ((Enclosure.group .brace).closing ++ rest) ∧
      IsRegion nested math (.group .brace) inner tokens := by
  constructor
  · intro h
    rw [block] at h
    split at h
    · cases h
    · next hr =>
      obtain ⟨inner, rest, rfl, ht, hi⟩ := region_eq_ok_iff.mp hr
      cases h
      exact ⟨inner, _, rest, rfl, ht, hi⟩
  · intro h₀
    obtain ⟨inner, tokens, rest, rfl, ht, hi⟩ := h₀
    rw [block, region_eq_ok_iff.mpr ⟨inner, rest, rfl, ht, hi⟩]

theorem formula_eq_ok_iff {f : Fence} {t : Text} {token : Token} :
    formula nested math f t = .ok token ↔ ∃ inner tokens rest,
      token = .math f.position tokens ((Enclosure.formula f).around inner) ∧
      t = inner ++ ((Enclosure.formula f).closing ++ rest) ∧
      IsRegion nested math (.formula f) inner tokens := by
  constructor
  · intro h
    rw [formula] at h
    split at h
    · cases h
    · next hr =>
      obtain ⟨inner, rest, rfl, ht, hi⟩ := region_eq_ok_iff.mp hr
      cases h
      exact ⟨inner, _, rest, rfl, ht, hi⟩
  · intro h₀
    obtain ⟨inner, tokens, rest, rfl, ht, hi⟩ := h₀
    rw [formula, region_eq_ok_iff.mpr ⟨inner, rest, rfl, ht, hi⟩]

theorem stands_of_formula {f : Fence} {t : Text} {token : Token} {opened : Nat}
    (hf : f ≠ .dollar) (h : formula nested math f t = .ok token) :
    ∃ rest, (Enclosure.formula f).opening ++ t = token.literal ++ rest ∧
      Stands nested math rest.head? opened token := by
  obtain ⟨inner, tokens, rest, rfl, rfl, hi⟩ := formula_eq_ok_iff.mp h
  exact ⟨rest, (Enclosure.around_append _ _ _).symm, .formula hi fun hd => absurd hd hf⟩

theorem stands_of_control {c : Char} {t : Text} {token : Token} {opened : Nat}
    (h : control nested math c t = .ok token) :
    ∃ rest, '\\' :: c :: t = token.literal ++ rest ∧
      Stands nested math rest.head? opened token := by
  rw [control] at h
  by_cases hsquare : c = '['
  · subst hsquare
    exact stands_of_formula (by decide) h
  rw [if_neg hsquare] at h
  by_cases hparen : c = '('
  · subst hparen
    exact stands_of_formula (by decide) h
  rw [if_neg hparen] at h
  split at h
  · cases h
  by_cases hacc : isLetterAccent c = true ∧ t.head? = some '{'
  · obtain ⟨t, rfl⟩ := List.head?_eq_some_iff.mp hacc.2
    rw [if_pos (by simpa using hacc), letterAccent] at h
    split at h
    · cases h
    · next body hb =>
      obtain ⟨inner, tokens, rest, rfl, rfl, hi⟩ := block_eq_ok_iff.mp hb
      cases h
      refine ⟨rest, ?_, .unit (.letterAccent hacc.1 hi) rfl⟩
      exact congrArg (fun l => '\\' :: c :: l) (Enclosure.around_group_append .brace inner rest).symm
  rw [if_neg (by simpa using hacc)] at h
  split at h
  · next hc =>
    obtain ⟨rest, ht, hu⟩ := isUnit_of_command hc hacc h
    obtain ⟨as, _, rfl⟩ := command_eq_ok_iff.mp h
    exact ⟨rest, ht, .unit hu rfl⟩
  · split at h
    · next hs =>
      cases h
      exact ⟨t, rfl, .unit (.symbol hs) rfl⟩
    · cases h

theorem Stands.isUnit_of_asUnit {next : Option Char} {opened : Nat} {token body : Token}
    (h : Stands nested math next opened token) (hb : asUnit token = some body) :
    token = body ∧ IsUnit nested math next body := by
  cases h with
  | @unit token hu _ =>
    cases token <;> cases hb
    all_goals exact ⟨rfl, hu⟩
  | _ => cases hb

theorem eq_ok_of_map_eq_ok {α β : Type} {f : α → β} {r : Except Fault α} {b : β}
    (h : r.map f = .ok b) : ∃ a, r = .ok a ∧ f a = b := by
  cases r with
  | error e => cases h
  | ok a =>
    cases h
    exact ⟨a, rfl, rfl⟩

mutual

theorem isUnit_of_unit {t : Text} {body : Token} (h : unit nested math t = .ok (some body)) :
    ∃ rest, t = body.literal ++ rest ∧ IsUnit nested math rest.head? body := by
  cases t with
  | nil => cases h
  | cons c t =>
    rw [unit] at h
    split at h
    · next hc =>
      obtain ⟨token, hb, hs⟩ := eq_ok_of_map_eq_ok h
      cases hs
      obtain ⟨inner, tokens, rest, rfl, rfl, hi⟩ := block_eq_ok_iff.mp hb
      subst hc
      exact ⟨rest, (Enclosure.around_group_append .brace inner rest).symm, .block hi⟩
    · split at h
      · next hc =>
        obtain ⟨token, hb, hs⟩ := eq_ok_of_map_eq_ok h
        obtain ⟨rest, ht, hstands⟩ := stands_of_backslash 0 hb
        obtain ⟨rfl, hu⟩ := hstands.isUnit_of_asUnit hs
        subst hc
        exact ⟨rest, ht, hu⟩
      · split at h
        · next hc =>
          cases h
          exact ⟨t, rfl, .character hc⟩
        · cases h
termination_by t.length

theorem stands_of_backslash (opened : Nat) {t : Text} {token : Token}
    (h : backslash nested math t = .ok token) :
    ∃ rest, '\\' :: t = token.literal ++ rest ∧ Stands nested math rest.head? opened token := by
  cases t with
  | nil => cases h
  | cons c t =>
    rw [backslash] at h
    split at h
    · next hc =>
      obtain ⟨body, hb, rfl⟩ := eq_make_of_applyTo h
      obtain ⟨rest, ht, hu⟩ := isUnit_of_unit hb
      exact ⟨rest, congrArg (fun l => '\\' :: c :: l) ht, .unit (.symbolAccent hc hu) rfl⟩
    · exact stands_of_control h
termination_by t.length

end

theorem not_isSymbolAccent_of_isAlphanum {c : Char} (h : c.isAlphanum) :
    isSymbolAccent c = false := by
  have key : ∀ d ∈ ['^', '~', '\x60', '\'', '"', '=', '.'], d.isAlphanum = false := by
    simp only [List.forall_mem_cons, List.not_mem_nil, false_implies, implies_true]
    decide
  cases hs : isSymbolAccent c with
  | false => rfl
  | true =>
    have hc := key c (by simpa [isSymbolAccent] using hs)
    rw [h] at hc
    cases hc

theorem control_of_isAlphanum {c : Char} {t : Text} (h : c.isAlphanum)
    (ha : ¬ (isLetterAccent c = true ∧ t.head? = some '{')) :
    control nested math c t = command nested math (c :: t) := by
  have h₁ : c ≠ '[' := by
    intro h₀
    subst h₀
    cases h
  have h₂ : c ≠ '(' := by
    intro h₀
    subst h₀
    cases h
  have h₃ : c ≠ ']' := by
    intro h₀
    subst h₀
    cases h
  have h₄ : c ≠ ')' := by
    intro h₀
    subst h₀
    cases h
  rw [control, if_neg h₁, if_neg h₂, if_neg (by simp [h₃, h₄]), if_neg (by simpa using ha),
    if_pos h]

theorem backslash_of_isControlSymbol {c : Char} (h : isControlSymbol c) (t : Text) :
    backslash nested math (c :: t) = .ok (.command [c] [] ['\\', c]) := by
  have key : ∀ d ∈ [',', ';', ':', '!', '>', '<', '|', '/', '-', '@', ' '],
      isSymbolAccent d = false ∧ d ≠ '[' ∧ d ≠ '(' ∧ d ≠ ']' ∧ d ≠ ')' ∧
        isLetterAccent d = false ∧ d.isAlphanum = false := by
    simp only [List.forall_mem_cons, List.not_mem_nil, false_implies, implies_true]
    and_intros <;> decide
  obtain ⟨h₁, h₂, h₃, h₄, h₅, h₆, h₇⟩ := key c (by simpa [isControlSymbol] using h)
  rw [backslash, h₁, if_neg Bool.false_ne_true, control, if_neg h₂, if_neg h₃,
    if_neg (by simp [h₄, h₅]), h₆, Bool.false_and, if_neg Bool.false_ne_true, h₇,
    if_neg Bool.false_ne_true, if_pos h]

theorem backslash_of_isLetterAccent {mark : Char} (h : isLetterAccent mark) (t : Text) :
    backslash nested math (mark :: '{' :: t) = letterAccent nested math mark t := by
  have key : ∀ d ∈ ['H', 'c', 'b', 'd', 'u', 'v', 't'],
      isSymbolAccent d = false ∧ d ≠ '[' ∧ d ≠ '(' ∧ d ≠ ']' ∧ d ≠ ')' := by
    simp only [List.forall_mem_cons, List.not_mem_nil, false_implies, implies_true]
    and_intros <;> decide
  obtain ⟨h₁, h₂, h₃, h₄, h₅⟩ := key mark (by simpa [isLetterAccent] using h)
  rw [backslash, h₁, if_neg Bool.false_ne_true, control, if_neg h₂, if_neg h₃,
    if_neg (by simp [h₄, h₅]), h, List.head?_cons, if_pos (by simp), List.tail_cons]

theorem not_isAlphanumeric_backslash : isAlphanumeric '\\' = false := by decide +kernel

theorem not_isAlphanumeric_brace : isAlphanumeric '{' = false := by decide +kernel

mutual

/-- A unit that stands before a text is read as one. -/
theorem unit_of_isUnit {body : Token} {rest : Text}
    (h : IsUnit nested math rest.head? body) :
    unit nested math (body.literal ++ rest) = .ok (some body) := by
  have control {l : Text} (hl : body.literal = '\\' :: l) (hu : asUnit body = some body) :
      unit nested math (body.literal ++ rest) = .ok (some body) := by
    rw [hl, List.cons_append, unit, if_neg (by decide), if_pos rfl, backslash_of_isUnit h hl]
    exact congrArg Except.ok hu
  cases h with
  | @block inner tokens hi =>
    have hb := block_eq_ok_iff.mpr ⟨inner, tokens, rest, rfl, rfl, hi⟩
    rw [Token.literal, Enclosure.around_group_append, unit, Delimiter.opening, if_pos rfl, hb]
    rfl
  | command => exact control rfl rfl
  | symbol => exact control rfl rfl
  | letterAccent => exact control rfl rfl
  | symbolAccent => exact control rfl rfl
  | @character c hc =>
    have h₁ : c ≠ '{' := by
      intro h₀
      subst h₀
      cases not_isAlphanumeric_brace.symm.trans hc
    have h₂ : c ≠ '\\' := by
      intro h₀
      subst h₀
      cases not_isAlphanumeric_backslash.symm.trans hc
    rw [Token.literal_ofText, List.singleton_append, unit, if_neg h₁, if_neg h₂, if_pos hc]
termination_by (sizeOf body, 1)

theorem backslash_of_isUnit {token : Token} {l rest : Text}
    (h : IsUnit nested math rest.head? token) (hl : token.literal = '\\' :: l) :
    backslash nested math (l ++ rest) = .ok token := by
  cases h with
  | block => cases hl
  | @command name as hname has hn =>
    cases hl
    obtain ⟨c, l, rfl, hc⟩ := hname.exists_cons
    have hcommand := command_of_isName hname has hn
    rw [← List.head?_append] at hname
    simp only [List.cons_append, List.append_assoc] at hcommand ⊢
    rw [backslash, not_isSymbolAccent_of_isAlphanum hc, if_neg Bool.false_ne_true,
      control_of_isAlphanum hc hname.not_letterAccent, hcommand]
  | symbol hc =>
    cases hl
    exact backslash_of_isControlSymbol hc rest
  | @letterAccent mark inner tokens hm hi =>
    cases hl
    have hb := block_eq_ok_iff.mpr ⟨inner, tokens, rest, rfl, rfl, hi⟩
    rw [List.cons_append, Enclosure.around_group_append, Delimiter.opening,
      backslash_of_isLetterAccent hm, letterAccent, hb]
    rfl
  | @symbolAccent mark body hm hu =>
    cases hl
    rw [List.cons_append, backslash, if_pos hm, unit_of_isUnit hu]
    rfl
  | character hc =>
    cases hl
    cases not_isAlphanumeric_backslash.symm.trans hc
termination_by (sizeOf token, 0)

end

end

end Lexing

end LatexTokens
