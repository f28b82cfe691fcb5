import LatexTokens.Proofs.Lexing.Units

/-!
# Reading finds the token that stands there

`read_eq_ok_iff` says of which texts the reader of a region gives a token. `tokens_eq_ok_iff`
says the same of the tokens of a whole region: their literals are the text, and each of them
stands where it is.
-/

set_option autoImplicit false

namespace LatexTokens

namespace Lexing

theorem exists_comment_eq (t : Text) :
    ∃ body stop rest, t = body ++ (stop ++ rest) ∧ '\n' ∉ body ∧
      (stop = ['\n'] ∨ stop = [] ∧ rest = []) ∧
      comment t = .comment (withoutReturn body).asWritten ('%' :: (body ++ stop)) := by
  obtain ⟨rest, ht, hrun⟩ := Text.exists_isRun_takeWhile (· ≠ '\n') t
  have hbody : '\n' ∉ t.takeWhile (· ≠ '\n') := by
    intro hm
    simpa using hrun.all _ hm
  have hdrop := Text.drop_length_of_eq_append ht
  cases rest with
  | nil =>
    refine ⟨t.takeWhile (· ≠ '\n'), [], [], by simpa using ht, hbody, .inr ⟨rfl, rfl⟩, ?_⟩
    simp only [comment, hdrop, List.take_nil]
  | cons c rest =>
    have hc : c = '\n' := by simpa using hrun.stop c rfl
    subst hc
    refine ⟨t.takeWhile (· ≠ '\n'), ['\n'], rest, ht, hbody, .inl rfl, ?_⟩
    simp only [comment, hdrop, List.take_succ_cons, List.take_zero]

theorem comment_append {body stop rest : Text} (hbody : '\n' ∉ body)
    (hstop : stop = ['\n'] ∨ stop = [] ∧ rest = []) :
    comment (body ++ (stop ++ rest)) =
      .comment (withoutReturn body).asWritten ('%' :: (body ++ stop)) := by
  have hall : ∀ c ∈ body, decide (c ≠ '\n') = true := by
    intro c hc
    exact decide_eq_true fun h => hbody (h ▸ hc)
  have hrun : Text.IsRun (· ≠ '\n') body (stop ++ rest).head? := by
    rcases hstop with rfl | ⟨rfl, rfl⟩
    · exact ⟨hall, by rintro c ⟨⟩; rfl⟩
    · exact ⟨hall, by simp⟩
  simp only [comment, hrun.takeWhile_append, List.drop_left]
  rcases hstop with rfl | ⟨rfl, rfl⟩ <;> rfl

theorem placeholder_eq_ok_iff {t : Text} {token : Token} :
    placeholder t = .ok token ↔ ∃ digits rest, t = digits ++ rest ∧ digits ≠ [] ∧
      Text.IsRun Char.isDigit digits rest.head? ∧ decimal digits < wordSize ∧
      token = .placeholder (decimal digits) ('#' :: digits) := by
  constructor
  · intro h
    obtain ⟨rest, ht, hrun⟩ := Text.exists_isRun_takeWhile Char.isDigit t
    simp only [placeholder] at h
    split at h
    · cases h
    · next hne =>
      split at h
      · next hd =>
        cases h
        exact ⟨_, rest, ht, by simpa using hne, hrun, hd, rfl⟩
      · cases h
  · intro h₀
    obtain ⟨digits, rest, rfl, hne, hrun, hd, rfl⟩ := h₀
    simp only [placeholder, hrun.takeWhile_append]
    rw [if_neg (by simpa using hne), if_pos hd]

section
variable {nested : RegionLexer} {math : Bool}

theorem dollar_eq_formula {t : Text} (h : t.head? ≠ some '$') :
    dollar nested math t = formula nested math .dollar t := by
  unfold dollar
  split
  · exact absurd rfl h
  · rfl

/-- A doubled dollar sign opens a display, so a formula between single ones is not empty. -/
theorem stands_of_dollar {t : Text} {token : Token} {opened : Nat}
    (h : dollar nested math t = .ok token) :
    ∃ rest, '$' :: t = token.literal ++ rest ∧ Stands nested math rest.head? opened token := by
  by_cases hd : t.head? = some '$'
  · obtain ⟨t, rfl⟩ := List.head?_eq_some_iff.mp hd
    exact stands_of_formula (f := .doubleDollar) (by decide) h
  · rw [dollar_eq_formula hd] at h
    obtain ⟨inner, tokens, rest, rfl, rfl, hi⟩ := formula_eq_ok_iff.mp h
    refine ⟨rest, (Enclosure.around_append (.formula .dollar) inner rest).symm, .formula hi ?_⟩
    intro _ h₀
    subst h₀
    exact hd rfl

theorem stands_of_bracket {t : Text} {token : Token} {opened : Nat}
    (h : bracket nested false t = .ok token) :
    ∃ rest, '[' :: t = token.literal ++ rest ∧ Stands nested false rest.head? opened token := by
  rw [bracket] at h
  split at h
  · cases h
  · next inner rest hs =>
    split at h
    · next hsig =>
      split at h
      · cases h
      · next hr =>
        obtain ⟨inner', rest', rfl, rfl, hi⟩ := region_eq_ok_iff.mp hr
        cases hs.symm.trans (hi.encloses rest')
        cases h
        refine ⟨rest, (Enclosure.around_group_append .bracket inner rest).symm, ?_⟩
        exact .bracket rfl hi (by simpa using hsig)
    · next hsig =>
      have htext : ∀ c ∈ inner, isSignificant c = false := by simpa using hsig
      rw [content_eq_of_split hs htext] at h
      cases h
      obtain ⟨ht, he⟩ := Enclosure.split_eq_ok_iff.mp hs
      obtain ⟨rest', hrest, hrun⟩ := Text.exists_isRun_takeWhile (isPlain false) rest
      refine ⟨rest', ?_, .bracketText rfl he htext hrun⟩
      rw [Token.literal_ofText, List.append_assoc, ← hrest, Enclosure.around_group_append, ← ht]
      rfl

theorem isSignificant_eq_false_iff {c : Char} : isSignificant c = false ↔
    c ≠ '\\' ∧ c ≠ '{' ∧ c ≠ '}' ∧ c ≠ '$' ∧ c ≠ '&' ∧ c ≠ '%' ∧ c ≠ '#' ∧ c ≠ '^' ∧ c ≠ '_' := by
  simp [isSignificant]

theorem isPlain_of_ne {c : Char} (h : isSignificant c = false) (ho : c ≠ '[') (hc : c ≠ ']') :
    isPlain math c := by
  simp [isPlain, h, ho, hc]

/-- A token that is read from a text starts it and stands before the character behind it. -/
theorem stands_of_read {opened : Nat} {c : Char} {t : Text} {token : Token}
    (h : read nested math opened c t = .ok token) :
    ∃ rest, c :: t = token.literal ++ rest ∧ Stands nested math rest.head? opened token := by
  have text {c : Char} (hm : math = true ∨ c ≠ '[') : ∃ rest,
      c :: t = (content math c t).literal ++ rest ∧
      content math c t = .ofText (c :: t.takeWhile (isPlain math)) ∧
      Text.IsRun (isPlain math) (t.takeWhile (isPlain math)) rest.head? := by
    obtain ⟨rest, ht, hrun⟩ := Text.exists_isRun_takeWhile (isPlain math) t
    have he := content_eq_ofText hm t
    exact ⟨rest, by rw [he]; exact congrArg (c :: ·) ht, he, hrun⟩
  unfold read at h
  split at h
  · obtain ⟨inner, tokens, rest, rfl, rfl, hi⟩ := block_eq_ok_iff.mp h
    exact ⟨rest, (Enclosure.around_group_append .brace inner rest).symm, .unit (.block hi) rfl⟩
  · exact stands_of_backslash opened h
  · obtain ⟨body, hb, rfl⟩ := eq_make_of_applyTo h
    obtain ⟨rest, rfl, hu⟩ := isUnit_of_unit hb
    exact ⟨rest, rfl, .script hu⟩
  · obtain ⟨body, hb, rfl⟩ := eq_make_of_applyTo h
    obtain ⟨rest, rfl, hu⟩ := isUnit_of_unit hb
    exact ⟨rest, rfl, .script hu⟩
  · cases h
    exact ⟨t, rfl, .columnAlign⟩
  · obtain ⟨body, stop, rest, rfl, hbody, hstop, he⟩ := exists_comment_eq t
    cases h
    rw [he]
    refine ⟨rest, by simp [Token.literal], .comment hbody ?_⟩
    rcases hstop with hs | ⟨hs, rfl⟩
    · exact .inl hs
    · exact .inr ⟨hs, rfl⟩
  · obtain ⟨digits, rest, rfl, hne, hrun, hd, rfl⟩ := placeholder_eq_ok_iff.mp h
    exact ⟨rest, rfl, .placeholder hne hrun hd⟩
  · exact stands_of_dollar h
  · cases h
  · split at h
    · next hm =>
      obtain ⟨rest, ht, he, hrun⟩ := text (.inl hm)
      cases h
      refine ⟨rest, ht, ?_⟩
      rw [he]
      exact .text (by simp [isPlain, hm, isSignificant]) hrun
    · next hm =>
      have hm : math = false := by simpa using hm
      subst hm
      exact stands_of_bracket h
  · split at h
    · next hm =>
      obtain ⟨hm, ho⟩ := Bool.and_eq_true_iff.mp hm
      obtain ⟨rest, ht, he, hrun⟩ := text (c := ']') (.inl hm)
      cases h
      refine ⟨rest, ht, ?_⟩
      rw [he]
      exact .closingText hm (by simpa using ho) hrun
    · cases h
  · next h₁ h₂ h₃ h₄ h₅ h₆ h₇ h₈ h₉ ho hc =>
    obtain ⟨rest, ht, he, hrun⟩ := text (.inr ho)
    cases h
    refine ⟨rest, ht, ?_⟩
    rw [he]
    have hs := isSignificant_eq_false_iff.mpr ⟨h₂, h₁, h₉, h₈, h₅, h₆, h₇, h₃, h₄⟩
    exact .text (isPlain_of_ne hs ho hc) hrun

theorem read_eq_content_of_isPlain {opened : Nat} {c : Char} (h : isPlain math c) (t : Text) :
    read nested math opened c t = .ok (content math c t) := by
  simp only [isPlain, Bool.and_eq_true, Bool.not_eq_true', decide_eq_true_eq] at h
  obtain ⟨⟨hs, hc⟩, hm⟩ := h
  obtain ⟨h₁, h₂, h₃, h₄, h₅, h₆, h₇, h₈, h₉⟩ := isSignificant_eq_false_iff.mp hs
  unfold read
  split
  case h_10 => rw [if_pos (by simpa using hm)]
  case h_12 => rfl
  all_goals contradiction

/-- A token that stands before a text is read in front of it. -/
theorem read_of_stands {opened : Nat} {c : Char} {t rest : Text} {token : Token}
    (h : Stands nested math rest.head? opened token) (ht : c :: t = token.literal ++ rest) :
    read nested math opened c t = .ok token := by
  cases h with
  | unit hu hcontent =>
    have backslash {l : Text} (hl : token.literal = '\\' :: l) :
        read nested math opened c t = .ok token := by
      rw [hl, List.cons_append, List.cons.injEq] at ht
      obtain ⟨rfl, rfl⟩ := ht
      exact backslash_of_isUnit hu hl
    cases hu with
    | @block inner tokens hi =>
      obtain ⟨rfl, rfl⟩ := List.cons.inj (ht.trans (Enclosure.around_group_append .brace inner rest))
      exact block_eq_ok_iff.mpr ⟨inner, tokens, rest, rfl, rfl, hi⟩
    | command => exact backslash rfl
    | symbol => exact backslash rfl
    | letterAccent => exact backslash rfl
    | symbolAccent => exact backslash rfl
    | character => cases hcontent
  | @script kind body hu =>
    have hscript : script nested math kind (body.literal ++ rest) =
        .ok (.script kind body (kind.mark :: body.literal)) := by
      rw [script, unit_of_isUnit hu]
      rfl
    obtain ⟨rfl, rfl⟩ := List.cons.inj ht
    cases kind with
    | superscript => exact hscript
    | subscript => exact hscript
  | @formula f inner tokens hi hne =>
    rw [Token.literal, Enclosure.around_append] at ht
    have hformula := formula_eq_ok_iff.mpr ⟨inner, tokens, rest, rfl, rfl, hi⟩
    cases f with
    | dollar =>
      obtain ⟨rfl, rfl⟩ := List.cons.inj ht
      obtain ⟨d, l, rfl⟩ := List.exists_cons_of_ne_nil (hne rfl)
      have hd : d ≠ '$' := by
        intro h₀
        subst h₀
        cases hi.encloses.closing_not_prefix rest
      exact (dollar_eq_formula (by simpa using hd)).trans hformula
    | doubleDollar =>
      obtain ⟨rfl, rfl⟩ := List.cons.inj ht
      exact hformula
    | parenthesis =>
      obtain ⟨rfl, rfl⟩ := List.cons.inj ht
      exact hformula
    | square =>
      obtain ⟨rfl, rfl⟩ := List.cons.inj ht
      exact hformula
  | columnAlign =>
    obtain ⟨rfl, rfl⟩ := List.cons.inj ht
    rfl
  | @comment body stop hbody hstop =>
    obtain ⟨rfl, rfl⟩ := List.cons.inj (ht.trans (by simp [Token.literal] :
      _ = '%' :: (body ++ (stop ++ rest))))
    refine congrArg Except.ok (comment_append hbody ?_)
    rcases hstop with hs | ⟨hs, hn⟩
    · exact .inl hs
    · exact .inr ⟨hs, List.head?_eq_none_iff.mp hn⟩
  | @placeholder digits hne hrun hd =>
    obtain ⟨rfl, rfl⟩ := List.cons.inj ht
    exact placeholder_eq_ok_iff.mpr ⟨digits, rest, rfl, hne, hrun, hd, rfl⟩
  | @text d run hp hrun =>
    rw [Token.literal_ofText, List.cons_append, List.cons.injEq] at ht
    obtain ⟨rfl, rfl⟩ := ht
    have hm : math = true ∨ c ≠ '[' := by
      simp only [isPlain, Bool.and_eq_true, Bool.or_eq_true, decide_eq_true_eq] at hp
      exact hp.2
    rw [read_eq_content_of_isPlain hp, content_eq_ofText hm, hrun.takeWhile_append]
  | @closingText run hm ho hrun =>
    rw [Token.literal_ofText, List.cons_append, List.cons.injEq] at ht
    obtain ⟨rfl, rfl⟩ := ht
    rw [read, if_pos (by simp [hm, ho]), content_eq_ofText (.inl hm), hrun.takeWhile_append]
  | @bracketText inner run hm he htext hrun =>
    subst hm
    rw [Token.literal_ofText, List.append_assoc, Enclosure.around_group_append] at ht
    obtain ⟨rfl, rfl⟩ := List.cons.inj ht
    have hs := he (run ++ rest)
    have hany : inner.any isSignificant = false := by simpa using htext
    change bracket nested false _ = _
    rw [bracket, hs]
    simp only [hany, Bool.false_eq_true, if_false, content_eq_of_split hs htext,
      hrun.takeWhile_append]
  | @bracket inner tokens hm hi hsig =>
    subst hm
    obtain ⟨rfl, rfl⟩ := List.cons.inj (ht.trans (Enclosure.around_group_append .bracket inner rest))
    have hr := region_eq_ok_iff.mpr ⟨inner, rest, rfl, rfl, hi⟩
    have hany : inner.any isSignificant = true := by simpa using hsig
    change bracket nested false _ = _
    rw [bracket, hi.encloses rest]
    simp only [hany, if_true, hr]

theorem read_eq_ok_iff {opened : Nat} {c : Char} {t : Text} {token : Token} :
    read nested math opened c t = .ok token ↔
      ∃ rest, c :: t = token.literal ++ rest ∧ Stands nested math rest.head? opened token := by
  constructor
  · exact stands_of_read
  · intro h₀
    obtain ⟨rest, ht, h⟩ := h₀
    exact read_of_stands h ht

theorem IsUnit.literal_ne_nil {next : Option Char} {token : Token}
    (h : IsUnit nested math next token) : token.literal ≠ [] := by
  cases h <;> exact List.cons_ne_nil _ _

theorem Stands.literal_ne_nil {next : Option Char} {opened : Nat} {token : Token}
    (h : Stands nested math next opened token) : token.literal ≠ [] := by
  cases h with
  | unit hu _ => exact hu.literal_ne_nil
  | @formula f => cases f <;> exact List.cons_ne_nil _ _
  | _ => exact List.cons_ne_nil _ _

variable (nested math) in
/-- Whether each of some tokens stands before the next one, the last of them at the end. -/
def StandInRow : Nat → List Token → Prop
  | _, [] => True
  | opened, t :: ts => Stands nested math (ts.flatMap Token.literal).head? opened t ∧
      StandInRow (openBrackets opened t.literal) ts

theorem tokens_eq_ok_iff {opened : Nat} {t : Text} {ts : List Token} :
    tokens nested math opened t = .ok ts ↔
      t = ts.flatMap Token.literal ∧ StandInRow nested math opened ts := by
  constructor
  · intro h
    fun_induction tokens nested math opened t generalizing ts with
    | case1 =>
      cases h
      exact ⟨rfl, trivial⟩
    | case2 => cases h
    | case3 => cases h
    | case4 opened c t token hread ts' hts ih =>
      cases h
      obtain ⟨rest, ht, hstands⟩ := stands_of_read hread
      obtain ⟨hrest, hrow⟩ := ih hts
      rw [Text.drop_length_tail hstands.literal_ne_nil ht] at hrest
      subst hrest
      exact ⟨ht, hstands, hrow⟩
  · intro h₀
    obtain ⟨rfl, h⟩ := h₀
    induction ts generalizing opened with
    | nil => rw [List.flatMap_nil, tokens]
    | cons token ts ih =>
      obtain ⟨hstands, hrow⟩ := h
      obtain ⟨d, l, hl⟩ := List.exists_cons_of_ne_nil hstands.literal_ne_nil
      have hread : read nested math opened d (l ++ ts.flatMap Token.literal) = .ok token :=
        read_of_stands hstands (by rw [hl, List.cons_append])
      rw [List.flatMap_cons, hl, List.cons_append, tokens, hread]
      simp only [hl, List.tail_cons, List.drop_left]
      rw [← hl, ih hrow]

theorem StandInRow.exists_stands {opened : Nat} {ts : List Token}
    (h : StandInRow nested math opened ts) {token : Token} (ht : token ∈ ts) :
    ∃ opened next, Stands nested math next opened token := by
  induction ts generalizing opened with
  | nil => cases ht
  | cons t ts ih =>
    rcases List.mem_cons.mp ht with rfl | ht
    · exact ⟨opened, _, h.1⟩
    · exact ih h.2 ht

end

end Lexing

/-- The tokens of a region are its text cut into pieces. -/
theorem flatMap_literal_of_lexRegion {levels : Nat} {math : Bool} {t : Text} {ts : List Token}
    (h : lexRegion levels math t = .ok ts) : ts.flatMap Token.literal = t := by
  cases levels with
  | zero => cases h
  | succ levels => exact (Lexing.tokens_eq_ok_iff.mp h).1.symm

theorem readToken?_eq_some_iff {t : Text} {token : Token} :
    readToken? t = .ok (some token) ↔ ∃ rest, t = token.literal ++ rest ∧
      Lexing.Stands (lexRegion maxNesting) false rest.head? 0 token := by
  constructor
  · intro h
    cases t with
    | nil => cases h
    | cons c t =>
      obtain ⟨token', hread, hs⟩ := Lexing.eq_ok_of_map_eq_ok h
      cases hs
      exact Lexing.stands_of_read hread
  · intro h₀
    obtain ⟨rest, rfl, h⟩ := h₀
    obtain ⟨c, l, hl⟩ := List.exists_cons_of_ne_nil h.literal_ne_nil
    have hread := Lexing.read_of_stands h (by rw [hl, List.cons_append] :
      c :: (l ++ rest) = token.literal ++ rest)
    rw [hl, List.cons_append, readToken?, hread]
    rfl

end LatexTokens
