import LatexTokens.Proofs.Balance.Grammar
import LatexTokens.Proofs.Fault.Placement
import LatexTokens.Proofs.Lexing.Locality

/-!
# How reading fails

`Fails` lists the ways in which reading a token fails at the start of a text: where the fault
arises, and which parts of the token are passed over before that. `fails_of_read` finds each
failure of the reader among them, so a property of all faults is one case analysis of `Fails`.
-/

set_option autoImplicit false

namespace LatexTokens

namespace Lexing

section
variable (nested : RegionLexer) (math : Bool)

inductive Fails : Text → Fault → Prop where
  | unclosed {e : Enclosure} {t : Text} {f : Fault} : e.split t = .error f →
      Fails (e.opening ++ t) f
  | inside {e : Enclosure} {inner : Text} {f : Fault} (rest : Text) : e.Encloses inner →
      nested (math || e.isFormula) inner = .error f →
      Fails (e.around inner ++ rest) (f.shift e.opening.size)
  | settings {inner : Text} {tokens : List Token} {cause : Cause} (rest : Text) :
      IsRegion nested math (.group .bracket) inner tokens →
      OptionValue.ofTokens tokens = .error cause →
      Fails ((Enclosure.group .bracket).around inner ++ rest) ⟨⟨1, 1 + inner.size⟩, cause⟩
  | behind {lead t : Text} {f : Fault} : (∀ c ∈ lead, Nesting.braces.IsOrdinary c) → Fails t f →
      Fails (lead ++ t) (f.shift lead.size)
  | behindArgument {a : Argument Token} {t : Text} {f : Fault} : IsArgument nested math a →
      Fails t f → Fails (a.literal ++ t) (f.shift a.literal.size)
  | invalidUnit {construct : String} {lead : Text} (t : Text) : IsLead construct lead →
      Fails (lead ++ t) ⟨⟨0, lead.size + t.headSize⟩, .invalidUnit construct⟩
  | unexpectedCloser {c : Char} (t : Text) : c = ']' ∨ c = ')' →
      Fails ('\\' :: c :: t) ⟨⟨0, 2⟩, .unexpectedMathCloser ['\\', c]⟩
  | emptyControlSequence (t : Text) : Fails ('\\' :: t) (.point 0 .emptyControlSequence)
  | emptyPlaceholder (t : Text) : Fails ('#' :: t) (.point 0 .emptyPlaceholder)
  | placeholderTooLarge {digits : Text} (rest : Text) : (∀ c ∈ digits, c.isDigit) →
      wordSize ≤ decimal digits →
      Fails ('#' :: (digits ++ rest)) ⟨⟨0, 1 + digits.size⟩, .placeholderTooLarge⟩
  | noOpening (d : Delimiter) (t : Text) :
      Fails (d.closing :: t) (.point 0 (.noMatchingOpener d.closing))

end

section
variable {nested : RegionLexer} {math : Bool} {f : Fault}

theorem fails_of_region {e : Enclosure} {t : Text} (h : region nested math e t = .error f) :
    Fails nested math (e.opening ++ t) f := by
  unfold region at h
  split at h
  · next hs =>
    cases h
    exact .unclosed hs
  · next inner rest hs =>
    split at h
    · next f' hl =>
      cases h
      obtain ⟨rfl, he⟩ := Enclosure.split_eq_ok_iff.mp hs
      rw [← Enclosure.around_append]
      exact .inside rest he hl
    · cases h

theorem fails_of_block {t : Text} (h : block nested math t = .error f) :
    Fails nested math ('{' :: t) f := by
  unfold block at h
  split at h
  · next hr =>
    cases h
    exact fails_of_region hr
  · cases h

theorem fails_of_formula {g : Fence} {t : Text} (h : formula nested math g t = .error f) :
    Fails nested math ((Enclosure.formula g).opening ++ t) f := by
  unfold formula at h
  split at h
  · next hr =>
    cases h
    exact fails_of_region hr
  · cases h

theorem fails_of_dollar {t : Text} (h : dollar nested math t = .error f) :
    Fails nested math ('$' :: t) f := by
  unfold dollar at h
  split at h
  · exact fails_of_formula h
  · exact fails_of_formula h

theorem fails_of_bracket {t : Text} (h : bracket nested math t = .error f) :
    Fails nested math ('[' :: t) f := by
  unfold bracket at h
  split at h
  · next hs =>
    cases h
    exact .unclosed (e := .group .bracket) hs
  · split at h
    · split at h
      · next hr =>
        cases h
        exact fails_of_region hr
      · cases h
    · cases h

theorem fails_of_argument {d : Delimiter} {t : Text} (h : argument nested math d t = .error f) :
    Fails nested math (d.opening :: t) f := by
  unfold argument at h
  split at h
  · next hr =>
    cases h
    exact fails_of_region hr
  · next literal tokens hr =>
    obtain ⟨inner, rest, rfl, rfl, hi⟩ := region_eq_ok_iff.mp hr
    cases d with
    | brace => cases h
    | bracket =>
      simp only at h
      split at h
      · next hc =>
        cases h
        have hsize : ((Enclosure.group .bracket).around inner).size - 1 = 1 + inner.size := by
          simp only [Enclosure.around, Enclosure.opening, Enclosure.closing, Text.size_append]
          change 1 + (inner.size + 1) - 1 = 1 + inner.size
          omega
        rw [hsize, ← Enclosure.around_group_append]
        exact .settings rest hi hc
      · cases h

theorem fails_of_arguments {t : Text} (h : arguments nested math t = .error f) :
    Fails nested math t f := by
  fun_induction arguments nested math t generalizing f with
  | case1 => cases h
  | case2 => cases h
  | case3 c t d hd f' ha =>
    cases h
    rw [eq_opening_of_ofOpening? hd]
    exact fails_of_argument ha
  | case4 c t d hd a ha f' hr ih =>
    cases h
    obtain ⟨rest, ht, hi⟩ := argument_eq_ok_iff.mp ha
    rw [← eq_opening_of_ofOpening? hd] at ht
    have hrest := ih hr
    rw [Text.drop_length_tail hi.literal_ne_nil ht] at hrest
    rw [ht]
    exact .behindArgument hi hrest
  | case5 => cases h

theorem isOrdinary_of_isAlphanum {c : Char} (h : c.isAlphanum) : Nesting.braces.IsOrdinary c :=
  Nesting.isOrdinary_of_class (by decide) h

theorem IsName.isOrdinary {name : Text} {after : Option Char} (h : IsName after name) :
    ∀ c ∈ name, Nesting.braces.IsOrdinary c := by
  intro c hc
  cases h with
  | plain _ hrun => exact isOrdinary_of_isAlphanum (hrun.all c hc)
  | starred _ hall =>
    rcases List.mem_append.mp hc with hc | hc
    · exact isOrdinary_of_isAlphanum (hall c hc)
    · rw [List.mem_singleton.mp hc]
      exact ⟨by decide, by decide⟩

theorem isOrdinary_backslash : Nesting.braces.IsOrdinary '\\' := ⟨by decide, by decide⟩

theorem fails_of_command {c : Char} {t : Text} (hc : c.isAlphanum)
    (ha : ¬ (isLetterAccent c = true ∧ t.head? = some '{'))
    (h : command nested math (c :: t) = .error f) : Fails nested math ('\\' :: c :: t) f := by
  obtain ⟨rest, ht, hname⟩ := exists_isName_commandName hc ha
  simp only [command, ← commandName.eq_def] at h
  split at h
  · next f' hargs =>
    cases h
    rw [Text.drop_length_of_eq_append ht] at hargs
    have hlead := List.forall_mem_cons.mpr ⟨isOrdinary_backslash, hname.isOrdinary⟩
    have hfails := Fails.behind hlead (fails_of_arguments hargs)
    rw [List.cons_append, ← ht] at hfails
    exact hfails
  · cases h

theorem isOrdinary_of_isLetterAccent {c : Char} (h : isLetterAccent c) :
    Nesting.braces.IsOrdinary c ∧ c.utf8Size = 1 := by
  have key : ∀ d ∈ ['H', 'c', 'b', 'd', 'u', 'v', 't'], d.isAlphanum ∧ d.utf8Size = 1 := by
    simp only [List.forall_mem_cons, List.not_mem_nil, false_implies, implies_true]
    decide
  obtain ⟨halpha, hsize⟩ := key c (by simpa [isLetterAccent] using h)
  exact ⟨isOrdinary_of_isAlphanum halpha, hsize⟩

theorem fails_of_letterAccent {mark : Char} {t : Text} (hm : isLetterAccent mark)
    (h : letterAccent nested math mark t = .error f) :
    Fails nested math ('\\' :: mark :: '{' :: t) f := by
  unfold letterAccent at h
  split at h
  · next f' hb =>
    cases h
    obtain ⟨hordinary, hsize⟩ := isOrdinary_of_isLetterAccent hm
    have hlead : ∀ d ∈ ['\\', mark], Nesting.braces.IsOrdinary d := by
      simp [hordinary, isOrdinary_backslash]
    have hfails := Fails.behind hlead (fails_of_block hb)
    rw [Text.size_cons, Text.size_cons, hsize] at hfails
    exact hfails
  · cases h

theorem fails_of_control {c : Char} {t : Text} (h : control nested math c t = .error f) :
    Fails nested math ('\\' :: c :: t) f := by
  unfold control at h
  split at h
  · next hc =>
    subst hc
    exact fails_of_formula h
  · split at h
    · next hc =>
      subst hc
      exact fails_of_formula h
    · split at h
      · next hc =>
        cases h
        exact .unexpectedCloser t (by simpa using hc)
      · split at h
        · next hc =>
          obtain ⟨hm, hbrace⟩ := Bool.and_eq_true_iff.mp hc
          obtain ⟨t', rfl⟩ := List.head?_eq_some_iff.mp (of_decide_eq_true hbrace)
          exact fails_of_letterAccent hm h
        · next ha =>
          split at h
          · next hc => exact fails_of_command hc (by simpa using ha) h
          · split at h
            · cases h
            · cases h
              exact .emptyControlSequence (c :: t)

theorem isOrdinary_of_isLead {construct : String} {lead : Text} (h : IsLead construct lead) :
    ∀ c ∈ lead, Nesting.braces.IsOrdinary c := by
  cases h with
  | script kind =>
    intro c hc
    rw [List.mem_singleton.mp hc]
    cases kind <;> exact ⟨by decide, by decide⟩
  | accent hm =>
    have hmark := Nesting.isOrdinary_of_class (p := isSymbolAccent) (by decide) hm
    simp [hmark, isOrdinary_backslash]

theorem fails_of_applyTo {lead t : Text} {construct : String} {make : Token → Token}
    {unit : Except Fault (Option Token)} (hlead : IsLead construct lead)
    (hu : ∀ f, unit = .error f → Fails nested math t f)
    (h : applyTo lead construct make t unit = .error f) : Fails nested math (lead ++ t) f := by
  unfold applyTo at h
  split at h
  · next f' =>
    cases h
    exact .behind (isOrdinary_of_isLead hlead) (hu f' rfl)
  · cases h
    exact .invalidUnit t hlead
  · cases h

theorem eq_error_of_map_eq_error {α β : Type} {g : α → β} {r : Except Fault α}
    (h : r.map g = .error f) : r = .error f := by
  cases r with
  | error f' =>
    cases h
    rfl
  | ok a => cases h

mutual

theorem fails_of_unit {t : Text} {f : Fault} (h : unit nested math t = .error f) :
    Fails nested math t f := by
  cases t with
  | nil => cases h
  | cons c t =>
    rw [unit] at h
    split at h
    · next hc =>
      subst hc
      exact fails_of_block (eq_error_of_map_eq_error h)
    · split at h
      · next hc =>
        subst hc
        exact fails_of_backslash (eq_error_of_map_eq_error h)
      · split at h <;> cases h

theorem fails_of_backslash {t : Text} {f : Fault} (h : backslash nested math t = .error f) :
    Fails nested math ('\\' :: t) f := by
  cases t with
  | nil =>
    cases h
    exact .emptyControlSequence []
  | cons c t =>
    rw [backslash] at h
    split at h
    · next hc => exact fails_of_applyTo (.accent hc) (fun f' hu => fails_of_unit hu) h
    · exact fails_of_control h

end

theorem fails_of_script {kind : ScriptKind} {t : Text}
    (h : script nested math kind t = .error f) : Fails nested math (kind.mark :: t) f := by
  unfold script at h
  exact fails_of_applyTo (.script kind) (fun f' hu => fails_of_unit hu) h

theorem fails_of_placeholder {t : Text} (h : placeholder t = .error f) :
    Fails nested math ('#' :: t) f := by
  obtain ⟨rest, ht, hrun⟩ := Text.exists_isRun_takeWhile Char.isDigit t
  simp only [placeholder] at h
  split at h
  · cases h
    exact .emptyPlaceholder t
  · split at h
    · cases h
    · next hlarge =>
      cases h
      have hfails : Fails nested math ('#' :: (t.takeWhile Char.isDigit ++ rest)) _ :=
        .placeholderTooLarge rest hrun.all (Nat.le_of_not_lt hlarge)
      rwa [← ht] at hfails

/-- What reading a token fails with is one of the listed failures. -/
theorem fails_of_read {opened : Nat} {c : Char} {t : Text}
    (h : read nested math opened c t = .error f) : Fails nested math (c :: t) f := by
  unfold read at h
  split at h
  · exact fails_of_block h
  · exact fails_of_backslash h
  · exact fails_of_script h
  · exact fails_of_script h
  · cases h
  · cases h
  · exact fails_of_placeholder h
  · exact fails_of_dollar h
  · cases h
    exact .noOpening .brace t
  · split at h
    · cases h
    · exact fails_of_bracket h
  · split at h
    · cases h
    · cases h
      exact .noOpening .bracket t
  · cases h

end

end Lexing

end LatexTokens
