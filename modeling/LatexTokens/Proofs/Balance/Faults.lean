import Mathlib
import LatexTokens.Proofs.Balance.Scanning
import LatexTokens.Proofs.Fault.Failing
import LatexTokens.Proofs.Setting.Outcome

/-!
# Brace faults mean unbalanced braces

In a text with balanced braces the scan for a closing never ends with a fault of braces
(`Enclosure.not_isBraceFault_of_split`), nor does reading. What can be read is balanced, since each
token is, up to a comment that ends the text.
-/

set_option autoImplicit false

namespace LatexTokens

/-- Faults that say of a brace that it does not pair, or of any delimiter that it pairs with one
of the other kind. -/
def Cause.IsBraceFault : Cause → Prop
  | .noMatchingOpener closing => closing = '}'
  | .neverTerminated opening => opening = '{'
  | .mismatchedDelimiter .. => True
  | _ => False

@[simp] theorem Cause.isBraceFault_shift (n : Nat) (c : Cause) :
    (c.shift n).IsBraceFault ↔ c.IsBraceFault := by
  cases c <;> rfl

namespace Scan
variable {s : Scan} {depth position : Nat}

theorem not_isBraceFault_of_pop {n : Nesting} {d : Delimiter} {f : Fault}
    (hs : Stacked n depth s.opened) (hd : d ∈ (s.mode n).delimiters) (hb : d = .brace → depth ≠ 0)
    (h : s.pop d position = .error f) : ¬ f.cause.IsBraceFault := by
  have hbracket : d = .bracket → depth = 0 := by
    rintro rfl
    exact (hs.eq_zero_of_bracket hd).2
  unfold pop at h
  split at h
  · next ho =>
    cases h
    rw [ho] at hs
    cases hs
    cases d with
    | brace => exact absurd rfl (hb rfl)
    | bracket =>
      change ¬ ']' = '}'
      decide
  · next e start opened ho =>
    split at h
    · cases h
    · next hne =>
      rw [ho] at hs
      cases hs with
      | brace =>
        cases d with
        | brace => exact absurd rfl hne
        | bracket => cases hbracket rfl
      | bracket =>
        cases d with
        | brace => exact absurd rfl (hb rfl)
        | bracket => exact absurd rfl hne

end Scan

/-- The number of braces that the opening of an enclosure opens. -/
def Enclosure.braces : Enclosure → Nat
  | group .brace => 1
  | _ => 0

theorem Enclosure.foldlM_braceStep_opening (e : Enclosure) :
    e.opening.foldlM braceStep (0, false) = some (e.braces, false) := by
  rcases e with d | f
  · cases d <;> rfl
  · cases f <;> rfl

theorem Enclosure.eq_group_of_braces {e : Enclosure} (h : e.braces ≠ 0) : e = .group .brace := by
  unfold braces at h
  split at h
  · rfl
  · exact absurd rfl h

namespace Scan
variable {s : Scan} {depth position : Nat}

/-- In a text that closes the braces of the scan and the one of the enclosure, the scan for the
closing of the enclosure finds no fault of braces. -/
theorem not_isBraceFault_of_find {e : Enclosure} {t : Text} {commented : Bool}
    (hs : Stacked e.nesting depth s.opened)
    (ht : t.foldlM braceStep (depth + e.braces, s.commented) = some (0, commented)) :
    (∀ f, s.find e.nesting e.closing position t = .error f → ¬ f.cause.IsBraceFault) ∧
      (s.find e.nesting e.closing position t = .ok none → e.braces = 0) := by
  induction t generalizing s position depth with
  | nil =>
    have hzero : depth + e.braces = 0 := congrArg Prod.fst (Option.some.inj ht)
    obtain rfl : depth = 0 := by omega
    rw [find]
    split
    · refine ⟨by simp, ?_⟩
      intro _
      omega
    · next d start opened ho =>
      rw [ho] at hs
      cases hs
      refine ⟨?_, by simp⟩
      intro f h
      cases h
      change ¬ '[' = '{'
      decide
  | cons c t ih =>
    rw [find]
    split
    · simp
    · next hidle =>
      rw [List.foldlM_cons] at ht
      split
      · next f hstep =>
        refine ⟨?_, by simp⟩
        intro f' h
        cases h
        obtain ⟨hcom, d, hd, rfl, hpop⟩ := pop_of_step_eq_error hstep
        apply not_isBraceFault_of_pop hs hd ?_ hpop
        rintro rfl rfl
        -- The brace closes that of the enclosure, so the scan ends here.
        have hbraces : e.braces ≠ 0 := by
          intro h₀
          rw [hcom, h₀] at ht
          cases ht
        obtain rfl := Enclosure.eq_group_of_braces hbraces
        have ho : s.opened = [] := by
          cases hs' : s.opened with
          | nil => rfl
          | cons _ _ =>
            rw [hs'] at hs
            cases hs
            contradiction
        exact hidle (Bool.and_eq_true_iff.mpr ⟨isIdle_iff.mpr ⟨ho, hcom⟩, rfl⟩)
      · next s' hstep =>
        obtain ⟨depth', hs', hdepth⟩ := hs.passes (step_eq_ok_iff.mp hstep)
        rw [hdepth] at ht
        obtain ⟨herror, hnone⟩ := ih hs' ht
        split
        · next f hf =>
          refine ⟨?_, by simp⟩
          intro f' h
          cases h
          exact herror f hf
        · next hf => exact ⟨by simp, fun _ => hnone hf⟩
        · simp

end Scan

theorem Enclosure.not_isBraceFault_of_split {e : Enclosure} {t : Text} {f : Fault}
    {commented : Bool} (ht : (e.opening ++ t).foldlM braceStep (0, false) = some (0, commented))
    (h : e.split t = .error f) : ¬ f.cause.IsBraceFault := by
  rw [foldlM_braceStep_append e.foldlM_braceStep_opening, ← Nat.zero_add e.braces] at ht
  obtain ⟨herror, hnone⟩ := Scan.not_isBraceFault_of_find (s := {}) .nil ht
  rw [split] at h
  split at h
  · next hf =>
    cases h
    exact herror _ hf
  · next hf =>
    cases h
    rcases e with d | g
    · cases d with
      | brace => cases hnone hf
      | bracket =>
        change ¬ '[' = '{'
        decide
    · exact id
  · cases h

namespace Lexing
variable {nested : RegionLexer} {math : Bool} {next : Option Char}

theorem IsArgument.balanced {a : Argument Token} (h : IsArgument nested math a) :
    Balanced .braces false a.literal := by
  cases h with
  | required hi => exact hi.encloses.balanced.around
  | optional hi _ => exact hi.encloses.balanced.around

theorem balanced_arguments {as : List (Argument Token)} (h : ∀ a ∈ as, IsArgument nested math a) :
    Balanced .braces false (as.flatMap Argument.literal) := by
  induction as with
  | nil => exact .nil
  | cons a as ih =>
    rw [List.flatMap_cons]
    apply (h a List.mem_cons_self).balanced.append
    exact ih fun b hb => h b (List.mem_cons_of_mem a hb)

theorem IsUnit.balanced {token : Token} (h : IsUnit nested math next token) :
    Balanced .braces false token.literal := by
  induction h with
  | block hi => exact hi.encloses.balanced.around
  | command hname has _ =>
    apply Balanced.ordinary isOrdinary_backslash
    exact (Balanced.of_ordinary hname.isOrdinary).append (balanced_arguments has)
  | symbol hc =>
    apply Balanced.ordinary isOrdinary_backslash
    exact .ordinary (Nesting.isOrdinary_of_class (p := isControlSymbol) (by decide) hc) .nil
  | letterAccent hm hi =>
    apply Balanced.ordinary isOrdinary_backslash
    exact .ordinary (isOrdinary_of_isLetterAccent hm).1 hi.encloses.balanced.around
  | symbolAccent hm _ ih =>
    have hlead := isOrdinary_of_isLead (.accent hm)
    exact (Balanced.of_ordinary hlead).append ih
  | character hc =>
    rw [Token.literal_ofText]
    exact .ordinary (Nesting.isOrdinary_of_class (p := isAlphanumeric) (by decide +kernel) hc) .nil

theorem balanced_of_class {p : Char → Bool} (hp : p '%' = false ∧ p '{' = false ∧ p '}' = false)
    {t : Text} (h : Text.IsRun p t next) : Balanced .braces false t :=
  .of_ordinary fun c hc => Nesting.isOrdinary_of_class hp (h.all c hc)

theorem isPlain_class (math : Bool) :
    isPlain math '%' = false ∧ isPlain math '{' = false ∧ isPlain math '}' = false := by
  cases math <;> decide

/-- Only a comment at the end of the text leaves it in a comment. -/
theorem Stands.balanced {opened : Nat} {token : Token} (h : Stands nested math next opened token) :
    Balanced .braces false token.literal ∨
      next = none ∧ Balanced .braces true token.literal := by
  cases h with
  | unit hu _ => exact .inl hu.balanced
  | @script kind _ hu =>
    have hlead := isOrdinary_of_isLead (.script kind)
    exact .inl ((Balanced.of_ordinary hlead).append hu.balanced)
  | formula hi _ => exact .inl hi.encloses.balanced.around
  | columnAlign => exact .inl (.ordinary ⟨by decide, by decide⟩ .nil)
  | comment hbody hstop =>
    rcases hstop with rfl | ⟨rfl, hn⟩
    · exact .inl (.comment hbody .nil)
    · rw [Token.literal, List.append_nil]
      exact .inr ⟨hn, .lastComment hbody⟩
  | placeholder _ hrun _ =>
    have hdigits := balanced_of_class (by decide) hrun
    exact .inl (.ordinary ⟨by decide, by decide⟩ hdigits)
  | text hc hrun =>
    have hc := Nesting.isOrdinary_of_class (isPlain_class math) hc
    rw [Token.literal_ofText]
    exact .inl (.ordinary hc (balanced_of_class (isPlain_class math) hrun))
  | closingText _ _ hrun =>
    have hrun := balanced_of_class (isPlain_class math) hrun
    rw [Token.literal_ofText]
    exact .inl (.ordinary ⟨by decide, by decide⟩ hrun)
  | bracketText _ he _ hrun =>
    rw [Token.literal_ofText]
    exact .inl (he.balanced.around.append (balanced_of_class (isPlain_class math) hrun))
  | bracket _ hi _ => exact .inl hi.encloses.balanced.around

theorem StandInRow.isBraceBalanced {opened : Nat} {ts : List Token}
    (h : StandInRow nested math opened ts) : Text.IsBraceBalanced (ts.flatMap Token.literal) := by
  induction ts generalizing opened with
  | nil => exact ⟨false, .nil⟩
  | cons t ts ih =>
    obtain ⟨ht, hts⟩ := h
    rcases ht.balanced with hb | ⟨hn, hb⟩
    · obtain ⟨commented, hbs⟩ := ih hts
      exact ⟨commented, hb.append hbs⟩
    · rw [List.flatMap_cons, List.head?_eq_none_iff.mp hn, List.append_nil]
      exact ⟨true, hb⟩

/-- Whether a reader of regions gives no fault of braces where the braces are balanced. -/
def RespectsBraces (nested : RegionLexer) : Prop := ∀ math t f, Text.IsBraceBalanced t →
  nested math t = .error f → ¬ f.cause.IsBraceFault

theorem Fails.not_isBraceFault (hn : RespectsBraces nested) {t : Text} {f : Fault}
    {commented : Bool} (h : Fails nested math t f)
    (ht : t.foldlM braceStep (0, false) = some (0, commented)) : ¬ f.cause.IsBraceFault := by
  induction h with
  | unclosed hs => exact Enclosure.not_isBraceFault_of_split ht hs
  | inside rest he hl =>
    change ¬ (Cause.shift _ _).IsBraceFault
    rw [Cause.isBraceFault_shift]
    exact hn _ _ _ ⟨false, he.balanced.braces⟩ hl
  | settings rest _ hc =>
    have hcause := OptionValue.isOfSettings_of_ofTokens hc
    unfold Cause.IsOfSettings at hcause
    split at hcause
    · exact id
    · exact id
    · exact hcause.elim
  | @behind lead _ _ hlead _ ih =>
    change ¬ (Cause.shift _ _).IsBraceFault
    rw [Cause.isBraceFault_shift]
    apply ih
    have hb : Balanced .braces false lead := .of_ordinary hlead
    rwa [foldlM_braceStep_append (hb.foldlM_braceStep 0)] at ht
  | behindArgument ha _ ih =>
    change ¬ (Cause.shift _ _).IsBraceFault
    rw [Cause.isBraceFault_shift]
    apply ih
    rwa [foldlM_braceStep_append (ha.balanced.foldlM_braceStep 0)] at ht
  | noOpening d t =>
    cases d with
    | brace => cases ht
    | bracket =>
      change ¬ ']' = '}'
      decide
  | _ => exact id

theorem not_isBraceFault_of_tokens (hn : RespectsBraces nested) {opened : Nat} {t : Text}
    {f : Fault} {commented : Bool} (h : tokens nested math opened t = .error f)
    (ht : t.foldlM braceStep (0, false) = some (0, commented)) : ¬ f.cause.IsBraceFault := by
  fun_induction tokens nested math opened t generalizing f with
  | case1 => cases h
  | case2 opened c t f' hread =>
    cases h
    exact (fails_of_read hread).not_isBraceFault hn ht
  | case3 opened c t token hread f' hts ih =>
    cases h
    obtain ⟨rest, htoken, hstands⟩ := stands_of_read hread
    rw [Text.drop_length_tail hstands.literal_ne_nil htoken] at ih hts
    change ¬ (Cause.shift _ _).IsBraceFault
    rw [Cause.isBraceFault_shift]
    rcases hstands.balanced with hb | ⟨hnext, _⟩
    · apply ih hts
      rwa [htoken, foldlM_braceStep_append (hb.foldlM_braceStep 0)] at ht
    · rw [List.head?_eq_none_iff.mp hnext, tokens] at hts
      cases hts
  | case4 => cases h

theorem respectsBraces_lexRegion (levels : Nat) : RespectsBraces (lexRegion levels) := by
  induction levels with
  | zero =>
    intro math t f _ h
    cases h
    exact id
  | succ levels ih =>
    intro math t f ht h
    obtain ⟨commented, hb⟩ := ht
    exact not_isBraceFault_of_tokens ih h (hb.foldlM_braceStep 0)

end Lexing

/-- A region that can be read is balanced in its braces, and reading one that is, at any depth,
finds no fault of braces. -/
theorem isBraceBalanced_of_lexRegion (levels : Nat) (math : Bool) (t : Text) :
    (∀ ts, lexRegion levels math t = .ok ts → t.IsBraceBalanced) ∧
      (t.IsBraceBalanced → ∀ f, lexRegion levels math t = .error f → ¬ f.cause.IsBraceFault) := by
  constructor
  · intro ts h
    cases levels with
    | zero => cases h
    | succ levels =>
      obtain ⟨rfl, hrow⟩ := Lexing.tokens_eq_ok_iff.mp h
      exact hrow.isBraceBalanced
  · intro hb f h
    exact Lexing.respectsBraces_lexRegion levels math t f hb h

/-- A brace in a comment, and a bracket in a group that nothing opened. -/
theorem isBraceBalanced_of_lexRegion_comment :
    let good : Text := ['{', '%', '}', '\n', '}']
    let bad : Text := ['{', ']', '}']
    (tokenize good).isOk ∧ good.IsBraceBalanced ∧
      ∃ f, tokenize bad = .error f ∧ bad.IsBraceBalanced ∧ ¬ f.cause.IsBraceFault := by
  intro good bad
  have hgood : (tokenize good).isOk := by
    simp only [good]
    cbv
  have hbad : tokenize bad = .error (.point 1 (.noMatchingOpener ']')) := by
    simp only [bad]
    cbv
  have hbalanced : bad.IsBraceBalanced :=
    ⟨false, .group (d := .brace) List.mem_cons_self (.ordinary ⟨by decide, by decide⟩ .nil) .nil⟩
  refine ⟨hgood, ?_, _, hbad, hbalanced, ?_⟩
  · cases hts : tokenize good with
    | error f =>
      rw [hts] at hgood
      cases hgood
    | ok ts => exact (isBraceBalanced_of_lexRegion (maxNesting + 1) false good).1 ts hts
  · exact (isBraceBalanced_of_lexRegion (maxNesting + 1) false bad).2 hbalanced _ hbad

end LatexTokens
