import LatexTokens.Proofs.Balance.Grammar

/-!
# Steps of the scan for a closing

`Scan.step_eq_ok_iff` and `Scan.pop_of_step_eq_error` say all that a step of the scan can do.
-/

set_option autoImplicit false

namespace LatexTokens

namespace Scan

/-- Which delimiters open groups at this point of a region. -/
def mode (n : Nesting) (s : Scan) : Nesting :=
  if s.bracketsNest n then .bracesAndBrackets else .braces

theorem bracket_mem_mode {n : Nesting} {s : Scan} :
    Delimiter.bracket ∈ (s.mode n).delimiters ↔ s.bracketsNest n = true := by
  unfold mode
  cases s.bracketsNest n <;> simp [Nesting.delimiters]

/-- What passing over a character at a position makes of a scan. -/
inductive Passes (n : Nesting) (position : Nat) (s : Scan) : Char → Scan → Prop where
  | inComment {c : Char} : s.commented = true → c ≠ '\n' → Passes n position s c s
  | endComment : s.commented = true → Passes n position s '\n' { s with commented := false }
  | startComment : s.commented = false → Passes n position s '%' { s with commented := true }
  | opening {d : Delimiter} : s.commented = false → d ∈ (s.mode n).delimiters →
      Passes n position s d.opening (s.push d position)
  | closing {d : Delimiter} {start : Nat} {opened : List (Delimiter × Nat)} :
      s.commented = false → d ∈ (s.mode n).delimiters → s.opened = (d, start) :: opened →
      Passes n position s d.closing { s with opened }
  | ordinary {c : Char} : s.commented = false → (s.mode n).IsOrdinary c → Passes n position s c s

section
variable {n : Nesting} {position : Nat} {s s' : Scan}

theorem pop_eq_ok_iff {d : Delimiter} : s.pop d position = .ok s' ↔
    ∃ start opened, s.opened = (d, start) :: opened ∧ s' = { s with opened } := by
  unfold pop
  constructor
  · intro h
    split at h
    · cases h
    · next e start opened ho =>
      split at h <;> cases h
      next he =>
      subst he
      exact ⟨start, opened, ho, rfl⟩
  · intro h₀
    obtain ⟨start, opened, ho, rfl⟩ := h₀
    simp only [ho, if_true]

theorem step_of_commented (hs : s.commented = true) (c : Char) :
    s.step n position c = .ok { s with commented := c != '\n' } := by
  rw [step, if_pos hs]

theorem step_in_comment (hs : s.commented = true) {c : Char} (hc : c ≠ '\n') :
    s.step n position c = .ok s := by
  obtain ⟨opened, commented⟩ := s
  obtain rfl : commented = true := hs
  rw [step_of_commented rfl, bne_iff_ne.mpr hc]

theorem step_opening {d : Delimiter} (hs : s.commented = false)
    (hd : d ∈ (s.mode n).delimiters) :
    s.step n position d.opening = .ok (s.push d position) := by
  cases d with
  | brace => simp [step, hs, Delimiter.opening]
  | bracket => simp [step, hs, Delimiter.opening, bracket_mem_mode.mp hd]

theorem step_closing {d : Delimiter} (hs : s.commented = false)
    (hd : d ∈ (s.mode n).delimiters) :
    s.step n position d.closing = s.pop d position := by
  cases d with
  | brace => simp [step, hs, Delimiter.closing]
  | bracket => simp [step, hs, Delimiter.closing, bracket_mem_mode.mp hd]

theorem step_of_ordinary {c : Char} (hs : s.commented = false) (hc : (s.mode n).IsOrdinary c) :
    s.step n position c = .ok s := by
  obtain ⟨h₁, h₂⟩ := hc.2 .brace (s.mode n).brace_mem_delimiters
  have hb : s.bracketsNest n = true → c ≠ '[' ∧ c ≠ ']' :=
    fun h => hc.2 .bracket (bracket_mem_mode.mpr h)
  cases hn : s.bracketsNest n with
  | false => simp_all [step, Delimiter.opening, Delimiter.closing, hc.1]
  | true => simp_all [step, Delimiter.opening, Delimiter.closing, hc.1]

/-- A character outside comments starts one, delimits a group or does nothing. -/
theorem char_cases (m : Nesting) (c : Char) :
    c = '%' ∨ (∃ d ∈ m.delimiters, c = d.opening ∨ c = d.closing) ∨ m.IsOrdinary c := by
  by_cases hp : c = '%'
  · exact .inl hp
  · by_cases hd : ∃ d ∈ m.delimiters, c = d.opening ∨ c = d.closing
    · exact .inr (.inl hd)
    · refine .inr (.inr ⟨hp, ?_⟩)
      intro d hm
      constructor
      · intro h
        exact hd ⟨d, hm, .inl h⟩
      · intro h
        exact hd ⟨d, hm, .inr h⟩

theorem step_eq_ok_iff {c : Char} : s.step n position c = .ok s' ↔ s.Passes n position c s' := by
  constructor
  · intro h
    cases hs : s.commented with
    | true =>
      by_cases hc : c = '\n'
      · subst hc
        rw [step_of_commented hs] at h
        cases h
        exact .endComment hs
      · rw [step_in_comment hs hc] at h
        cases h
        exact .inComment hs hc
    | false =>
      rcases char_cases (s.mode n) c with rfl | ⟨d, hd, rfl | rfl⟩ | hc
      · rw [step, hs] at h
        cases h
        exact .startComment hs
      · rw [step_opening hs hd] at h
        cases h
        exact .opening hs hd
      · rw [step_closing hs hd] at h
        obtain ⟨start, opened, ho, rfl⟩ := pop_eq_ok_iff.mp h
        exact .closing hs hd ho
      · rw [step_of_ordinary hs hc] at h
        cases h
        exact .ordinary hs hc
  · intro h
    cases h with
    | inComment hs hc => exact step_in_comment hs hc
    | endComment hs => exact step_of_commented hs '\n'
    | startComment hs =>
      rw [step, hs]
      rfl
    | opening hs hd => exact step_opening hs hd
    | closing hs hd ho =>
      rw [step_closing hs hd]
      exact pop_eq_ok_iff.mpr ⟨_, _, ho, rfl⟩
    | ordinary hs hc => exact step_of_ordinary hs hc

/-- Only a closing delimiter can fail to pass. -/
theorem pop_of_step_eq_error {c : Char} {f : Fault} (h : s.step n position c = .error f) :
    s.commented = false ∧
      ∃ d ∈ (s.mode n).delimiters, c = d.closing ∧ s.pop d position = .error f := by
  cases hs : s.commented with
  | true =>
    rw [step_of_commented hs] at h
    cases h
  | false =>
    refine ⟨rfl, ?_⟩
    rcases char_cases (s.mode n) c with rfl | ⟨d, hd, rfl | rfl⟩ | hc
    · rw [step, hs] at h
      cases h
    · rw [step_opening hs hd] at h
      cases h
    · rw [step_closing hs hd] at h
      exact ⟨d, hd, rfl, h⟩
    · rw [step_of_ordinary hs hc] at h
      cases h

end

end Scan

end LatexTokens
