import LatexTokens.Proofs.Fault.Failing
import LatexTokens.Proofs.Setting.Outcome

/-!
# Faults of reading

A fault of reading a token is placed in the text from the first character of the token on. A reader
of regions places its faults in the region, or says of the whole region that it is nested too deep,
which is then seen from the delimiters around the region.
-/

set_option autoImplicit false

namespace LatexTokens

namespace Lexing

/-- Whether the faults that a reader of regions gives are placed in the region, apart from the
one that finds it nested too deep. -/
def PlacesFaults (nested : RegionLexer) : Prop := ∀ math t f, nested math t = .error f →
  f = ⟨⟨0, t.size⟩, .nestingTooDeep maxNesting⟩ ∨ f.IsPlacedIn t

section
variable {nested : RegionLexer} (hn : PlacesFaults nested) {math : Bool} {f : Fault}
include hn

theorem Fails.isPlacedIn {t : Text} (h : Fails nested math t f) : f.IsPlacedIn t := by
  induction h with
  | unclosed hs => exact Enclosure.isPlacedIn_of_split hs
  | @inside e inner f rest he hl =>
    rw [Enclosure.around_append]
    rcases hn _ _ _ hl with rfl | hp
    · have hsuits : (Cause.nestingTooDeep maxNesting).Suits e.opening inner
          (e.closing ++ rest) :=
        ⟨rfl, e, List.suffix_rfl, List.prefix_append _ _⟩
      have hp := Fault.IsPlacedIn.of_suits hsuits
      rw [Fault.shift, Span.shift, Nat.zero_add, Nat.add_comm]
      exact hp
    · exact (hp.append (e.closing ++ rest)).shift e.opening
  | @settings inner tokens c rest _ hc =>
    have hsuits : c.Suits ['['] inner (']' :: rest) := by
      have hcause := OptionValue.isOfSettings_of_ofTokens hc
      unfold Cause.IsOfSettings at hcause
      split at hcause
      · exact ⟨List.suffix_rfl, rest, rfl⟩
      · exact ⟨List.suffix_rfl, rest, rfl⟩
      · cases hcause
    rw [Enclosure.around_append]
    exact .of_suits hsuits
  | @behind lead _ _ _ _ ih => exact ih.shift lead
  | @behindArgument a _ _ _ _ ih => exact ih.shift a.literal
  | @invalidUnit construct lead t hlead =>
    have hsuits : (Cause.invalidUnit construct).Suits [] (lead ++ t.take 1) (t.drop 1) :=
      ⟨lead, hlead, List.prefix_append _ _⟩
    have hp := Fault.IsPlacedIn.of_prefix hsuits
    have hsize : (lead ++ t.take 1).size = lead.size + t.headSize := by
      rw [Text.size_append]
      cases t <;> rfl
    rwa [hsize, List.append_assoc, List.take_append_drop] at hp
  | @unexpectedCloser c t hc =>
    have hsize : Text.size ['\\', c] = 2 := by rcases hc with rfl | rfl <;> rfl
    have hsuits : (Cause.unexpectedMathCloser ['\\', c]).Suits [] ['\\', c] t := rfl
    have hp := Fault.IsPlacedIn.of_prefix hsuits
    rwa [hsize] at hp
  | emptyControlSequence t => exact .of_head rfl rfl
  | emptyPlaceholder t => exact .of_head rfl rfl
  | @placeholderTooLarge digits rest hdigits hlarge =>
    have hsuits : Cause.placeholderTooLarge.Suits [] ('#' :: digits) rest :=
      ⟨digits, rfl, hdigits, hlarge⟩
    exact Fault.IsPlacedIn.of_prefix hsuits
  | noOpening d t => exact .of_head (by cases d <;> rfl) rfl

theorem isPlacedIn_of_tokens {opened : Nat} {t : Text}
    (h : tokens nested math opened t = .error f) : f.IsPlacedIn t := by
  fun_induction tokens nested math opened t generalizing f with
  | case1 => cases h
  | case2 opened c t f' hread =>
    cases h
    exact (fails_of_read hread).isPlacedIn hn
  | case3 opened c t token hread f' hts ih =>
    cases h
    obtain ⟨rest, ht, hstands⟩ := stands_of_read hread
    have hp := ih hts
    rw [Text.drop_length_tail hstands.literal_ne_nil ht] at hp
    rw [ht]
    exact hp.shift token.literal
  | case4 => cases h

end

/-- Regions place their faults, whatever their depth. -/
theorem placesFaults_lexRegion (levels : Nat) : PlacesFaults (lexRegion levels) := by
  induction levels with
  | zero =>
    intro math t f h
    cases h
    exact .inl rfl
  | succ levels ih =>
    intro math t f h
    exact .inr (isPlacedIn_of_tokens ih h)

end Lexing

theorem isPlacedIn_of_tokenAt? {b : Text} {p : Nat} {f : Fault} (h : tokenAt? b p = .error f) :
    ∃ g : Fault, f = g.shift (b.before p).size ∧ g.IsPlacedIn (b.after p) := by
  unfold tokenAt? at h
  split at h
  · next g hread =>
    cases h
    refine ⟨g, ?_, ?_⟩
    · rw [Text.size_before]
    · cases ht : b.after p with
      | nil =>
        rw [ht] at hread
        cases hread
      | cons c t =>
        rw [ht] at hread
        have hg := Lexing.eq_error_of_map_eq_error hread
        exact (Lexing.fails_of_read hg).isPlacedIn (Lexing.placesFaults_lexRegion maxNesting)
  · cases h

end LatexTokens
