import Mathlib
import LatexTokens.Proofs.Fault.Reading

/-!
# Faults point at the text they are about

A fault of reading the token at an offset, from whatever depth of nesting it comes, points into
the whole text: its span lies behind the offset, falls on character boundaries, and marks what
the cause names.
-/

set_option autoImplicit false

namespace LatexTokens

/-- The characters in the range. -/
def Span.textIn (s : Span) (b : Text) : Text := (b.before s.stop).after s.start

/-- What the place of a fault has to do with the text, if reading started at an offset. -/
structure Fault.PointsInto (b : Text) (p : Nat) (f : Fault) : Prop where
  behind : p ≤ f.span.start
  ordered : f.span.start ≤ f.span.stop
  within : f.span.stop ≤ b.size
  startBoundary : b.IsBoundary f.span.start
  stopBoundary : b.IsBoundary f.span.stop
  labels : ∀ l ∈ f.labels, p ≤ l.span.start ∧ l.span.start ≤ l.span.stop ∧ l.span.stop ≤ b.size
  /-- The group that a closing does not match starts between the offset and the closing. -/
  opening : ∀ o q c, f.cause = .mismatchedDelimiter o q c → p ≤ q ∧ q < f.span.start
  suits : f.cause.Suits (b.before f.span.start) (f.span.textIn b) (b.after f.span.stop)

namespace Fault

theorem le_position_of_shift {g : Fault} {n q : Nat} {o c : Char}
    (h : (g.shift n).cause = .mismatchedDelimiter o q c) : n ≤ q := by
  obtain ⟨span, cause⟩ := g
  cases cause <;> cases h
  exact Nat.le_add_left n _

theorem lt_start_of_suits {before marked after : Text} {o c : Char} {q : Nat}
    (h : (Cause.mismatchedDelimiter o q c).Suits before marked after) : q + 1 ≤ before.size := by
  obtain ⟨_, x, y, rfl, rfl⟩ := h
  have ho := o.utf8Size_pos
  rw [Text.size_append, Text.size_cons]
  omega

/-- A placed fault points into its text from any offset that it does not reach back over. -/
theorem IsPlacedIn.pointsInto {b : Text} {p : Nat} {f : Fault} (h : f.IsPlacedIn b)
    (hstart : p ≤ f.span.start)
    (hopening : ∀ o q c, f.cause = .mismatchedDelimiter o q c → p ≤ q) : f.PointsInto b p := by
  obtain ⟨before, marked, after, rfl, hspan, hsuits⟩ := h
  obtain ⟨span, cause⟩ := f
  simp only at hspan hsuits hstart hopening
  have hstop : before.size + marked.size = (before ++ marked).size := by rw [Text.size_append]
  have hb : before ++ (marked ++ after) = (before ++ marked) ++ after := by
    rw [List.append_assoc]
  have hsize : (before ++ (marked ++ after)).size = before.size + marked.size + after.size := by
    rw [Text.size_append, Text.size_append, Nat.add_assoc]
  have hposition : ∀ o q c, cause = .mismatchedDelimiter o q c → q + 1 ≤ before.size := by
    intro o q c h₀
    subst h₀
    exact lt_start_of_suits hsuits
  subst hspan
  refine {
    behind := hstart
    ordered := Nat.le_add_right _ _
    within := ?_
    startBoundary := Text.isBoundary_size_append before _
    stopBoundary := ?_
    labels := ?_
    opening := ?_
    suits := ?_ }
  · rw [hsize]
    exact Nat.le_add_right _ _
  · rw [hstop, hb]
    exact Text.isBoundary_size_append _ after
  · intro l hl
    have hl : l.span = ⟨before.size, before.size + marked.size⟩ ∨
        ∃ o q c, cause = .mismatchedDelimiter o q c ∧ l.span = ⟨q, q + 1⟩ := by
      unfold labels at hl
      split at hl
      · next o q c hc =>
        rcases List.mem_cons.mp hl with rfl | hl
        · exact .inl rfl
        · cases List.mem_singleton.mp hl
          exact .inr ⟨o, q, c, hc, rfl⟩
      all_goals
        cases List.mem_singleton.mp hl
        exact .inl rfl
    rcases hl with hl | ⟨o, q, c, hc, hl⟩
    · rw [hl, hsize]
      exact ⟨hstart, Nat.le_add_right _ _, Nat.le_add_right _ _⟩
    · have hq := hposition o q c hc
      rw [hl, hsize]
      refine ⟨hopening o q c hc, Nat.le_add_right _ _, ?_⟩
      simp only
      omega
  · intro o q c hc
    exact ⟨hopening o q c hc, hposition o q c hc⟩
  · have hafter : (before ++ (marked ++ after)).after (before.size + marked.size) = after := by
      rw [hstop, hb, Text.after_size_append]
    have hmarked : Span.textIn ⟨before.size, before.size + marked.size⟩
        (before ++ (marked ++ after)) = marked := by
      rw [Span.textIn, hstop, hb, Text.before_size_append, Text.after_size_append]
    rw [hmarked, hafter, Text.before_size_append]
    exact hsuits

end Fault

/-- A fault of reading the token at an offset points into the text behind the offset. -/
theorem pointsInto_of_tokenAt? {b : Text} {p : Nat} {f : Fault} (h : tokenAt? b p = .error f) :
    f.PointsInto b (b.floor p) := by
  obtain ⟨g, rfl, hg⟩ := isPlacedIn_of_tokenAt? h
  have hplaced := hg.shift (b.before p)
  rw [Text.before_append_after] at hplaced
  rw [← Text.size_before]
  apply hplaced.pointsInto
  · exact Nat.le_add_left _ _
  · intro o q c hc
    exact Fault.le_position_of_shift hc

/-- Two brackets in a group behind a letter of two bytes, the inner one never closed. -/
theorem pointsInto_of_tokenAt?_brackets :
    let b : Text := ['é', '{', 'x', '[', '[', '}']
    let f : Fault := ⟨⟨5, 6⟩, .neverTerminated '['⟩
    tokenAt? b 2 = .error f ∧ f.PointsInto b (b.floor 2) := by
  intro b f
  have h : tokenAt? b 2 = .error f := by
    simp only [b, f]
    cbv
  exact ⟨h, pointsInto_of_tokenAt? h⟩

end LatexTokens
