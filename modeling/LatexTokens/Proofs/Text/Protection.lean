import LatexTokens.Special

/-!
# Protected texts read back

`Text.asWritten` undoes `Text.protect` on every text that is written directly: the protected form
shows where a sentinel stands for a sequence only if the text held no sentinel itself, and line
continuations are lost.
-/

set_option autoImplicit false

namespace LatexTokens

namespace Text

/-- Whether a text has no sentinels and no line continuations. -/
structure IsDirect (t : Text) : Prop where
  noSentinel : ∀ c ∈ t, isSentinel c = false
  noContinuation : ¬ ['\\', '\n'] <:+: t
  noReturnContinuation : ¬ ['\\', '\r', '\n'] <:+: t

theorem IsDirect.of_suffix {s t : Text} (h : IsDirect t) (hs : s <:+ t) : IsDirect s where
  noSentinel c hc := h.noSentinel c (hs.subset hc)
  noContinuation hc := h.noContinuation (hc.trans hs.isInfix)
  noReturnContinuation hc := h.noReturnContinuation (hc.trans hs.isInfix)

theorem IsDirect.tail {c : Char} {t : Text} (h : IsDirect (c :: t)) : IsDirect t :=
  h.of_suffix (List.suffix_cons c t)

theorem IsDirect.drop {t : Text} (h : IsDirect t) (n : Nat) : IsDirect (t.drop n) :=
  h.of_suffix (List.drop_suffix n t)

theorem IsDirect.continuation?_eq_none {t : Text} (h : IsDirect ('\\' :: t)) :
    continuation? t = none := by
  unfold continuation?
  split
  · next t => exact absurd ⟨[], t, rfl⟩ h.noReturnContinuation
  · next t => exact absurd ⟨[], t, rfl⟩ h.noContinuation
  · rfl

theorem asWritten_cons_of_not_isSentinel {c : Char} (h : isSentinel c = false) (t : Text) :
    asWritten (c :: t) = c :: asWritten t := by
  have hc : Special.ofSentinel? c = none := by simpa [isSentinel] using h
  simp [asWritten, hc]

theorem asWritten_sentinel_cons (s : Special) (t : Text) :
    asWritten (s.sentinel :: t) = s.sequence ++ asWritten t := by
  simp [asWritten]

/-- A directly written text is read back from its protected form. -/
theorem asWritten_protect {t : Text} (h : IsDirect t) : asWritten (protect t) = t := by
  fun_induction protect t with
  | case1 => rfl
  | case2 t s hs ih =>
    rw [asWritten_sentinel_cons, ih (h.tail.drop _)]
    exact Special.sequence_append_of_read? hs
  | case3 t hs line hline =>
    cases h.continuation?_eq_none.symm.trans hline
  | case4 t hs hline ih =>
    rw [asWritten_cons_of_not_isSentinel rfl, ih h.tail]
  | case5 c t hc ih =>
    rw [asWritten_cons_of_not_isSentinel (h.noSentinel c List.mem_cons_self), ih h.tail]

end Text

end LatexTokens
