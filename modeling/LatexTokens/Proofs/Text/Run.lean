import LatexTokens.Text.Basic

/-!
# Runs of characters

A run is a stretch of characters of one kind that the next character, if there is one, does not
continue. The longest stretch at the start of a text is the only run there.
-/

set_option autoImplicit false

namespace LatexTokens

namespace Text

theorem drop_length_of_eq_append {s l rest : Text} (h : s = l ++ rest) :
    s.drop l.length = rest := by
  rw [h, List.drop_left]

/-- What a literal leaves of a text, of which the first character is taken off already. -/
theorem drop_length_tail {c : Char} {t l rest : Text} (hl : l ≠ []) (h : c :: t = l ++ rest) :
    t.drop l.tail.length = rest := by
  obtain ⟨d, l, rfl⟩ := List.exists_cons_of_ne_nil hl
  rw [List.cons_append, List.cons.injEq] at h
  exact drop_length_of_eq_append h.2

/-- Whether all characters of a text are of a kind that the next character is not of. -/
structure IsRun (p : Char → Bool) (run : Text) (next : Option Char) : Prop where
  all : ∀ c ∈ run, p c = true
  stop : ∀ c ∈ next, p c = false

theorem exists_isRun_takeWhile (p : Char → Bool) (t : Text) :
    ∃ rest, t = t.takeWhile p ++ rest ∧ IsRun p (t.takeWhile p) rest.head? := by
  refine ⟨t.dropWhile p, List.takeWhile_append_dropWhile.symm, ?_, ?_⟩
  · intro c hc
    exact List.all_eq_true.mp List.all_takeWhile c hc
  · intro c hc
    have h := List.head?_dropWhile_not p t
    rw [Option.mem_def.mp hc] at h
    simpa using h

theorem IsRun.takeWhile_append {p : Char → Bool} {run rest : Text}
    (h : IsRun p run rest.head?) : (run ++ rest).takeWhile p = run := by
  rw [List.takeWhile_append_of_pos h.all]
  cases rest with
  | nil => simp
  | cons c rest =>
    have hc : p c = false := h.stop c rfl
    simp [hc]

end Text

end LatexTokens
