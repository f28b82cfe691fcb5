import LatexTokens.Text.Basic

/-!
# Character boundaries

An offset is a boundary of a text if it is the size of what stands before it. Two ways to cut
one text are compared by the sizes of their first parts.
-/

set_option autoImplicit false

namespace LatexTokens

namespace Text

/-- Whether an offset falls between two characters, or at an end. -/
def IsBoundary (t : Text) (p : Nat) : Prop := t.floor p = p

instance (t : Text) (p : Nat) : Decidable (t.IsBoundary p) := inferInstanceAs (Decidable (_ = _))

theorem size_pos_of_ne_nil {t : Text} (h : t ≠ []) : 0 < t.size := by
  have h₁ := length_le_size t
  have h₂ := List.length_pos_iff.mpr h
  omega

theorem floor_size_append (s t : Text) : (s ++ t).floor s.size = s.size := by
  rw [← size_before, before_size_append]

theorem isBoundary_size_append (s t : Text) : (s ++ t).IsBoundary s.size := floor_size_append s t

theorem isBoundary_iff {t : Text} {p : Nat} :
    t.IsBoundary p ↔ ∃ u v, t = u ++ v ∧ u.size = p := by
  constructor
  · intro h
    exact ⟨t.before p, t.after p, (before_append_after p t).symm, (size_before p t).trans h⟩
  · intro h₀
    obtain ⟨u, v, rfl, rfl⟩ := h₀
    exact isBoundary_size_append u v

theorem isBoundary_floor (t : Text) (p : Nat) : t.IsBoundary (t.floor p) :=
  isBoundary_iff.mpr ⟨t.before p, t.after p, (before_append_after p t).symm, size_before p t⟩

@[simp] theorem floor_floor (t : Text) (p : Nat) : t.floor (t.floor p) = t.floor p :=
  isBoundary_floor t p

theorem after_floor (t : Text) (p : Nat) : t.after (t.floor p) = t.after p := by
  have h := after_size_append (t.before p) (t.after p)
  rwa [size_before, before_append_after] at h

theorem IsBoundary.size_before {t : Text} {p : Nat} (h : t.IsBoundary p) :
    (t.before p).size = p := (Text.size_before p t).trans h

theorem IsBoundary.min {t : Text} {p q : Nat} (hp : t.IsBoundary p) (hq : t.IsBoundary q) :
    t.IsBoundary (min p q) := by
  rcases Nat.le_total p q with h | h
  · rwa [Nat.min_eq_left h]
  · rwa [Nat.min_eq_right h]

theorem IsBoundary.max {t : Text} {p q : Nat} (hp : t.IsBoundary p) (hq : t.IsBoundary q) :
    t.IsBoundary (max p q) := by
  rcases Nat.le_total p q with h | h
  · rwa [Nat.max_eq_right h]
  · rwa [Nat.max_eq_left h]

/-- Of two first parts of one text the one that is not larger starts the other. -/
theorem exists_append_of_size_le {u v x y : Text} (h : u ++ v = x ++ y) (hs : x.size ≤ u.size) :
    ∃ z, u = x ++ z ∧ y = z ++ v := by
  rcases List.append_eq_append_iff.mp h with ⟨z, hx, hv⟩ | ⟨z, hu, hy⟩
  · have hz : z = [] := by
      rw [hx, size_append] at hs
      exact size_eq_zero.mp (by omega)
    subst hz
    exact ⟨[], by simpa using hx.symm, by simpa using hv.symm⟩
  · exact ⟨z, hu, hy⟩

/-- A smaller first part leaves at least one character of the larger one. -/
theorem exists_append_cons_of_size_lt {u v x y : Text} (h : u ++ v = x ++ y)
    (hs : x.size < u.size) : ∃ c z, u = x ++ c :: z ∧ y = c :: (z ++ v) := by
  obtain ⟨z, hu, hy⟩ := exists_append_of_size_le h (Nat.le_of_lt hs)
  cases z with
  | nil =>
    rw [hu, List.append_nil] at hs
    exact absurd hs (Nat.lt_irrefl _)
  | cons c z => exact ⟨c, z, hu, hy⟩

theorem before_zero (t : Text) : t.before 0 = [] := before_size_append [] t

/-- The first byte is a character or a part of one. -/
theorem before_one (t : Text) : t.before 1 = [] ∨ ∃ c rest, t = c :: rest ∧ t.before 1 = [c] := by
  cases t with
  | nil => exact .inl rfl
  | cons c t =>
    rw [before]
    split
    · have hc : 1 - c.utf8Size = 0 := Nat.sub_eq_zero_of_le c.utf8Size_pos
      exact .inr ⟨c, t, rfl, by rw [hc, before_zero]⟩
    · exact .inl rfl

theorem before_size_add_append (u v : Text) (n : Nat) :
    (u ++ v).before (u.size + n) = u ++ v.before n := by
  induction u with
  | nil => rw [List.nil_append, size_nil, Nat.zero_add, List.nil_append]
  | cons c u ih =>
    rw [List.cons_append, size_cons, Nat.add_assoc, before, if_pos (Nat.le_add_right _ _),
      Nat.add_sub_cancel_left, ih, List.cons_append]

end Text

end LatexTokens
