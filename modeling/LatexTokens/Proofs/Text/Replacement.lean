import LatexTokens.Text.Basic

/-!
# Texts with stretches replaced

Stretches of a text are given by the indices that they start at. `Stretches.replace` puts a
reading in the place of each and keeps every other character; it looks at each index by itself.
Where stretches do not overlap, the replaced text can be computed from one stretch to the next.
-/

set_option autoImplicit false

namespace LatexTokens

namespace Text

/-- Stretches by the index that they start at, and what is read in place of them. -/
structure Stretches where
  /-- Zero where no stretch starts. -/
  length : Nat → Nat
  reading : Nat → Text

namespace Stretches

/-- What an index of a text contributes: nothing inside a stretch. -/
def contribution (s : Stretches) (t : Text) (i : Nat) : Text :=
  if 0 < s.length i then s.reading i
  else if ∃ j < i, i < j + s.length j then []
  else t[i]?.toList

/-- The text with each stretch replaced. -/
def replace (s : Stretches) (t : Text) : Text :=
  (List.range t.length).flatMap (s.contribution t)

/-- What the indices from one on contribute. -/
def replaceFrom (s : Stretches) (t : Text) (i : Nat) : Text :=
  (List.range' i (t.length - i)).flatMap (s.contribution t)

/-- Whether no stretch reaches over an index. -/
def Clear (s : Stretches) (i : Nat) : Prop := ∀ j < i, j + s.length j ≤ i

theorem replace_eq_replaceFrom (s : Stretches) (t : Text) : s.replace t = s.replaceFrom t 0 := by
  rw [replace, replaceFrom, List.range_eq_range', Nat.sub_zero]

theorem replaceFrom_length (s : Stretches) (t : Text) : s.replaceFrom t t.length = [] := by
  rw [replaceFrom, Nat.sub_self]
  rfl

theorem replaceFrom_add (s : Stretches) {t : Text} {i n : Nat} (h : i + n ≤ t.length) :
    s.replaceFrom t i =
      (List.range' i n).flatMap (s.contribution t) ++ s.replaceFrom t (i + n) := by
  have hsplit : t.length - i = n + (t.length - (i + n)) := by omega
  rw [replaceFrom, replaceFrom, hsplit, ← List.range'_append_1, List.flatMap_append]

theorem clear_zero (s : Stretches) : s.Clear 0 := by
  intro j hj
  omega

theorem Clear.add_length {s : Stretches} {i : Nat} (h : s.Clear i)
    (hin : ∀ j, i < j → j < i + s.length i → s.length j = 0) : s.Clear (i + s.length i) := by
  intro j hj
  rcases Nat.lt_trichotomy j i with hlt | rfl | hgt
  · have := h j hlt
    omega
  · exact Nat.le_refl _
  · rw [hin j hgt hj]
    omega

theorem Clear.succ {s : Stretches} {i : Nat} (h : s.Clear i) (hi : s.length i = 0) :
    s.Clear (i + 1) := by
  intro j hj
  rcases Nat.lt_succ_iff_lt_or_eq.mp hj with hlt | rfl
  · have := h j hlt
    omega
  · omega

/-- A character in no stretch is kept. -/
theorem replaceFrom_of_plain {s : Stretches} {u v : Text} {c : Char} (h : s.Clear u.length)
    (hi : s.length u.length = 0) :
    s.replaceFrom (u ++ c :: v) u.length = c :: s.replaceFrom (u ++ c :: v) (u ++ [c]).length := by
  have hnot : ¬ ∃ j < u.length, u.length < j + s.length j := by
    intro h₀
    obtain ⟨j, hj, hlt⟩ := h₀
    have := h j hj
    omega
  have hle : u.length + 1 ≤ (u ++ c :: v).length := by
    rw [List.length_append, List.length_cons]
    omega
  rw [s.replaceFrom_add hle, List.range'_one, List.flatMap_singleton, contribution,
    if_neg (by omega), if_neg hnot, List.getElem?_append_right (Nat.le_refl _), Nat.sub_self]
  rw [List.length_append]
  rfl

/-- A stretch is replaced by its reading. -/
theorem replaceFrom_of_stretch {s : Stretches} {u w v : Text} (h : s.Clear u.length)
    (hne : w ≠ []) (hlength : s.length u.length = w.length)
    (hin : ∀ m, 0 < m → m < w.length → s.length (u.length + m) = 0) :
    s.replaceFrom (u ++ (w ++ v)) u.length =
        s.reading u.length ++ s.replaceFrom (u ++ (w ++ v)) (u ++ w).length ∧
      s.Clear (u ++ w).length := by
  have hpos : 0 < w.length := List.length_pos_iff.mpr hne
  have hzero : ∀ j, u.length < j → j < u.length + s.length u.length → s.length j = 0 := by
    intro j hj hlt
    obtain ⟨m, rfl⟩ := Nat.exists_eq_add_of_lt hj
    exact hin (m + 1) (Nat.succ_pos m) (by omega)
  have hle : u.length + w.length ≤ (u ++ (w ++ v)).length := by
    simp only [List.length_append]
    omega
  have hclear := h.add_length hzero
  rw [List.length_append, ← hlength]
  refine ⟨?_, hclear⟩
  rw [← hlength] at hle hpos
  rw [s.replaceFrom_add hle]
  congr 1
  obtain ⟨n, hn⟩ := Nat.exists_eq_succ_of_ne_zero (Nat.ne_of_gt hpos)
  have hrest : (List.range' (u.length + 1) n).flatMap (s.contribution (u ++ (w ++ v))) = [] := by
    rw [List.flatMap_eq_nil_iff]
    intro j hj
    obtain ⟨hlt, hj⟩ := List.mem_range'_1.mp hj
    have hj' : j < u.length + s.length u.length := by omega
    rw [contribution, hzero j hlt hj', if_neg (Nat.lt_irrefl 0), if_pos ⟨_, hlt, hj'⟩]
  rw [hn, Nat.succ_eq_add_one, List.range'_succ, List.flatMap_cons, hrest, List.append_nil,
    contribution, if_pos hpos]

/-- Characters in no stretch are kept, one after the other. -/
theorem replaceFrom_of_plain_run {s : Stretches} {u w v : Text} (h : s.Clear u.length)
    (hw : ∀ m < w.length, s.length (u.length + m) = 0) :
    s.replaceFrom (u ++ (w ++ v)) u.length =
        w ++ s.replaceFrom (u ++ (w ++ v)) (u ++ w).length ∧
      s.Clear (u ++ w).length := by
  induction w generalizing u with
  | nil =>
    rw [List.append_nil]
    exact ⟨rfl, h⟩
  | cons c w ih =>
    have hi : s.length u.length = 0 := hw 0 (Nat.zero_lt_succ _)
    have hc : s.Clear (u ++ [c]).length := by
      rw [List.length_append]
      exact h.succ hi
    obtain ⟨hrun, hclear⟩ := ih hc (by
      intro m hm
      have hm' := hw (m + 1) (Nat.succ_lt_succ hm)
      rw [List.length_append, List.length_singleton, Nat.add_assoc, Nat.add_comm 1 m]
      exact hm')
    have happend : u ++ [c] ++ w = u ++ c :: w := by simp
    have hwhole : u ++ [c] ++ (w ++ v) = u ++ (c :: w ++ v) := by simp
    rw [hwhole, happend] at hrun
    rw [happend] at hclear
    refine ⟨?_, hclear⟩
    rw [List.cons_append] at hrun ⊢
    rw [replaceFrom_of_plain h hi, hrun, List.cons_append]

end Stretches

end Text

end LatexTokens
