import LatexTokens.Enclosure

/-!
# Regions end at their first closing

Whether a text can stand between an opening and its closing does not depend on what follows the
closing: the scan that finds the closing reads nothing beyond it.
-/

set_option autoImplicit false

namespace LatexTokens

namespace Scan

/-- A prefix that fits into the first part of a text is a prefix of that part. -/
theorem isPrefixOf_append {l s : Text} (h : l.length ≤ s.length) (t : Text) :
    l.isPrefixOf (s ++ t) = l.isPrefixOf s := by
  rw [Bool.eq_iff_iff, List.isPrefixOf_iff_prefix, List.isPrefixOf_iff_prefix]
  constructor
  · intro hl
    exact List.prefix_of_prefix_length_le hl (List.prefix_append s t) h
  · intro hl
    exact hl.trans (List.prefix_append s t)

theorem find_append_of_find {n : Nesting} {closing : Text} (hc : closing ≠ []) {s : Scan}
    {position : Nat} {t inner rest : Text}
    (h : find n closing s position t = .ok (some (inner, rest))) (rest' : Text) :
    find n closing s position (inner ++ (closing ++ rest')) = .ok (some (inner, rest')) := by
  induction t generalizing s position inner with
  | nil =>
    rw [find] at h
    split at h <;> cases h
  | cons c t ih =>
    have ht := append_eq_of_find h
    rw [find] at h
    split at h
    · next hi =>
      cases h
      obtain ⟨d, ds, rfl⟩ := List.exists_cons_of_ne_nil hc
      have hp : (d :: ds).isPrefixOf (d :: (ds ++ rest')) = true :=
        List.isPrefixOf_iff_prefix.mpr (List.prefix_append (d :: ds) rest')
      have hd : List.drop (d :: ds).length ((d :: ds) ++ rest') = rest' := List.drop_left
      rw [List.cons_append] at hd
      simp only [List.nil_append, List.cons_append]
      rw [find, hp, (Bool.and_eq_true_iff.mp hi).1, Bool.and_self, if_pos rfl, hd]
    · next hi =>
      split at h
      · cases h
      · next s' hs =>
        split at h
        · cases h
        · cases h
        · next inner' rest₀ hf =>
          cases h
          have hrec := ih hf
          -- The closing does not start at this character, whatever follows it.
          have hprefix : closing.isPrefixOf (c :: (inner' ++ (closing ++ rest'))) =
              closing.isPrefixOf (c :: t) := by
            rw [← append_eq_of_find hf]
            have hl : closing.length ≤ (c :: (inner' ++ closing)).length := by
              simp only [List.length_cons, List.length_append]
              omega
            have h₁ := isPrefixOf_append hl rest'
            have h₂ := isPrefixOf_append hl rest
            simp only [List.cons_append, List.append_assoc] at h₁ h₂
            rw [h₁, h₂]
          rw [List.cons_append, find, hprefix, if_neg hi, hs]
          simp only [hrec]

end Scan

namespace Enclosure

theorem closing_ne_nil (e : Enclosure) : e.closing ≠ [] := by
  rcases e with d | f
  · exact List.cons_ne_nil _ _
  · cases f <;> exact List.cons_ne_nil _ _

/-- Whether a text is what the enclosure holds once its closing follows. -/
def Encloses (e : Enclosure) (inner : Text) : Prop :=
  ∀ rest, e.split (inner ++ (e.closing ++ rest)) = .ok (inner, rest)

/-- A text between the delimiters of the enclosure. -/
def around (e : Enclosure) (inner : Text) : Text := e.opening ++ (inner ++ e.closing)

theorem around_append (e : Enclosure) (inner rest : Text) :
    e.around inner ++ rest = e.opening ++ (inner ++ (e.closing ++ rest)) := by
  simp [around]

theorem around_group_append (d : Delimiter) (inner rest : Text) :
    (group d).around inner ++ rest = d.opening :: (inner ++ ((group d).closing ++ rest)) :=
  around_append _ inner rest

theorem encloses_of_split {e : Enclosure} {t inner rest : Text}
    (h : e.split t = .ok (inner, rest)) : e.Encloses inner := by
  intro rest'
  rw [split] at h
  split at h <;> cases h
  next hf => rw [split, Scan.find_append_of_find e.closing_ne_nil hf]

/-- The region ends where its closing first stands, so it does not start with one. -/
theorem Encloses.closing_not_prefix {e : Enclosure} {c : Char} {l : Text}
    (h : e.Encloses (c :: l)) (rest : Text) :
    e.closing.isPrefixOf (c :: (l ++ (e.closing ++ rest))) = false := by
  have hs := h rest
  cases hp : e.closing.isPrefixOf (c :: (l ++ (e.closing ++ rest))) with
  | false => rfl
  | true =>
    rw [split, List.cons_append, Scan.find, hp, if_pos (by rfl)] at hs
    cases hs

theorem split_eq_ok_iff {e : Enclosure} {t inner rest : Text} :
    e.split t = .ok (inner, rest) ↔ t = inner ++ (e.closing ++ rest) ∧ e.Encloses inner := by
  constructor
  · intro h
    exact ⟨(append_eq_of_split h).symm, encloses_of_split h⟩
  · intro h₀
    obtain ⟨rfl, h⟩ := h₀
    exact h rest

end Enclosure

end LatexTokens
