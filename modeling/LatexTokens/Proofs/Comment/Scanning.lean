import LatexTokens.Proofs.Balance.Passing
import LatexTokens.Proofs.Comment.Relation
import LatexTokens.Proofs.Lexing.Closing

/-!
# The scan for a closing passes over comments

In two texts that differ in one comment an enclosure ends at the same place: in front of the
comment, or behind it. The scans have the same delimiters open throughout, from the comment on at
other positions.
-/

set_option autoImplicit false

namespace LatexTokens

namespace Scan

/-- Whether two scans differ in positions only. -/
structure Alike (s t : Scan) : Prop where
  opened : s.opened.map Prod.fst = t.opened.map Prod.fst
  commented : s.commented = t.commented

namespace Alike
variable {s t : Scan}

theorem bracketsNest_eq (h : s.Alike t) (n : Nesting) : s.bracketsNest n = t.bracketsNest n := by
  obtain ⟨opened, _⟩ := s
  obtain ⟨opened', _⟩ := t
  have ho := h.opened
  cases n with
  | braces => rfl
  | bracesAndBrackets =>
    cases opened with
    | nil =>
      cases opened' with
      | nil => rfl
      | cons => cases ho
    | cons e es =>
      cases opened' with
      | nil => cases ho
      | cons e' es' =>
        obtain ⟨d, _⟩ := e
        obtain ⟨d', _⟩ := e'
        obtain rfl : d = d' := (List.cons.inj ho).1
        cases d <;> rfl

theorem mode_eq (h : s.Alike t) (n : Nesting) : s.mode n = t.mode n := by
  rw [mode, mode, h.bracketsNest_eq n]

theorem isIdle_eq (h : s.Alike t) : s.isIdle = t.isIdle := by
  have hempty := congrArg List.isEmpty h.opened
  rw [List.isEmpty_map, List.isEmpty_map] at hempty
  rw [isIdle, isIdle, h.commented, hempty]

theorem push (h : s.Alike t) (d : Delimiter) (p q : Nat) : (s.push d p).Alike (t.push d q) := by
  constructor
  · exact congrArg (d :: ·) h.opened
  · exact h.commented

theorem pop (h : s.Alike t) (d : Delimiter) (p q : Nat) :
    Agree False Alike (s.pop d p) (t.pop d q) := by
  obtain ⟨opened, commented⟩ := s
  obtain ⟨opened', commented'⟩ := t
  obtain ⟨ho, hc⟩ := h
  cases opened with
  | nil =>
    cases opened' with
    | nil => trivial
    | cons => cases ho
  | cons e es =>
    cases opened' with
    | nil => cases ho
    | cons e' es' =>
      obtain ⟨he, hes⟩ := List.cons.inj ho
      simp only [Scan.pop, he]
      split
      · exact ⟨hes, hc⟩
      · trivial

theorem step (h : s.Alike t) (n : Nesting) (p q : Nat) (c : Char) :
    Agree False Alike (s.step n p c) (t.step n q c) := by
  cases hs : s.commented with
  | true =>
    rw [step_of_commented hs, step_of_commented (h.commented ▸ hs)]
    exact ⟨h.opened, rfl⟩
  | false =>
    have ht : t.commented = false := h.commented ▸ hs
    rcases char_cases (s.mode n) c with rfl | ⟨d, hd, rfl | rfl⟩ | hc
    · rw [step_eq_ok_iff.mpr (.startComment hs), step_eq_ok_iff.mpr (.startComment ht)]
      exact ⟨h.opened, rfl⟩
    · rw [step_opening hs hd, step_opening ht (h.mode_eq n ▸ hd)]
      exact h.push d p q
    · rw [step_closing hs hd, step_closing ht (h.mode_eq n ▸ hd)]
      exact h.pop d p q
    · rw [step_of_ordinary hs hc, step_of_ordinary ht (h.mode_eq n ▸ hc)]
      exact h

end Alike

/-- What is found behind a text, when that text is passed over. -/
def passing (u : Text) : Except Fault (Option (Text × Text)) →
    Except Fault (Option (Text × Text)) :=
  Except.map (Option.map fun r => (u ++ r.1, r.2))

theorem passing_passing (u v : Text) (r : Except Fault (Option (Text × Text))) :
    passing u (passing v r) = passing (u ++ v) r := by
  rcases r with f | _ | r
  · rfl
  · rfl
  · simp only [passing, Except.map, Option.map, List.append_assoc]

variable {n : Nesting} {closing : Text} {s t : Scan}

theorem find_of_step {s' : Scan} {p : Nat} {c : Char} {text : Text}
    (hstop : ¬ (s.isIdle && closing.isPrefixOf (c :: text)) = true)
    (hs : s.step n p c = .ok s') :
    s.find n closing p (c :: text) = passing [c] (s'.find n closing (p + c.utf8Size) text) := by
  rw [find, if_neg hstop, hs]
  simp only
  rcases s'.find n closing (p + c.utf8Size) text with f | _ | r <;> rfl

theorem find_in_comment {c v : Text} (hc : '\n' ∉ c) (p : Nat) :
    ∃ q, find n closing { s with commented := true } p (c ++ '\n' :: v) =
      passing (c ++ ['\n']) (find n closing { s with commented := false } q v) := by
  have hbusy (text : Text) :
      ¬ (isIdle { s with commented := true } && closing.isPrefixOf text) = true := by
    simp [isIdle]
  induction c generalizing p with
  | nil => exact ⟨_, find_of_step (hbusy _) (step_of_commented rfl '\n')⟩
  | cons a c ih =>
    rw [List.mem_cons, not_or] at hc
    obtain ⟨q, hq⟩ := ih hc.2 (p + a.utf8Size)
    refine ⟨q, ?_⟩
    rw [List.cons_append, find_of_step (hbusy _) (step_in_comment rfl (Ne.symm hc.1)), hq,
      passing_passing]
    rfl

theorem step_percent (p : Nat) : s.step n p '%' = .ok { s with commented := true } := by
  cases hs : s.commented with
  | true => exact step_of_commented hs '%'
  | false => exact step_eq_ok_iff.mpr (.startComment hs)

theorem isPrefixOf_withComment {l : Text} (hl : '%' ∉ l) (u c v : Text) :
    l.isPrefixOf (u.withComment c v) = l.isPrefixOf u := by
  induction l generalizing u with
  | nil => simp
  | cons a l ih =>
    rw [List.mem_cons, not_or] at hl
    cases u with
    | nil => simp [Text.withComment, List.isPrefixOf, Ne.symm hl.1]
    | cons b u => simp only [Text.withComment_cons, List.isPrefixOf, ih hl.2 u]

theorem find_comment {c v : Text} (hc : '\n' ∉ c) (h₀ : closing ≠ []) (hclosing : '%' ∉ closing)
    (p : Nat) :
    ∃ q, s.find n closing p (Text.withComment [] c v) =
      passing (Text.withComment [] c []) (find n closing { s with commented := false } q v) := by
  have hclose : closing.isPrefixOf ('%' :: (c ++ '\n' :: v)) = false := by
    have hp := isPrefixOf_withComment hclosing [] c v
    cases closing with
    | nil => exact absurd rfl h₀
    | cons => exact hp
  have hstop : ¬ (s.isIdle && closing.isPrefixOf ('%' :: (c ++ '\n' :: v))) = true := by
    simp [hclose]
  obtain ⟨q, hq⟩ : ∃ q, find n closing { s with commented := true } (p + '%'.utf8Size)
      (c ++ '\n' :: v) = passing (c ++ ['\n']) (find n closing { s with commented := false } q v) :=
    find_in_comment hc _
  refine ⟨q, ?_⟩
  change s.find n closing p ('%' :: (c ++ '\n' :: v)) = _
  rw [find_of_step hstop (step_percent p), hq, passing_passing]
  rfl

theorem Alike.find (h : s.Alike t) (p q : Nat) (text : Text) :
    Agree False Eq (s.find n closing p text) (t.find n closing q text) := by
  induction text generalizing s t p q with
  | nil =>
    obtain ⟨opened, _⟩ := s
    obtain ⟨opened', _⟩ := t
    have ho := h.opened
    cases opened <;> cases opened'
    · rfl
    · cases ho
    · cases ho
    · trivial
  | cons c text ih =>
    by_cases hstop : (s.isIdle && closing.isPrefixOf (c :: text)) = true
    · have hstop' := hstop
      rw [h.isIdle_eq] at hstop'
      rw [Scan.find, Scan.find, if_pos hstop, if_pos hstop']
      rfl
    · have hstop' := hstop
      rw [h.isIdle_eq] at hstop'
      rcases (h.step n p q c).cases_of_false with ⟨s', t', hs, ht, h'⟩ | ⟨f, g, hs, ht⟩
      · rw [find_of_step hstop hs, find_of_step hstop' ht]
        apply (ih h' _ _).map
        intro a b _ _ hab
        rw [hab]
      · rw [Scan.find, Scan.find, if_neg hstop, if_neg hstop', hs, ht]
        trivial

/-- Where a closing stands in two texts that differ in one comment: in front of the comment, or
behind it. -/
inductive SplitAlike (c₁ c₂ closing u v : Text) : Text × Text → Text × Text → Prop where
  | before (inner u' : Text) : u = inner ++ (closing ++ u') →
      SplitAlike c₁ c₂ closing u v (inner, u'.withComment c₁ v) (inner, u'.withComment c₂ v)
  | around (x w : Text) : v = x ++ (closing ++ w) →
      SplitAlike c₁ c₂ closing u v (u.withComment c₁ x, w) (u.withComment c₂ x, w)

theorem SplitAlike.cons {c₁ c₂ u v : Text} {r₁ r₂ : Text × Text} (a : Char)
    (h : SplitAlike c₁ c₂ closing u v r₁ r₂) :
    SplitAlike c₁ c₂ closing (a :: u) v (a :: r₁.1, r₁.2) (a :: r₂.1, r₂.2) := by
  cases h with
  | before inner u' hu => exact .before (a :: inner) u' (congrArg (a :: ·) hu)
  | around x w hv => exact .around x w hv

theorem Alike.find_withComment {c₁ c₂ v : Text} (h₁ : '\n' ∉ c₁) (h₂ : '\n' ∉ c₂)
    (h₀ : closing ≠ []) (hclosing : '%' ∉ closing) (h : s.Alike t) (p q : Nat) (u : Text) :
    Agree False (Option.Rel (SplitAlike c₁ c₂ closing u v))
      (s.find n closing p (u.withComment c₁ v)) (t.find n closing q (u.withComment c₂ v)) := by
  induction u generalizing s t p q with
  | nil =>
    obtain ⟨p', hp⟩ := find_comment (s := s) (n := n) (v := v) h₁ h₀ hclosing p
    obtain ⟨q', hq⟩ := find_comment (s := t) (n := n) (v := v) h₂ h₀ hclosing q
    rw [hp, hq]
    have h' : Alike { s with commented := false } { t with commented := false } := ⟨h.opened, rfl⟩
    apply (h'.find p' q' v).map
    rintro a b ha - rfl
    cases a with
    | none => exact .none
    | some r =>
      have hv := append_eq_of_find ha
      rw [Option.map_some, Option.map_some, ← Text.append_withComment, ← Text.append_withComment]
      exact .some (.around r.1 r.2 hv.symm)
  | cons a u ih =>
    have hp₁ := isPrefixOf_withComment hclosing (a :: u) c₁ v
    have hp₂ := isPrefixOf_withComment hclosing (a :: u) c₂ v
    rw [Text.withComment_cons] at hp₁ hp₂ ⊢
    rw [Text.withComment_cons]
    by_cases hstop : (s.isIdle && closing.isPrefixOf (a :: u)) = true
    · obtain ⟨u', hu⟩ := List.isPrefixOf_iff_prefix.mp (Bool.and_eq_true_iff.mp hstop).2
      have hstop' := hstop
      rw [h.isIdle_eq] at hstop'
      rw [Scan.find, Scan.find, hp₁, hp₂, if_pos hstop, if_pos hstop', ← Text.withComment_cons,
        ← Text.withComment_cons, ← hu, Text.withComment_append, Text.withComment_append,
        List.drop_left, List.drop_left]
      exact .some (.before [] u' rfl)
    · have hstop' := hstop
      rw [h.isIdle_eq] at hstop'
      rw [← hp₁] at hstop
      rw [← hp₂] at hstop'
      rcases (h.step n p q a).cases_of_false with ⟨s', t', hs, ht, h'⟩ | ⟨f, g, hs, ht⟩
      · rw [find_of_step hstop hs, find_of_step hstop' ht]
        apply (ih h' _ _).map
        intro x y _ _ hr
        cases hr with
        | none => exact .none
        | some hr => exact .some (hr.cons a)
      · rw [Scan.find, Scan.find, if_neg hstop, if_neg hstop', hs, ht]
        trivial

end Scan

namespace Enclosure

theorem percent_not_mem_closing (e : Enclosure) : '%' ∉ e.closing := by
  rcases e with d | f
  · cases d <;> decide
  · cases f <;> decide

theorem split_withComment {c₁ c₂ : Text} (h₁ : '\n' ∉ c₁) (h₂ : '\n' ∉ c₂) (e : Enclosure)
    (u v : Text) : Agree False (Scan.SplitAlike c₁ c₂ e.closing u v)
      (e.split (u.withComment c₁ v)) (e.split (u.withComment c₂ v)) := by
  have hfind := Scan.Alike.find_withComment (n := e.nesting) (s := {}) (v := v) h₁ h₂
    e.closing_ne_nil e.percent_not_mem_closing ⟨rfl, rfl⟩ e.opening.size e.opening.size u
  rcases hfind.cases_of_false with ⟨a, b, ha, hb, hr⟩ | ⟨f, g, hf, hg⟩
  · rw [split, split, ha, hb]
    cases hr with
    | none => trivial
    | some hr => exact hr
  · rw [split, split, hf, hg]
    trivial

end Enclosure

end LatexTokens
