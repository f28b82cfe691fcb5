import LatexTokens.Proofs.Text.Readings

/-!
# Protecting again what was read back

A protected text read as written is not always protected to the same text again. A line
continuation that was dropped can leave a backslash in front of characters that the document kept
apart from it, and these form a sequence or a line continuation there. Three joints can arise so:
`IsLeftOver.reopened` says that a protected text without them comes back as it was, and that any
other comes back smaller.
-/

set_option autoImplicit false

namespace LatexTokens

namespace Text

/-- What a backslash forms with characters that it was kept apart from. -/
def joints : List Text := [['\\', '^', '{', '}'], ['\\', '~', '{', '}'], ['\\', '\r', '\n']]

/-- Whether every backslash of a text is left over: the next character is none that forms a
sequence or a line continuation with it at once, and no sentinel. -/
def IsLeftOver (t : Text) : Prop :=
  ∀ c, ['\\', c] <:+: t → Special.read? [c] = none ∧ c ≠ '\n' ∧ isSentinel c = false

theorem IsLeftOver.of_suffix {s t : Text} (h : IsLeftOver t) (hs : s <:+ t) : IsLeftOver s :=
  fun c hc => h c (hc.trans hs.isInfix)

theorem isLeftOver_cons {c : Char} {t : Text} (hc : c = '\\' → ∀ d ∈ t.head?,
    Special.read? [d] = none ∧ d ≠ '\n' ∧ isSentinel d = false) (h : IsLeftOver t) :
    IsLeftOver (c :: t) := by
  intro d hd
  rcases List.infix_cons_iff.mp hd with hd | hd
  · obtain ⟨heq, hd⟩ := List.cons_prefix_cons.mp hd
    obtain ⟨rest, rfl⟩ := hd
    exact hc heq.symm d rfl
  · exact h d hd

theorem sentinel_ne (s : Special) : s.sentinel ≠ '\\' := by
  cases s <;> decide

theorem read?_singleton_eq_none {c : Char} {t : Text} (h : Special.read? (c :: t) = none) :
    Special.read? [c] = none := by
  rw [Option.eq_none_iff_forall_ne_some]
  intro s hs
  have hprefix : s.sequence <+: '\\' :: c :: t := (Special.read?_eq_some_iff.mp hs).trans ⟨t, rfl⟩
  cases h.symm.trans (Special.read?_eq_some_iff.mpr hprefix)

/-- The backslashes that protecting leaves are left over. -/
theorem isLeftOver_protect {t : Text} (h : ∀ c ∈ t, isSentinel c = false) :
    IsLeftOver (protect t) := by
  fun_induction protect t with
  | case1 =>
    intro c hc
    cases List.eq_nil_of_infix_nil hc
  | case2 t s hs ih =>
    apply isLeftOver_cons
    · intro h₀
      exact absurd h₀ (sentinel_ne s)
    · exact ih fun c hc => h c (List.mem_cons_of_mem _ (List.mem_of_mem_drop hc))
  | case3 t hs line hline ih =>
    exact ih fun c hc => h c (List.mem_cons_of_mem _ (List.mem_of_mem_drop hc))
  | case4 t hs hline ih =>
    apply isLeftOver_cons
    · intro _ d hd
      cases t with
      | nil =>
        rw [protect_nil] at hd
        cases hd
      | cons e t =>
        have he : e ≠ '\\' := by
          intro h₀
          exact head?_ne_of_read? hs (congrArg some h₀)
        rw [protect_cons_of_ne he] at hd
        cases hd
        refine ⟨read?_singleton_eq_none hs, ?_, h d (by simp)⟩
        intro h₀
        subst h₀
        cases hline
    · exact ih fun c hc => h c (List.mem_cons_of_mem _ hc)
  | case5 c t hc ih =>
    apply isLeftOver_cons
    · intro h₀
      exact absurd h₀ hc
    · exact ih fun d hd => h d (List.mem_cons_of_mem _ hd)

/-! ## The text as written, from its start -/

theorem asWritten_cons_cases (c : Char) (t : Text) :
    (isSentinel c = false ∧ asWritten (c :: t) = c :: asWritten t) ∨
      ∃ s : Special, c = s.sentinel ∧ asWritten (c :: t) = s.sequence ++ asWritten t := by
  cases hc : Special.ofSentinel? c with
  | none =>
    have h : isSentinel c = false := by simp [isSentinel, hc]
    exact .inl ⟨h, asWritten_cons_of_not_isSentinel h t⟩
  | some s =>
    obtain rfl := Special.eq_sentinel_of_ofSentinel? hc
    exact .inr ⟨s, rfl, asWritten_sentinel_cons s t⟩

/-- Characters that are no backslash stand in the text itself if they start it as written. -/
theorem prefix_of_prefix_asWritten {w t : Text} (hw : ∀ c ∈ w, c ≠ '\\')
    (h : w <+: asWritten t) : w <+: t := by
  induction w generalizing t with
  | nil => exact List.nil_prefix
  | cons c w ih =>
    have hc := hw c List.mem_cons_self
    cases t with
    | nil => cases List.prefix_nil.mp h
    | cons d t =>
      rcases asWritten_cons_cases d t with ⟨_, ht⟩ | ⟨s, _, ht⟩
      · rw [ht] at h
        obtain ⟨rfl, hrest⟩ := List.cons_prefix_cons.mp h
        rw [List.prefix_cons_inj]
        exact ih (fun e he => hw e (List.mem_cons_of_mem _ he)) hrest
      · rw [ht, Special.sequence_eq_cons, List.cons_append] at h
        exact absurd (List.cons_prefix_cons.mp h).1 hc

theorem asWritten_of_not_isSentinel {t : Text} (h : ∀ c ∈ t, isSentinel c = false) :
    asWritten t = t := by
  induction t with
  | nil => rfl
  | cons c t ih =>
    rw [asWritten_cons_of_not_isSentinel (h c List.mem_cons_self),
      ih fun d hd => h d (List.mem_cons_of_mem c hd)]

/-- Protecting a text as written drops a line continuation at its start. -/
theorem exists_protect_line (t : Text) :
    ∃ v, v <:+ t ∧ protect (asWritten ('\\' :: '\r' :: '\n' :: t)) = protect (asWritten v) := by
  have hblank : ∀ c ∈ indentation (asWritten t), c ≠ '\\' ∧ isSentinel c = false := by
    intro c hc
    have h : c = ' ' ∨ c = '\t' := by simpa using List.all_eq_true.mp List.all_takeWhile c hc
    rcases h with rfl | rfl <;> decide
  have hprefix : indentation (asWritten t) <+: t :=
    prefix_of_prefix_asWritten (fun c hc => (hblank c hc).1) (List.takeWhile_prefix _)
  generalize hw : indentation (asWritten t) = w at hblank hprefix
  obtain ⟨v, rfl⟩ := hprefix
  have hwritten : asWritten (w ++ v) = w ++ asWritten v := by
    rw [asWritten_append, asWritten_of_not_isSentinel fun c hc => (hblank c hc).2]
  rw [hwritten] at hw
  have hline : continuation? ('\r' :: '\n' :: w ++ asWritten v) = some ('\r' :: '\n' :: w) :=
    congrArg (fun w => some ('\r' :: '\n' :: w)) hw
  refine ⟨v, List.suffix_append w v, ?_⟩
  rw [← protect_continuation_append hline]
  change protect ('\\' :: '\r' :: '\n' :: asWritten (w ++ v)) = _
  rw [hwritten]
  rfl

/-! ## Protecting again -/

/-- The two ways in which a text comes back: as it was, or smaller. -/
inductive Reopened (t : Text) : Prop where
  | same : (∀ j ∈ joints, ¬ j <:+: t) → protect (asWritten t) = t → Reopened t
  | smaller {j : Text} : j ∈ joints → j <:+: t → (protect (asWritten t)).size < t.size → Reopened t

theorem Reopened.size_le {t : Text} (h : Reopened t) : (protect (asWritten t)).size ≤ t.size := by
  cases h with
  | same _ heq => exact Nat.le_of_eq (congrArg size heq)
  | smaller _ _ hlt => exact Nat.le_of_lt hlt

theorem Reopened.cons {c : Char} {t : Text} (h : Reopened t)
    (hj : ∀ j ∈ joints, ¬ j <+: c :: t)
    (hprotect : protect (asWritten (c :: t)) = c :: protect (asWritten t)) :
    Reopened (c :: t) := by
  cases h with
  | same hnone heq =>
    refine .same ?_ (by rw [hprotect, heq])
    intro j hmem hinfix
    rcases List.infix_cons_iff.mp hinfix with h₀ | h₀
    · exact hj j hmem h₀
    · exact hnone j hmem h₀
  | smaller hmem hinfix hlt =>
    refine .smaller hmem (List.infix_cons hinfix) ?_
    rw [hprotect, size_cons, size_cons]
    omega

theorem not_prefix_of_mem_joints {c : Char} {t j : Text} (hc : c ≠ '\\') (hj : j ∈ joints) :
    ¬ j <+: c :: t := by
  intro h₀
  simp only [joints, List.mem_cons, List.not_mem_nil, or_false] at hj
  rcases hj with rfl | rfl | rfl <;> exact hc (List.cons_prefix_cons.mp h₀).1.symm

section
variable {t : Text} (h : IsLeftOver ('\\' :: t)) (hj : ∀ j ∈ joints, ¬ j <+: '\\' :: t)
include h

theorem IsLeftOver.after_backslash {c : Char} {v : Text} (ht : t = c :: v) :
    Special.read? [c] = none ∧ c ≠ '\n' ∧ isSentinel c = false :=
  h c ⟨[], v, by rw [ht]; rfl⟩

include hj

theorem IsLeftOver.read?_asWritten_eq_none : Special.read? (asWritten t) = none := by
  rw [Option.eq_none_iff_forall_ne_some]
  intro s hs
  have htail : s.sequence.tail <+: asWritten t := by
    have hp := Special.read?_eq_some_iff.mp hs
    rwa [Special.sequence_eq_cons, List.prefix_cons_inj] at hp
  by_cases hback : s = .backslash
  · subst hback
    cases t with
    | nil => cases List.prefix_nil.mp htail
    | cons c t =>
      obtain ⟨hc, _, hsentinel⟩ := h.after_backslash rfl
      rw [asWritten_cons_of_not_isSentinel hsentinel] at htail
      cases (List.cons_prefix_cons.mp htail).1
      cases hc
  · obtain ⟨v, rfl⟩ := prefix_of_prefix_asWritten (ne_of_mem_sequence_tail hback) htail
    cases s with
    | backslash => exact hback rfl
    | caret => exact hj ['\\', '^', '{', '}'] (by simp [joints]) ⟨v, rfl⟩
    | tilde => exact hj ['\\', '~', '{', '}'] (by simp [joints]) ⟨v, rfl⟩
    | _ => cases (h.after_backslash rfl).1

theorem IsLeftOver.continuation?_asWritten_eq_none : continuation? (asWritten t) = none := by
  unfold continuation?
  split
  · next v hv =>
    have hp : ['\r', '\n'] <+: asWritten t := ⟨v, hv.symm⟩
    obtain ⟨v, rfl⟩ := prefix_of_prefix_asWritten (by simp) hp
    exact absurd ⟨v, rfl⟩ (hj ['\\', '\r', '\n'] (by simp [joints]))
  · next v hv =>
    have hp : ['\n'] <+: asWritten t := ⟨v, hv.symm⟩
    obtain ⟨v, rfl⟩ := prefix_of_prefix_asWritten (by simp) hp
    exact absurd rfl (h.after_backslash rfl).2.1
  · rfl

/-- A left-over backslash in front of no joint stays a backslash. -/
theorem IsLeftOver.protect_asWritten_backslash :
    protect (asWritten ('\\' :: t)) = '\\' :: protect (asWritten t) := by
  rw [asWritten_cons_of_not_isSentinel rfl,
    protect_backslash (h.read?_asWritten_eq_none hj) (h.continuation?_asWritten_eq_none hj)]

end

/-- A joint at the start of a text is shorter once it is read as what it looks like. -/
theorem size_protect_asWritten_lt {t j : Text} (hj : j ∈ joints)
    (ih : ∀ v, v <:+ t → (protect (asWritten v)).size ≤ size v) :
    (protect (asWritten (j ++ t))).size < (j ++ t).size := by
  have sequence (s : Special) (hs : s.sentinel.utf8Size < s.sequence.size)
      (hwritten : asWritten s.sequence = s.sequence) :
      (protect (asWritten (s.sequence ++ t))).size < (s.sequence ++ t).size := by
    have := ih t List.suffix_rfl
    rw [asWritten_append, hwritten, protect_sequence_append, size_cons, size_append]
    omega
  simp only [joints, List.mem_cons, List.not_mem_nil, or_false] at hj
  rcases hj with rfl | rfl | rfl
  · exact sequence .caret (by decide) rfl
  · exact sequence .tilde (by decide) rfl
  · obtain ⟨v, hv, hprotect⟩ := exists_protect_line t
    have hle := ih v hv
    obtain ⟨w, rfl⟩ := hv
    change (protect (asWritten ('\\' :: '\r' :: '\n' :: (w ++ v)))).size < _
    rw [hprotect]
    simp only [size_append, size_cons, List.cons_append, List.nil_append]
    have := Char.utf8Size_pos '\\'
    omega

theorem IsLeftOver.reopened {t : Text} (h : IsLeftOver t) : Reopened t := by
  match t with
  | [] =>
    refine .same ?_ protect_nil
    intro j hj hinfix
    rw [List.eq_nil_of_infix_nil hinfix] at hj
    simp [joints] at hj
  | c :: t =>
    have ih := (h.of_suffix (List.suffix_cons c t)).reopened
    rcases asWritten_cons_cases c t with ⟨_, hwritten⟩ | ⟨s, rfl, hwritten⟩
    · by_cases hc : c = '\\'
      · subst hc
        by_cases hj : ∃ j ∈ joints, j <+: '\\' :: t
        · obtain ⟨j, hj, v, hv⟩ := hj
          refine .smaller hj ⟨[], v, hv⟩ ?_
          rw [← hv] at h ⊢
          apply size_protect_asWritten_lt hj
          intro w hw
          have hlength : w.length < t.length + 1 := by
            have hpos : 0 < j.length := (by decide : ∀ j ∈ joints, 0 < j.length) j hj
            have hle := hw.length_le
            have htotal := congrArg List.length hv
            rw [List.length_append, List.length_cons] at htotal
            omega
          exact (h.of_suffix (hw.trans (List.suffix_append j v))).reopened.size_le
        · exact ih.cons (fun j hmem hp => hj ⟨j, hmem, hp⟩)
            (h.protect_asWritten_backslash fun j hmem hp => hj ⟨j, hmem, hp⟩)
      · apply ih.cons fun j hj => not_prefix_of_mem_joints hc hj
        rw [hwritten, protect_cons_of_ne hc]
    · apply ih.cons fun j hj => not_prefix_of_mem_joints (sentinel_ne s) hj
      rw [hwritten, protect_sequence_append]
termination_by t.length

end Text

end LatexTokens
