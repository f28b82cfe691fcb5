import Mathlib
import LatexTokens.Proofs.Text.Backslash

/-!
# The readings of a protected text

Protecting a text goes from left to right, and does not count backslashes: a piece that starts
with one is always read from behind an even number of others. So the two readings of a protected
text are the text with the stretches replaced that `sequenceAt?` and `continuationLength` name.
-/

set_option autoImplicit false

namespace LatexTokens

namespace Text

/-! ## Protecting a text, piece by piece -/

theorem protect_sequence_append (s : Special) (v : Text) :
    protect (s.sequence ++ v) = s.sentinel :: protect v := by
  rw [Special.sequence_eq_cons, List.cons_append, protect, if_pos rfl,
    Special.read?_sequence_tail_append]
  simp only [List.drop_left]

theorem protect_continuation_append {line v : Text} (h : continuation? (line ++ v) = some line) :
    protect ('\\' :: (line ++ v)) = protect v := by
  have hread : Special.read? (line ++ v) = none := by
    cases hs : Special.read? (line ++ v) with
    | none => rfl
    | some s => cases (continuation?_eq_none_of_read? hs).symm.trans h
  rw [protect, if_pos rfl, hread]
  simp only [h, List.drop_left]

theorem protect_backslash {v : Text} (hread : Special.read? v = none)
    (hline : continuation? v = none) : protect ('\\' :: v) = '\\' :: protect v := by
  rw [protect, if_pos rfl, hread]
  simp only [hline]

/-- Induction along the pieces that a text is protected in. A backslash that starts a piece
stands behind an even number of others. -/
theorem piece_induction {P : Text → Text → Prop} (nil : ∀ u, P u [])
    (other : ∀ u c v, c ≠ '\\' → P (u ++ [c]) v → P u (c :: v))
    (backslash : ∀ u v, finalBackslashes u % 2 = 0 → Special.read? v = none →
      continuation? v = none → P (u ++ ['\\']) v → P u ('\\' :: v))
    (sequence : ∀ u (s : Special) v, finalBackslashes u % 2 = 0 →
      P (u ++ s.sequence) v → P u (s.sequence ++ v))
    (continuation : ∀ u line v, finalBackslashes u % 2 = 0 →
      continuation? (line ++ v) = some line →
      P (u ++ '\\' :: line) v → P u ('\\' :: (line ++ v)))
    (u v : Text) (hu : v.head? = some '\\' → finalBackslashes u % 2 = 0) : P u v := by
  fun_induction protect v generalizing u with
  | case1 => exact nil u
  | case2 t s hs ih =>
    have hu := hu rfl
    rw [← Special.sequence_append_of_read? hs]
    apply sequence u s _ hu
    apply ih
    intro _
    exact finalBackslashes_append_sequence hu s
  | case3 t hs line hline ih =>
    have heven := hu rfl
    obtain ⟨v, rfl⟩ := prefix_of_continuation? hline
    rw [List.drop_left] at ih
    apply continuation u line v heven hline
    apply ih
    intro _
    rw [List.append_cons, finalBackslashes_append (ne_nil_of_continuation? hline)
      (ne_of_mem_continuation? hline)]
  | case4 t hs hline ih =>
    apply backslash u t (hu rfl) hs hline
    apply ih
    intro h₀
    exact absurd h₀ (head?_ne_of_read? hs)
  | case5 c t hc ih =>
    apply other u c t hc
    apply ih
    intro _
    rw [finalBackslashes_concat, if_neg hc]

/-- The induction with one case for all characters that stay as they are. -/
theorem protect_induction {P : Text → Text → Prop} (nil : ∀ u, P u [])
    (plain : ∀ u c v, protect (c :: v) = c :: protect v →
      sequenceAt? (u ++ c :: v) u.length = none →
      continuationLength (u ++ c :: v) u.length = 0 → P (u ++ [c]) v → P u (c :: v))
    (sequence : ∀ u (s : Special) v, finalBackslashes u % 2 = 0 →
      P (u ++ s.sequence) v → P u (s.sequence ++ v))
    (continuation : ∀ u line v, finalBackslashes u % 2 = 0 →
      continuation? (line ++ v) = some line →
      P (u ++ '\\' :: line) v → P u ('\\' :: (line ++ v)))
    (u v : Text) (hu : v.head? = some '\\' → finalBackslashes u % 2 = 0) : P u v := by
  refine piece_induction nil ?other ?backslash sequence continuation u v hu
  case other =>
    intro u c v hc ih
    have hne : (u ++ c :: v)[u.length]? ≠ some '\\' := by
      rw [List.getElem?_append_right (Nat.le_refl _), Nat.sub_self, List.getElem?_cons_zero]
      intro h₀
      exact hc (Option.some.inj h₀)
    apply plain u c v _ _ _ ih
    · exact protect_cons_of_ne hc v
    · exact sequenceAt?_of_ne hne
    · exact continuationLength_of_ne hne
  case backslash =>
    intro u v heven hread hline ih
    apply plain u _ v _ _ _ ih
    · exact protect_backslash hread hline
    · rw [sequenceAt?_cut heven, hread]
    · rw [continuationLength_cut heven, hline]

/-! ## The readings of a protected text -/

theorem typeset_cons_of_not_isSentinel {c : Char} (h : isSentinel c = false) (t : Text) :
    typeset (c :: t) = c :: typeset t := by
  have hc : Special.ofSentinel? c = none := by simpa [isSentinel] using h
  simp [typeset, hc]

theorem typeset_sentinel_cons (s : Special) (t : Text) :
    typeset (s.sentinel :: t) = s.symbol :: typeset t := by
  simp [typeset]

/-- Whether the stretches of a text, read from a cut on, are a reading of what is protected. -/
def ReadsFrom (stretches : Text → Stretches) (reading : Text → Text) (u v : Text) : Prop :=
  (∀ c ∈ v, isSentinel c = false) → (stretches (u ++ v)).Clear u.length →
    (stretches (u ++ v)).replaceFrom (u ++ v) u.length = reading (protect v)

/-- Stretches that differ from the line continuations in sequences alone are a reading if they
are one of each sequence. -/
theorem readsFrom_of_sequences {stretches : Text → Stretches} {reading : Text → Text}
    (hnone : ∀ t i, sequenceAt? t i = none →
      (stretches t).length i = continuationLength t i ∧ (stretches t).reading i = [])
    (hnil : reading [] = [])
    (hcons : ∀ c t, isSentinel c = false → reading (c :: t) = c :: reading t)
    (hsequence : ∀ u (s : Special) v, finalBackslashes u % 2 = 0 →
      ReadsFrom stretches reading (u ++ s.sequence) v →
      ReadsFrom stretches reading u (s.sequence ++ v))
    {u v : Text} (hu : v.head? = some '\\' → finalBackslashes u % 2 = 0) :
    ReadsFrom stretches reading u v := by
  refine protect_induction ?nil ?plain hsequence ?continuation u v hu
  case nil =>
    intro u _ _
    rw [List.append_nil, Stretches.replaceFrom_length, protect_nil, hnil]
  case plain =>
    intro u c v hprotect hseq hzero ih hv hc
    have hlength := (hnone _ _ hseq).1.trans hzero
    have hsentinel := hv c List.mem_cons_self
    rw [ReadsFrom, ← List.append_cons] at ih
    have hclear := hc.succ hlength
    rw [← List.length_concat, List.concat_eq_append] at hclear
    rw [Stretches.replaceFrom_of_plain hc hlength, hprotect, hcons c _ hsentinel,
      ih (fun d hd => hv d (List.mem_cons_of_mem c hd)) hclear]
  case continuation =>
    intro u line v heven hline ih hv hc
    have hseq : sequenceAt? (u ++ '\\' :: (line ++ v)) u.length = none := by
      rw [sequenceAt?_cut heven]
      cases hs : Special.read? (line ++ v) with
      | none => rfl
      | some s => cases (continuation?_eq_none_of_read? hs).symm.trans hline
    have hlength : (stretches (u ++ '\\' :: (line ++ v))).length u.length =
        ('\\' :: line).length := by
      rw [(hnone _ _ hseq).1, continuationLength_cut heven, hline, List.length_cons, Nat.add_comm]
    have hin : ∀ m, 0 < m → m < ('\\' :: line).length →
        (stretches (u ++ '\\' :: (line ++ v))).length (u.length + m) = 0 := by
      intro m hpos hm
      obtain ⟨hzero, hquiet⟩ := quiet_in_continuation (u := u) hline hpos hm
      exact (hnone _ _ hquiet).1.trans hzero
    obtain ⟨hreplace, hclear⟩ :=
      Stretches.replaceFrom_of_stretch (v := v) hc (List.cons_ne_nil _ _) hlength hin
    have happend : u ++ '\\' :: line ++ v = u ++ '\\' :: (line ++ v) := by simp
    rw [ReadsFrom, happend] at ih
    rw [List.cons_append, (hnone _ _ hseq).2, List.nil_append] at hreplace
    rw [hreplace, protect_continuation_append hline]
    apply ih _ hclear
    intro c hmem
    exact hv c (by simp [hmem])

theorem asWritten_protect_eq_replace {t : Text} (h : ∀ c ∈ t, isSentinel c = false) :
    asWritten (protect t) = (continuations t).replace t := by
  have hreads : ReadsFrom continuations asWritten [] t := by
    apply readsFrom_of_sequences
    · intro t i _
      exact ⟨rfl, rfl⟩
    · rfl
    · intro c t hc
      exact asWritten_cons_of_not_isSentinel hc t
    · intro u s v heven ih hv hc
      have hplain : ∀ m < s.sequence.length,
          continuationLength (u ++ (s.sequence ++ v)) (u.length + m) = 0 := by
        intro m hm
        rcases Nat.eq_zero_or_pos m with rfl | hpos
        · exact (sequenceAt?_sequence heven s).2
        · exact (quiet_in_sequence heven hpos hm).1
      obtain ⟨hreplace, hclear⟩ := Stretches.replaceFrom_of_plain_run (v := v) hc hplain
      rw [ReadsFrom, List.append_assoc] at ih
      rw [hreplace, protect_sequence_append, asWritten_sentinel_cons,
        ih (fun c hmem => hv c (List.mem_append_right _ hmem)) hclear]
    · intro _
      rfl
  rw [Stretches.replace_eq_replaceFrom]
  exact (hreads h (Stretches.clear_zero _)).symm

theorem typeset_protect_eq_replace {t : Text} (h : ∀ c ∈ t, isSentinel c = false) :
    typeset (protect t) = (escapes t).replace t := by
  have hreads : ReadsFrom escapes typeset [] t := by
    apply readsFrom_of_sequences
    · intro t i hnone
      simp only [escapes, hnone, and_self]
    · rfl
    · intro c t hc
      exact typeset_cons_of_not_isSentinel hc t
    · intro u s v heven ih hv hc
      have hstart := (sequenceAt?_sequence (v := v) heven s).1
      have hne : s.sequence ≠ [] := by cases s <;> exact List.cons_ne_nil _ _
      have hlength : (escapes (u ++ (s.sequence ++ v))).length u.length = s.sequence.length := by
        simp only [escapes, hstart]
      have hreading : (escapes (u ++ (s.sequence ++ v))).reading u.length = [s.symbol] := by
        simp only [escapes, hstart]
      have hin : ∀ m, 0 < m → m < s.sequence.length →
          (escapes (u ++ (s.sequence ++ v))).length (u.length + m) = 0 := by
        intro m hpos hm
        obtain ⟨hzero, hquiet⟩ := quiet_in_sequence (v := v) heven hpos hm
        simp only [escapes, hquiet, hzero]
      obtain ⟨hreplace, hclear⟩ := Stretches.replaceFrom_of_stretch (v := v) hc hne hlength hin
      rw [ReadsFrom, List.append_assoc] at ih
      rw [hreplace, hreading, protect_sequence_append, typeset_sentinel_cons,
        ih (fun c hmem => hv c (List.mem_append_right _ hmem)) hclear]
      rfl
    · intro _
      rfl
  rw [Stretches.replace_eq_replaceFrom]
  exact (hreads h (Stretches.clear_zero _)).symm

theorem replace_continuations_of_none {t : Text} (h : ∀ i < t.length, continuationLength t i = 0) :
    (continuations t).replace t = t := by
  have hplain : ∀ m < t.length, (continuations t).length (List.length ([] : Text) + m) = 0 := by
    intro m hm
    rw [List.length_nil, Nat.zero_add]
    exact h m hm
  have hrun := (Stretches.replaceFrom_of_plain_run (v := []) (Stretches.clear_zero _) hplain).1
  rw [List.append_nil, List.nil_append, Stretches.replaceFrom_length, List.append_nil] at hrun
  rw [Stretches.replace_eq_replaceFrom]
  exact hrun

/-- Protecting a text without sentinels loses nothing but line continuations: as written it is
the text without them, and typeset it has a character for each sequence besides. -/
theorem asWritten_typeset_protect {t : Text} (h : ∀ c ∈ t, isSentinel c = false) :
    asWritten (protect t) = (continuations t).replace t ∧
      ((∀ i < t.length, continuationLength t i = 0) → asWritten (protect t) = t) ∧
      typeset (protect t) = (escapes t).replace t := by
  refine ⟨asWritten_protect_eq_replace h, ?_, typeset_protect_eq_replace h⟩
  intro hnone
  rw [asWritten_protect_eq_replace h, replace_continuations_of_none hnone]

/-- Three backslashes before a line break and blanks, and a caret with its group. -/
theorem asWritten_typeset_protect_break :
    let t : Text := ['\\', '\\', '\\', '\n', ' ', '\t', 'a', '\\', '^', '{', '}', '\\', '\\', '\n']
    (∀ c ∈ t, isSentinel c = false) ∧
      asWritten (protect t) = ['\\', '\\', 'a', '\\', '^', '{', '}', '\\', '\\', '\n'] ∧
      asWritten (protect t) = (continuations t).replace t ∧
      typeset (protect t) = ['\\', 'a', '^', '\\', '\n'] ∧
      typeset (protect t) = (escapes t).replace t := by
  intro t
  have h : ∀ c ∈ t, isSentinel c = false := by
    simp only [t, List.forall_mem_cons, List.not_mem_nil, false_implies, implies_true]
    decide
  obtain ⟨hwritten, _, htypeset⟩ := asWritten_typeset_protect h
  exact ⟨h, by cbv, hwritten, by cbv, htypeset⟩

end Text

end LatexTokens
