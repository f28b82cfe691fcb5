import LatexTokens.Proofs.Text.Readings

/-!
# Where a text can be cut before it is protected

Two texts are protected one after the other as they are in one piece, unless the first ends in
the middle of something: in an active backslash and the start of a sequence or of a line
continuation. Such a text is open. Each open text has another that completes what it starts, so
a text can be cut off in front of all others precisely if it is not open.
-/

set_option autoImplicit false

namespace LatexTokens

namespace Text

/-- What can stand behind the last backslash of a text for more text to complete it: the start
of a sequence, or a line break and the spaces and tabs behind it. -/
def IsStub (w : Text) : Prop :=
  w ∈ [[], ['^'], ['^', '{'], ['~'], ['~', '{'], ['\r']] ∨
    breakLength w ≠ 0 ∧ ∀ c ∈ w.drop (breakLength w), c = ' ' ∨ c = '\t'

instance (w : Text) : Decidable (IsStub w) := inferInstanceAs (Decidable (_ ∨ _ ∧ _))

/-- Whether a text ends in an active backslash and a stub. -/
def IsOpen (t : Text) : Prop := ∃ i < t.length, IsActive t i ∧ IsStub (t.drop (i + 1))

instance (t : Text) : Decidable (IsOpen t) := inferInstanceAs (Decidable (∃ i < _, _))

/-- Whether what the backslashes of a text start is the same with a second text behind it. -/
def IsSeam (t y : Text) : Prop :=
  ∀ a b, t = a ++ '\\' :: b → finalBackslashes a % 2 = 0 →
    Special.read? (b ++ y) = Special.read? b ∧ continuation? (b ++ y) = continuation? b

theorem protect_append_from {t y : Text} (h : IsSeam t y) (u v : Text)
    (hu : v.head? = some '\\' → finalBackslashes u % 2 = 0) (ht : u ++ v = t) :
    protect (v ++ y) = protect v ++ protect y := by
  refine piece_induction (P := fun u v => u ++ v = t → protect (v ++ y) = protect v ++ protect y)
    ?nil ?other ?backslash ?sequence ?continuation u v hu ht
  case nil =>
    intro u _
    rw [protect_nil]
    rfl
  case other =>
    intro u c v hc ih ht
    rw [List.cons_append, protect_cons_of_ne hc, protect_cons_of_ne hc, ih (by simp [ht]),
      List.cons_append]
  case backslash =>
    intro u v heven hread hline ih ht
    obtain ⟨hread', hline'⟩ := h u v ht.symm heven
    rw [List.cons_append, protect_backslash hread hline,
      protect_backslash (hread'.trans hread) (hline'.trans hline), ih (by simp [ht]),
      List.cons_append]
  case sequence =>
    intro u s v heven ih ht
    rw [List.append_assoc, protect_sequence_append, protect_sequence_append, ih (by simp [ht]),
      List.cons_append]
  case continuation =>
    intro u line v heven hline ih ht
    obtain ⟨_, hline'⟩ := h u (line ++ v) ht.symm heven
    rw [hline, List.append_assoc] at hline'
    rw [protect_continuation_append hline, List.cons_append, List.append_assoc,
      protect_continuation_append hline', ih (by simp [ht])]

/-- At a seam the two texts are protected one after the other. -/
theorem protect_append {t y : Text} (h : IsSeam t y) :
    protect (t ++ y) = protect t ++ protect y :=
  protect_append_from h [] t (fun _ => rfl) rfl

/-! ## What a second text can change -/

theorem read?_append {w y : Text}
    (h : ∀ s : Special, s.sequence.tail <+: w ++ y → s.sequence.tail <+: w) :
    Special.read? (w ++ y) = Special.read? w := by
  have key : ∀ (s : Special) (t : Text), Special.read? t = some s ↔ s.sequence.tail <+: t := by
    intro s t
    rw [Special.read?_eq_some_iff, Special.sequence_eq_cons, List.prefix_cons_inj, List.tail_cons]
  apply Option.ext
  intro s
  rw [key, key]
  exact ⟨h s, fun hs => hs.trans (List.prefix_append w y)⟩

theorem continuation?_append {w y : Text} (hbreak : breakLength (w ++ y) = breakLength w)
    (hindent : breakLength w ≠ 0 →
      indentation (w.drop (breakLength w) ++ y) = indentation (w.drop (breakLength w))) :
    continuation? (w ++ y) = continuation? w := by
  have hle := breakLength_le_length w
  rw [continuation?_eq_ite, continuation?_eq_ite, hbreak, List.take_append_of_le_length hle,
    List.drop_append_of_le_length hle]
  by_cases hb : breakLength w = 0
  · rw [if_pos hb, if_pos hb]
  · rw [if_neg hb, if_neg hb, hindent hb]

theorem breakLength_append {w y : Text} (hnil : w ≠ [])
    (hreturn : w = ['\r'] → y.head? ≠ some '\n') : breakLength (w ++ y) = breakLength w := by
  match w with
  | [] => exact absurd rfl hnil
  | [c] =>
    by_cases hline : c = '\n'
    · subst hline
      rfl
    have hzero : breakLength [c] = 0 := by simp [breakLength, hline]
    rw [hzero]
    apply breakLength.eq_3
    · intro t ht
      exact hline (List.cons.inj ht).1
    · intro t ht
      obtain ⟨rfl, hy⟩ := List.cons.inj ht
      change y = _ at hy
      exact hreturn rfl (by rw [hy, List.head?_cons])
  | c :: d :: w =>
    by_cases hline : c = '\n'
    · subst hline
      rfl
    by_cases hlines : c = '\r' ∧ d = '\n'
    · obtain ⟨rfl, rfl⟩ := hlines
      rfl
    have hzero : ∀ v : Text, breakLength (c :: d :: v) = 0 := by
      intro v
      apply breakLength.eq_3
      · intro t ht
        exact hline (List.cons.inj ht).1
      · intro t ht
        obtain ⟨hc, ht⟩ := List.cons.inj ht
        exact hlines ⟨hc, (List.cons.inj ht).1⟩
    rw [List.cons_append, List.cons_append, hzero, hzero]

theorem indentation_append {w y : Text}
    (h : (∀ c ∈ w, c = ' ' ∨ c = '\t') → indentation y = []) :
    indentation (w ++ y) = indentation w := by
  unfold indentation at h ⊢
  rw [List.takeWhile_append]
  split
  · next hlength =>
    have hall := (List.takeWhile_prefix _).eq_of_length hlength
    rw [h, List.append_nil, hall]
    intro c hc
    rw [← hall] at hc
    simpa using List.all_eq_true.mp List.all_takeWhile c hc
  · rfl

/-! ## Texts that are not open -/

theorem IsStub.head?_ne {w : Text} (h : IsStub w) : w.head? ≠ some '\\' := by
  intro hw
  obtain ⟨v, rfl⟩ := List.head?_eq_some_iff.mp hw
  rcases h with h | ⟨h, _⟩
  · simp at h
  · exact h rfl

theorem isOpen_iff {t : Text} :
    IsOpen t ↔ ∃ a b, t = a ++ '\\' :: b ∧ finalBackslashes a % 2 = 0 ∧ IsStub b := by
  constructor
  · intro h₀
    obtain ⟨i, hi, hactive, hstub⟩ := h₀
    obtain ⟨hget, _, hodd⟩ := hactive
    have hlast : t[i] = '\\' := Option.some.inj ((List.getElem?_eq_getElem hi).symm.trans hget)
    rw [← List.take_append_getElem hi, hlast, finalBackslashes_concat, if_pos rfl] at hodd
    refine ⟨t.take i, t.drop (i + 1), ?_, by omega, hstub⟩
    rw [← hlast, ← List.drop_eq_getElem_cons hi, List.take_append_drop]
  · intro h₀
    obtain ⟨a, b, rfl, heven, hstub⟩ := h₀
    refine ⟨a.length, ?_, (isActive_cut_iff heven).mpr hstub.head?_ne, ?_⟩
    · rw [List.length_append, List.length_cons]
      omega
    · rw [drop_cut]
      exact hstub

theorem isStub_of_isPrefix {s : Special} {w : Text} (h : w <+: s.sequence.tail)
    (hne : w ≠ s.sequence.tail) : IsStub w := by
  apply Or.inl
  cases s <;> simp [Special.sequence, Special.symbol, List.prefix_cons_iff] at h hne ⊢ <;> grind

theorem isSeam_of_not_isOpen {t : Text} (h : ¬ IsOpen t) (y : Text) : IsSeam t y := by
  intro a b ht heven
  have hstub : ¬ IsStub b := fun hs => h (isOpen_iff.mpr ⟨a, b, ht, heven, hs⟩)
  constructor
  · apply read?_append
    intro s hs
    rcases List.prefix_or_prefix_of_prefix hs (List.prefix_append b y) with hp | hp
    · exact hp
    · by_cases hb : b = s.sequence.tail
      · exact hb ▸ List.prefix_rfl
      · exact absurd (isStub_of_isPrefix hp hb) hstub
  · apply continuation?_append
    · apply breakLength_append
      · intro hb
        subst hb
        exact hstub (by decide)
      · intro hb
        subst hb
        exact absurd (by decide) hstub
    · intro hb
      apply indentation_append
      intro hall
      exact absurd (.inr ⟨hb, hall⟩) hstub

/-! ## Texts that are open -/

/-- A backslash completes nothing, unless it is the second of a pair. -/
theorem isSeam_backslash {t : Text} (h : finalBackslashes t % 2 = 0) (y : Text) :
    IsSeam t ('\\' :: y) := by
  intro a b ht heven
  have hne : b ≠ [] := by
    intro hb
    subst hb
    rw [ht, finalBackslashes_concat, if_pos rfl] at h
    omega
  constructor
  · apply read?_append
    intro s hs
    rcases List.prefix_or_prefix_of_prefix hs (List.prefix_append b _) with hp | hp
    · exact hp
    obtain ⟨r, hr⟩ := hp
    rw [← hr, List.prefix_append_right_inj] at hs
    rcases List.prefix_cons_iff.mp hs with rfl | ⟨r', rfl, _⟩
    · rw [List.append_nil] at hr
      exact hr ▸ List.prefix_rfl
    · by_cases hs : s = .backslash
      · subst hs
        have hlength := congrArg List.length hr
        have hpos := List.length_pos_iff.mpr hne
        rw [List.length_append, List.length_cons] at hlength
        change b.length + (r'.length + 1) = 1 at hlength
        omega
      · have hmem : '\\' ∈ s.sequence.tail := by simp [← hr]
        exact absurd rfl (ne_of_mem_sequence_tail hs _ hmem)
  · apply continuation?_append
    · apply breakLength_append hne
      intro _
      exact fun h₀ => nomatch h₀
    · intro _
      apply indentation_append
      intro _
      rfl

theorem protect_line {w : Text} (hb : breakLength w ≠ 0)
    (hall : ∀ c ∈ w.drop (breakLength w), c = ' ' ∨ c = '\t') : protect ('\\' :: w) = [] := by
  have hindent : indentation (w.drop (breakLength w)) = w.drop (breakLength w) := by
    have hrun := @List.takeWhile_append_of_pos _ (fun c => c = ' ' || c = '\t')
      (w.drop (breakLength w)) [] (by simpa using hall)
    simpa [indentation] using hrun
  have hline : continuation? (w ++ []) = some w := by
    rw [List.append_nil, continuation?_eq_ite, if_neg hb, hindent, List.take_append_drop]
  have hprotect := protect_continuation_append hline
  rwa [List.append_nil, protect_nil] at hprotect

theorem IsStub.exists_completion {w : Text} (h : IsStub w) :
    ∃ y, protect ('\\' :: (w ++ y)) ≠ protect ('\\' :: w) ++ protect y := by
  rcases h with h | ⟨hb, hall⟩
  · have key : ∀ v y : Text, (protect ('\\' :: (v ++ y))).length <
        (protect ('\\' :: v) ++ protect y).length →
        ∃ y, protect ('\\' :: (v ++ y)) ≠ protect ('\\' :: v) ++ protect y := by
      intro v y hlt
      refine ⟨y, ?_⟩
      intro heq
      rw [heq] at hlt
      exact Nat.lt_irrefl _ hlt
    simp only [List.mem_cons, List.not_mem_nil, or_false] at h
    rcases h with rfl | rfl | rfl | rfl | rfl | rfl
    · exact key [] ['%'] (by cbv)
    · exact key ['^'] ['{', '}'] (by cbv)
    · exact key ['^', '{'] ['}'] (by cbv)
    · exact key ['~'] ['{', '}'] (by cbv)
    · exact key ['~', '{'] ['}'] (by cbv)
    · exact key ['\r'] ['\n'] (by cbv)
  · refine ⟨[' '], ?_⟩
    have hbreak : breakLength (w ++ [' ']) = breakLength w := by
      apply breakLength_append
      · intro hw
        subst hw
        exact hb rfl
      · intro _
        decide +revert
    have hblank : ∀ c ∈ (w ++ [' ']).drop (breakLength (w ++ [' '])), c = ' ' ∨ c = '\t' := by
      rw [hbreak, List.drop_append_of_le_length (breakLength_le_length w)]
      intro c hc
      rcases List.mem_append.mp hc with hc | hc
      · exact hall c hc
      · exact .inl (List.mem_singleton.mp hc)
    rw [protect_line (hbreak ▸ hb) hblank, protect_line hb hall, List.nil_append,
      protect_cons_of_ne (by decide)]
    exact (List.cons_ne_nil _ _).symm

/-- Some text completes what an open text starts. -/
theorem IsOpen.exists_completion {t : Text} (h : IsOpen t) :
    ∃ y, protect (t ++ y) ≠ protect t ++ protect y := by
  obtain ⟨a, b, rfl, heven, hstub⟩ := isOpen_iff.mp h
  have hcut : ∀ z, protect (a ++ '\\' :: z) = protect a ++ protect ('\\' :: z) :=
    fun z => protect_append (isSeam_backslash heven z)
  obtain ⟨y, hy⟩ := hstub.exists_completion
  refine ⟨y, ?_⟩
  rw [List.append_assoc, List.cons_append, hcut, hcut, List.append_assoc]
  intro heq
  exact hy (List.append_cancel_left heq)

theorem protect_append_of_not_isOpen {t : Text} (h : ¬ IsOpen t) (y : Text) :
    protect (t ++ y) = protect t ++ protect y :=
  protect_append (isSeam_of_not_isOpen h y)

end Text

end LatexTokens
