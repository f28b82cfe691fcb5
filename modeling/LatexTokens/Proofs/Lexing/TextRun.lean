import LatexTokens.Proofs.Lexing.Standing

/-!
# Runs of text

Without a bracket of its own a run of text goes up to the first character that is not plain. A
run that starts with brackets around text takes these in as the scan for the closing bracket
cuts them: the number of brackets that the run has open is one more than the number of groups that
the scan has (`InBrackets.runStep_of_step`), so both come to the closing together
(`InBrackets.find_eq_some_iff`).
-/

set_option autoImplicit false

namespace LatexTokens

namespace Lexing

theorem mathRun_eq_takeWhile (t : Text) : mathRun t = t.takeWhile (isPlain true) := by
  unfold mathRun
  congr 1
  funext c
  simp [isPlain, Bool.and_comm]

theorem plainRun_zero_eq_takeWhile (t : Text) : plainRun 0 t = t.takeWhile (isPlain false) := by
  induction t with
  | nil => rfl
  | cons c t ih =>
    rw [plainRun]
    by_cases ho : c = '['
    · simp [ho, isPlain]
    by_cases hc : c = ']'
    · simp [hc, isPlain]
    by_cases hs : isSignificant c
    · simp [ho, hc, hs, isPlain]
    · simp [ho, hc, hs, isPlain, ih]

/-- The number of open brackets of a run outside math after a character, given the number before
it. There is none after a character that ends the run. -/
def runStep : Nat → Char → Option Nat
  | 0, c => if isPlain false c then some 0 else none
  | depth + 1, c =>
    if isSignificant c then none
    else some (if c = '[' then depth + 2 else if c = ']' then depth else depth + 1)

theorem plainRun_cons (depth : Nat) (c : Char) (t : Text) :
    plainRun depth (c :: t) =
      match runStep depth c with
      | none => []
      | some depth => c :: plainRun depth t := by
  cases depth <;>
  · rw [plainRun, runStep]
    by_cases ho : c = '['
    · simp [ho, isPlain, isSignificant]
    by_cases hc : c = ']'
    · simp [hc, isPlain, isSignificant]
    cases hs : isSignificant c <;> simp [ho, hc, hs, isPlain]

theorem foldlM_runStep_cons (depth : Nat) (c : Char) (u : Text) :
    (c :: u).foldlM runStep depth = (runStep depth c).bind (u.foldlM runStep) := by
  rw [List.foldlM_cons]
  rfl

theorem plainRun_append {depth d : Nat} {u : Text} (h : u.foldlM runStep depth = some d)
    (t : Text) : plainRun depth (u ++ t) = u ++ plainRun d t := by
  induction u generalizing depth with
  | nil =>
    cases h
    rfl
  | cons c u ih =>
    rw [foldlM_runStep_cons] at h
    obtain ⟨e, hc, hu⟩ := Option.bind_eq_some_iff.mp h
    rw [List.cons_append, plainRun_cons, hc]
    exact congrArg (c :: ·) (ih hu)

theorem prefix_plainRun_iff {depth : Nat} {u t : Text} :
    u <+: plainRun depth t ↔ u <+: t ∧ (u.foldlM runStep depth).isSome := by
  induction u generalizing depth t with
  | nil => simp
  | cons c u ih =>
    cases t with
    | nil => simp [plainRun]
    | cons a t =>
      rw [plainRun_cons, foldlM_runStep_cons, List.cons_prefix_cons]
      cases hc : runStep depth a with
      | none =>
        simp only [List.prefix_nil, reduceCtorEq, false_iff]
        rintro ⟨⟨rfl, -⟩, h⟩
        rw [hc] at h
        cases h
      | some e =>
        rw [List.cons_prefix_cons, ih, and_assoc]
        refine and_congr_right ?_
        rintro rfl
        rw [hc, Option.bind_some]

/-- A run in which no bracket is open opens none. -/
theorem eq_zero_of_foldlM_runStep {d : Nat} {u : Text} (h : u.foldlM runStep 0 = some d) :
    d = 0 := by
  induction u with
  | nil =>
    cases h
    rfl
  | cons c u ih =>
    rw [foldlM_runStep_cons, runStep] at h
    split at h
    · exact ih h
    · cases h

/-- A scan that is in no comment and has only brackets open. -/
structure InBrackets (s : Scan) : Prop where
  commented : s.commented = false
  brackets : ∀ e ∈ s.opened, e.1 = Delimiter.bracket

theorem inBrackets_empty : InBrackets {} := ⟨rfl, by simp⟩

theorem InBrackets.bracketsNest {s : Scan} (h : InBrackets s) :
    s.bracketsNest .bracesAndBrackets = true := by
  have hb := h.brackets
  unfold Scan.bracketsNest
  cases ho : s.opened with
  | nil => rfl
  | cons e es =>
    obtain ⟨d, p⟩ := e
    have hd : d = .bracket := hb (d, p) (ho ▸ List.mem_cons_self)
    rw [hd]

theorem InBrackets.push {s : Scan} (h : InBrackets s) (position : Nat) :
    InBrackets (s.push .bracket position) := by
  refine ⟨h.commented, ?_⟩
  intro e he
  rcases List.mem_cons.mp he with rfl | he
  · rfl
  · exact h.brackets e he

/-- What one character of text does to a scan that has only brackets open. -/
theorem InBrackets.step_eq {s : Scan} (h : InBrackets s) (position : Nat) {c : Char}
    (hc : isSignificant c = false) :
    s.step .bracesAndBrackets position c =
      if c = '[' then .ok (s.push .bracket position)
      else if c = ']' then s.pop .bracket position
      else .ok s := by
  have hp : c ≠ '%' := by
    intro h₀
    subst h₀
    cases hc
  have ho : c ≠ '{' := by
    intro h₀
    subst h₀
    cases hc
  have hb : c ≠ '}' := by
    intro h₀
    subst h₀
    cases hc
  simp only [Scan.step, h.commented, Bool.false_eq_true, if_false, if_neg hp, if_neg ho, if_neg hb,
    h.bracketsNest, Bool.and_true, decide_eq_true_eq]

/-- Inside brackets the groups that the scan has open, and the brackets around it, are what the
counter of the run counts. -/
theorem InBrackets.runStep_of_step {s s' : Scan} (h : InBrackets s) {position : Nat} {c : Char}
    (hc : isSignificant c = false) (hs : s.step .bracesAndBrackets position c = .ok s') :
    InBrackets s' ∧ runStep (s.opened.length + 1) c = some (s'.opened.length + 1) := by
  rw [h.step_eq position hc] at hs
  rw [runStep, hc, if_neg Bool.false_ne_true]
  split at hs
  · next ho =>
    cases hs
    exact ⟨h.push position, congrArg some (if_pos ho)⟩
  · next ho =>
    split at hs
    · next hb =>
      -- The innermost group is closed; it is one of brackets.
      unfold Scan.pop at hs
      split at hs
      · cases hs
      · next e start opened hopened =>
        split at hs
        · cases hs
          refine ⟨⟨h.commented, fun e he => h.brackets e ?_⟩, ?_⟩
          · rw [hopened]
            exact List.mem_cons_of_mem _ he
          · rw [if_neg ho, if_pos hb, hopened, List.length_cons]
        · cases hs
    · next hb =>
      cases hs
      exact ⟨h, by rw [if_neg ho, if_neg hb]⟩

/-- The counter goes on where the scan does. -/
theorem InBrackets.step_of_runStep {s : Scan} (h : InBrackets s) (position : Nat) {c : Char}
    {d : Nat} (hd : runStep (s.opened.length + 1) c = some (d + 1)) :
    isSignificant c = false ∧ ∃ s', s.step .bracesAndBrackets position c = .ok s' := by
  rw [runStep] at hd
  split at hd
  · cases hd
  · next hc =>
    have hc : isSignificant c = false := Bool.eq_false_iff.mpr hc
    refine ⟨hc, ?_⟩
    rw [h.step_eq position hc]
    split
    · exact ⟨_, rfl⟩
    · next ho =>
      split
      · next hb =>
        rw [if_neg ho, if_pos hb] at hd
        obtain ⟨⟨e, start⟩, opened, hopened⟩ :=
          List.exists_cons_of_length_eq_add_one (Option.some.inj hd)
        have he : e = .bracket := h.brackets (e, start) (hopened ▸ List.mem_cons_self)
        refine ⟨{ s with opened }, ?_⟩
        rw [Scan.pop, hopened]
        exact if_pos he
      · exact ⟨s, rfl⟩

/-- At the closing that the scan finds the counter, which counts the brackets around too, is back at
the last of them. -/
theorem InBrackets.foldlM_runStep_of_find {s : Scan} (hs : InBrackets s) {position : Nat}
    {t inner rest : Text}
    (h : s.find .bracesAndBrackets [']'] position t = .ok (some (inner, rest)))
    (hi : ∀ c ∈ inner, isSignificant c = false) :
    inner.foldlM runStep (s.opened.length + 1) = some 1 := by
  induction t generalizing s position inner with
  | nil =>
    rw [Scan.find] at h
    split at h <;> cases h
  | cons c t ih =>
    rw [Scan.find] at h
    split at h
    · next hstop =>
      cases h
      have ho : s.opened = [] := by
        simpa [Scan.isIdle, hs.commented] using (Bool.and_eq_true_iff.mp hstop).1
      rw [ho]
      rfl
    · split at h
      · cases h
      · next s' hstep =>
        split at h
        · cases h
        · cases h
        · next hf =>
          cases h
          obtain ⟨hc, hi⟩ := List.forall_mem_cons.mp hi
          obtain ⟨hs', hrun⟩ := hs.runStep_of_step hc hstep
          rw [foldlM_runStep_cons, hrun]
          exact ih hs' hf hi

/-- Where the counter is back at the bracket around the text, the scan finds a closing. -/
theorem InBrackets.find_of_foldlM_runStep {s : Scan} (hs : InBrackets s) (position : Nat)
    {inner : Text} (h : inner.foldlM runStep (s.opened.length + 1) = some 1) (rest : Text) :
    s.find .bracesAndBrackets [']'] position (inner ++ ']' :: rest) = .ok (some (inner, rest)) ∧
      ∀ c ∈ inner, isSignificant c = false := by
  induction inner generalizing s position with
  | nil =>
    have ho : s.opened = [] := List.length_eq_zero_iff.mp (Nat.succ.inj (Option.some.inj h))
    refine ⟨?_, by simp⟩
    rw [List.nil_append, Scan.find, if_pos (by simp [Scan.isIdle, hs.commented, ho])]
    rfl
  | cons c inner ih =>
    rw [foldlM_runStep_cons] at h
    obtain ⟨e, he, hinner⟩ := Option.bind_eq_some_iff.mp h
    -- The bracket around the text is open up to the end, so the scan does not stop before.
    obtain ⟨d, rfl⟩ : ∃ d, e = d + 1 := by
      refine Nat.exists_eq_succ_of_ne_zero ?_
      rintro rfl
      cases eq_zero_of_foldlM_runStep hinner
    obtain ⟨hc, s', hstep⟩ := hs.step_of_runStep position he
    obtain ⟨hs', hrun⟩ := hs.runStep_of_step hc hstep
    cases he.symm.trans hrun
    obtain ⟨hf, hi⟩ := ih hs' (position + c.utf8Size) hinner
    refine ⟨?_, List.forall_mem_cons.mpr ⟨hc, hi⟩⟩
    rw [List.cons_append, Scan.find, if_neg, hstep]
    · simp only [hf]
    · intro hstop
      obtain ⟨ho, rfl⟩ : s.opened = [] ∧ ']' = c := by
        simpa [Scan.isIdle, hs.commented] using hstop
      rw [ho] at he
      cases he

/-- Over text alone the scan inside brackets finds its closing where the counter of the run is back
at the bracket around. -/
theorem InBrackets.find_eq_some_iff {s : Scan} (hs : InBrackets s) {position : Nat}
    {t inner rest : Text} :
    (s.find .bracesAndBrackets [']'] position t = .ok (some (inner, rest)) ∧
        ∀ c ∈ inner, isSignificant c = false) ↔
      t = inner ++ ']' :: rest ∧ inner.foldlM runStep (s.opened.length + 1) = some 1 := by
  constructor
  · rintro ⟨h, hi⟩
    exact ⟨(Scan.append_eq_of_find h).symm, hs.foldlM_runStep_of_find h hi⟩
  · rintro ⟨rfl, h⟩
    exact hs.find_of_foldlM_runStep position h rest

theorem split_eq_ok_iff_find {e : Enclosure} {t : Text} {parts : Text × Text} :
    e.split t = .ok parts ↔
      Scan.find e.nesting e.closing {} e.opening.size t = .ok (some parts) := by
  rw [Enclosure.split]
  rcases Scan.find e.nesting e.closing {} e.opening.size t with f | _ | found <;> simp

theorem split_bracket_eq_ok_iff {t inner rest : Text} :
    ((Enclosure.group .bracket).split t = .ok (inner, rest) ∧
        ∀ c ∈ inner, isSignificant c = false) ↔
      t = inner ++ ']' :: rest ∧ inner.foldlM runStep 1 = some 1 := by
  rw [split_eq_ok_iff_find]
  exact inBrackets_empty.find_eq_some_iff

/-- Brackets enclose text alone if the count over it comes back to the one bracket around it. -/
theorem encloses_bracket_iff {inner : Text} :
    ((Enclosure.group .bracket).Encloses inner ∧ ∀ c ∈ inner, isSignificant c = false) ↔
      inner.foldlM runStep 1 = some 1 := by
  constructor
  · rintro ⟨he, hi⟩
    exact (split_bracket_eq_ok_iff.mp ⟨he [], hi⟩).2
  · intro h
    have hs := (@split_bracket_eq_ok_iff (inner ++ [']']) inner []).mpr ⟨rfl, h⟩
    exact ⟨Enclosure.encloses_of_split hs.1, hs.2⟩

theorem plainRun_one_of_split {t inner rest : Text}
    (h : (Enclosure.group .bracket).split t = .ok (inner, rest))
    (hi : ∀ c ∈ inner, isSignificant c = false) :
    plainRun 1 t = inner ++ ']' :: plainRun 0 rest := by
  obtain ⟨rfl, hrun⟩ := split_bracket_eq_ok_iff.mp ⟨h, hi⟩
  rw [plainRun_append hrun, plainRun_cons]
  rfl

/-- The literal of text in a region: its first character and the run of plain characters. -/
theorem content_eq_ofText {math : Bool} {c : Char} (h : math = true ∨ c ≠ '[') (t : Text) :
    content math c t = .ofText (c :: t.takeWhile (isPlain math)) := by
  unfold content
  cases math with
  | true => rw [if_pos rfl, mathRun_eq_takeWhile]
  | false =>
    have hc : c ≠ '[' := by simpa using h
    rw [if_neg Bool.false_ne_true, if_neg hc, plainRun_zero_eq_takeWhile]

theorem content_eq_of_split {t inner rest : Text}
    (h : (Enclosure.group .bracket).split t = .ok (inner, rest))
    (hi : ∀ c ∈ inner, isSignificant c = false) :
    content false '[' t =
      .ofText ((Enclosure.group .bracket).around inner ++ rest.takeWhile (isPlain false)) := by
  unfold content
  rw [if_neg Bool.false_ne_true, if_pos rfl, plainRun_one_of_split h hi,
    plainRun_zero_eq_takeWhile, Enclosure.around_group_append]
  rfl

end Lexing

end LatexTokens
