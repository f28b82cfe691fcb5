import LatexTokens.Proofs.Balance.Scanning

/-!
# Groups that a text leaves open

`Scan.passOver` passes over a whole text. What it has open at the end is what the text leaves open
by its grammar (`Scan.passOver_eq_ok_iff`): a text is balanced up to the first group that stays
open, and inside each such group up to the next.
-/

set_option autoImplicit false

namespace LatexTokens

/-- Which groups are open at the end of a text, innermost first, each with its offset if the text
starts at an offset; the flag says whether a comment is open there too. -/
inductive Opens (n : Nesting) (start : Nat) : List (Delimiter × Nat) → Bool → Text → Prop where
  | none {commented : Bool} {t : Text} : Balanced n commented t → Opens n start [] commented t
  | inside {opened : List (Delimiter × Nat)} {commented : Bool} {d : Delimiter} {t inner : Text} :
      Opens n start opened false t → d ∈ (n.inside (opened.map Prod.fst)).delimiters →
      Balanced (Enclosure.group d).nesting commented inner →
      Opens n start ((d, start + t.size) :: opened) commented (t ++ d.opening :: inner)

namespace Balanced

/-- A text that ends inside a comment goes on there. -/
theorem concat_in_comment {n : Nesting} {t : Text} (h : Balanced n true t) {c : Char}
    (hc : c ≠ '\n') : Balanced n true (t ++ [c]) := by
  generalize hb : true = b at h
  induction h with
  | nil => cases hb
  | ordinary ho _ ih => exact .ordinary ho (ih hb)
  | @comment n _ body t hbody _ ih =>
    rw [List.cons_append, List.append_assoc, List.cons_append]
    exact .comment hbody (ih hb)
  | lastComment hbody =>
    apply lastComment
    simp [hbody, hc.symm]
  | @group n _ d inner t hd hi _ _ ih =>
    rw [List.cons_append, List.append_assoc, List.cons_append]
    exact .group hd hi (ih hb)

theorem concat_newline {n : Nesting} {t : Text} (h : Balanced n true t) :
    Balanced n false (t ++ ['\n']) := by
  generalize hb : true = b at h
  induction h with
  | nil => cases hb
  | ordinary ho _ ih => exact .ordinary ho (ih hb)
  | @comment n _ body t hbody _ ih =>
    rw [List.cons_append, List.append_assoc, List.cons_append]
    exact .comment hbody (ih hb)
  | lastComment hbody => exact .comment hbody .nil
  | @group n _ d inner t hd hi _ _ ih =>
    rw [List.cons_append, List.append_assoc, List.cons_append]
    exact .group hd hi (ih hb)

end Balanced

namespace Opens
variable {n : Nesting} {start : Nat} {opened : List (Delimiter × Nat)} {u v : Text}

theorem append {commented : Bool} (h : Opens n start opened false u)
    (hv : Balanced (n.inside (opened.map Prod.fst)) commented v) :
    Opens n start opened commented (u ++ v) := by
  cases h with
  | none hu => exact .none (hu.append hv)
  | inside ht hd hi =>
    rw [List.append_assoc, List.cons_append]
    exact .inside ht hd (hi.append hv)

theorem concat_in_comment (h : Opens n start opened true u) {c : Char} (hc : c ≠ '\n') :
    Opens n start opened true (u ++ [c]) := by
  cases h with
  | none hu => exact .none (hu.concat_in_comment hc)
  | inside ht hd hi =>
    rw [List.append_assoc, List.cons_append]
    exact .inside ht hd (hi.concat_in_comment hc)

theorem concat_newline (h : Opens n start opened true u) :
    Opens n start opened false (u ++ ['\n']) := by
  cases h with
  | none hu => exact .none hu.concat_newline
  | inside ht hd hi =>
    rw [List.append_assoc, List.cons_append]
    exact .inside ht hd hi.concat_newline

theorem concat_closing {d : Delimiter} {p : Nat} (h : Opens n start ((d, p) :: opened) false u) :
    Opens n start opened false (u ++ [d.closing]) := by
  cases h with
  | @inside _ _ _ t inner ht hd hi =>
    rw [List.append_assoc, List.cons_append]
    exact ht.append (.group hd hi .nil)

theorem stacked {commented : Bool} (h : Opens n start opened commented u) :
    ∃ depth, Stacked n depth opened := by
  induction h with
  | none => exact ⟨0, .nil⟩
  | @inside opened _ d _ _ _ hd _ ih =>
    obtain ⟨depth, hs⟩ := ih
    cases d with
    | brace => exact ⟨depth + 1, hs.brace⟩
    | bracket =>
      have hs : Stacked n depth (Scan.mk opened false).opened := hs
      rw [← hs.mode_eq] at hd
      obtain ⟨hn, rfl⟩ := hs.eq_zero_of_bracket hd
      exact ⟨0, .bracket hn hs⟩

theorem mode_eq {s : Scan} {commented : Bool} (h : Opens n start s.opened commented u) :
    s.mode n = n.inside (s.opened.map Prod.fst) := by
  obtain ⟨_, hs⟩ := h.stacked
  exact hs.mode_eq

/-- Passing over one more character. -/
theorem passes {s s' : Scan} {c : Char} (h : Opens n start s.opened s.commented u)
    (hc : s.Passes n (start + u.size) c s') : Opens n start s'.opened s'.commented (u ++ [c]) := by
  have hmode := h.mode_eq
  cases hc with
  | inComment hs hne =>
    rw [hs] at h ⊢
    exact h.concat_in_comment hne
  | endComment hs =>
    rw [hs] at h
    exact h.concat_newline
  | startComment hs =>
    rw [hs] at h
    exact h.append (.lastComment List.not_mem_nil)
  | opening hs hd =>
    rw [hs] at h
    rw [hmode] at hd
    simp only [Scan.push, hs]
    exact .inside h hd .nil
  | closing hs hd ho =>
    rw [hs, ho] at h
    simp only [hs]
    exact h.concat_closing
  | ordinary hs hord =>
    rw [hs] at h ⊢
    rw [hmode] at hord
    exact h.append (.ordinary hord .nil)

/-- The delimiters that cannot be passed over behind a text. -/
theorem step_eq_error_iff {s : Scan} {c : Char} {p : Nat} {f : Fault}
    (h : Opens n start s.opened s.commented u) : s.step n p c = .error f ↔ s.commented = false ∧
      ((s.opened = [] ∧ ∃ d ∈ n.delimiters, c = d.closing ∧
          f = .point p (.noMatchingOpener d.closing)) ∨
        ∃ q opened, s.opened = (.bracket, q) :: opened ∧ c = '}' ∧
          f = .point p (.mismatchedDelimiter '[' q '}')) := by
  have hmode := h.mode_eq
  constructor
  · intro hstep
    obtain ⟨hs, d, hd, rfl, hpop⟩ := Scan.pop_of_step_eq_error hstep
    refine ⟨hs, ?_⟩
    unfold Scan.pop at hpop
    split at hpop
    · next ho =>
      cases hpop
      rw [hmode, ho] at hd
      exact .inl ⟨ho, d, hd, rfl, rfl⟩
    · next e q opened ho =>
      split at hpop
      · cases hpop
      · next hne =>
        cases hpop
        rw [hmode, ho] at hd
        cases e with
        | brace => exact absurd (List.mem_singleton.mp hd).symm hne
        | bracket =>
          cases d with
          | brace => exact .inr ⟨q, opened, ho, rfl, rfl⟩
          | bracket => exact absurd rfl hne
  · rintro ⟨hs, ⟨ho, d, hd, rfl, rfl⟩ | ⟨q, opened, ho, rfl, rfl⟩⟩
    · have hd : d ∈ (s.mode n).delimiters := by
        rw [hmode, ho]
        exact hd
      rw [Scan.step_closing hs hd, Scan.pop, ho]
    · have hclosing : s.step n p '}' = s.pop .brace p :=
        Scan.step_closing hs (s.mode n).brace_mem_delimiters
      rw [hclosing, Scan.pop, ho]
      rfl

end Opens

namespace Scan

/-- Passes over a text. -/
def passOver (n : Nesting) : Scan → Nat → Text → Except Fault Scan
  | s, _, [] => .ok s
  | s, position, c :: t =>
    match s.step n position c with
    | .error f => .error f
    | .ok s => passOver n s (position + c.utf8Size) t

variable {n : Nesting} {s s' : Scan} {position start : Nat}

theorem passOver_cons {c : Char} {t : Text} (h : s.step n position c = .ok s') :
    s.passOver n position (c :: t) = s'.passOver n (position + c.utf8Size) t := by
  rw [passOver, h]

theorem passOver_append {u : Text} (h : s.passOver n position u = .ok s') (v : Text) :
    s.passOver n position (u ++ v) = s'.passOver n (position + u.size) v := by
  induction u generalizing s position with
  | nil =>
    cases h
    rfl
  | cons c u ih =>
    rw [passOver] at h
    split at h
    · cases h
    · next hs =>
      rw [List.cons_append, passOver_cons hs, ih h, Text.size_cons, Nat.add_assoc]

/-- A text that does not pass has a character that does not. -/
theorem passOver_eq_error_iff {t : Text} {f : Fault} : s.passOver n position t = .error f ↔
    ∃ u c v s', t = u ++ c :: v ∧ s.passOver n position u = .ok s' ∧
      s'.step n (position + u.size) c = .error f := by
  constructor
  · intro h
    induction t generalizing s position with
    | nil => cases h
    | cons c t ih =>
      rw [passOver] at h
      split at h
      · next hs =>
        cases h
        exact ⟨[], c, t, s, rfl, rfl, hs⟩
      · next s₁ hs =>
        obtain ⟨u, a, v, s', rfl, hu, ha⟩ := ih h
        refine ⟨c :: u, a, v, s', rfl, by rw [passOver_cons hs, hu], ?_⟩
        rwa [Text.size_cons, ← Nat.add_assoc]
  · rintro ⟨u, c, v, s', rfl, hu, hc⟩
    rw [passOver_append hu, passOver, hc]

theorem passOver_in_comment (hs : s.commented = true) {body : Text} (hbody : '\n' ∉ body)
    (position : Nat) : s.passOver n position body = .ok s := by
  induction body generalizing position with
  | nil => rfl
  | cons c body ih =>
    rw [List.mem_cons, not_or] at hbody
    rw [passOver_cons (step_in_comment hs (Ne.symm hbody.1)), ih hbody.2]

theorem passOver_comment (hs : s.commented = false) {body : Text} (hbody : '\n' ∉ body)
    (position : Nat) :
    s.passOver n position ('%' :: body) = .ok { s with commented := true } := by
  rw [passOver_cons (step_eq_ok_iff.mpr (.startComment hs)), passOver_in_comment rfl hbody]

theorem setCommented_self {commented : Bool} (h : s.commented = commented) :
    { s with commented } = s := by
  subst h
  rfl

theorem mode_push {d : Delimiter} (hd : d ∈ (s.mode n).delimiters) (position : Nat) :
    (s.push d position).mode n = (Enclosure.group d).nesting := by
  cases d with
  | brace => cases n <;> rfl
  | bracket =>
    have hn := bracket_mem_mode.mp hd
    cases n with
    | braces => cases hn
    | bracesAndBrackets => rfl

/-- A group that was just opened is closed again. -/
theorem step_closing_push {d : Delimiter} (hs : s.commented = false)
    (hd : d ∈ (s.mode n).delimiters) (p : Nat) :
    (s.push d position).step n p d.closing = .ok s := by
  have hd : d ∈ ((s.push d position).mode n).delimiters := by
    rw [mode_push hd]
    cases d <;> decide
  rw [step_closing (s := s.push d position) hs hd]
  exact pop_eq_ok_iff.mpr ⟨position, s.opened, rfl, rfl⟩

/-- A text that is balanced by itself opens a comment or nothing. -/
theorem passOver_of_balanced {m : Nesting} {commented : Bool} {t : Text}
    (h : Balanced m commented t) (hs : s.commented = false) (hm : s.mode n = m) (position : Nat) :
    s.passOver n position t = .ok { s with commented } := by
  induction h generalizing s position with
  | nil => rw [passOver, setCommented_self hs]
  | ordinary hc _ ih =>
    subst hm
    rw [passOver_cons (step_of_ordinary hs hc), ih hs rfl]
  | @comment m _ body t hbody _ ih =>
    have hcomment := passOver_comment (n := n) hs hbody position
    rw [← List.cons_append, passOver_append hcomment, passOver_cons (step_of_commented rfl '\n')]
    exact ih (s := { s with commented := false }) rfl hm _
  | lastComment hbody => exact passOver_comment hs hbody position
  | @group m _ d inner t hd _ _ ihi ih =>
    subst hm
    have hinner := ihi (s := s.push d position) hs (mode_push hd position)
      (position + d.opening.utf8Size)
    rw [setCommented_self (s := s.push d position) hs] at hinner
    rw [passOver_cons (step_opening hs hd), passOver_append hinner,
      passOver_cons (step_closing_push hs hd _), ih hs rfl]

/-- A text passes with the groups that it leaves open. -/
theorem passOver_of_opens {opened : List (Delimiter × Nat)} {commented : Bool} {t : Text}
    (h : Opens n start opened commented t) :
    passOver n {} start t = .ok ⟨opened, commented⟩ := by
  induction h with
  | none h => exact passOver_of_balanced h rfl (by cases n <;> rfl) start
  | @inside opened commented d t inner ht hd hi ih =>
    have hmode : Scan.mode n ⟨opened, false⟩ = n.inside (opened.map Prod.fst) := ht.mode_eq
    rw [← hmode] at hd
    rw [passOver_append ih, passOver_cons (step_opening rfl hd),
      passOver_of_balanced hi rfl (mode_push hd _)]
    rfl

theorem opens_of_passOver {u t : Text} (hs : Opens n start s.opened s.commented u)
    (h : s.passOver n (start + u.size) t = .ok s') :
    Opens n start s'.opened s'.commented (u ++ t) := by
  induction t generalizing s u with
  | nil =>
    cases h
    rwa [List.append_nil]
  | cons c t ih =>
    rw [passOver] at h
    split at h
    · cases h
    · next hstep =>
      have hu := hs.passes (step_eq_ok_iff.mp hstep)
      have hsize : start + u.size + c.utf8Size = start + (u ++ [c]).size := by
        rw [Text.size_append, Nat.add_assoc]
        rfl
      rw [hsize] at h
      have ht := ih hu h
      rwa [List.append_assoc] at ht

/-- What a scan has open behind a text is what the text leaves open. -/
theorem passOver_eq_ok_iff {t : Text} :
    passOver n {} start t = .ok s' ↔ Opens n start s'.opened s'.commented t := by
  constructor
  · intro h
    exact opens_of_passOver (u := []) (.none .nil) h
  · exact passOver_of_opens

end Scan

end LatexTokens
