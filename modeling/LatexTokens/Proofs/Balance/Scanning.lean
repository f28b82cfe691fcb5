import LatexTokens.Proofs.Balance.Passing
import LatexTokens.Proofs.Lexing.Closing

/-!
# Enclosures hold balanced texts

What the scan for a closing has passed over when it finds one closes the groups that were open
before, innermost first (`Scan.completes_of_find`). So what an enclosure holds is balanced.
-/

set_option autoImplicit false

namespace LatexTokens

/-- Groups that can be open at once, with the number of braces among them: braces can be open in
brackets, but no bracket opens a group in a brace. -/
inductive Stacked (n : Nesting) : Nat → List (Delimiter × Nat) → Prop where
  | nil : Stacked n 0 []
  | brace {depth start : Nat} {opened : List (Delimiter × Nat)} : Stacked n depth opened →
      Stacked n (depth + 1) ((.brace, start) :: opened)
  | bracket {start : Nat} {opened : List (Delimiter × Nat)} : n = .bracesAndBrackets →
      Stacked n 0 opened → Stacked n 0 ((.bracket, start) :: opened)

/-- Which delimiters open groups in the innermost of some groups. -/
def Nesting.inside (n : Nesting) : List Delimiter → Nesting
  | [] => n
  | d :: _ => (Enclosure.group d).nesting

theorem Stacked.mode_eq {n : Nesting} {depth : Nat} {s : Scan} (h : Stacked n depth s.opened) :
    s.mode n = n.inside (s.opened.map Prod.fst) := by
  obtain ⟨opened, commented⟩ := s
  cases h with
  | nil => cases n <;> rfl
  | brace => cases n <;> rfl
  | bracket hn =>
    subst hn
    rfl

theorem Stacked.eq_zero_of_bracket {n : Nesting} {depth : Nat} {s : Scan}
    (h : Stacked n depth s.opened) (hd : Delimiter.bracket ∈ (s.mode n).delimiters) :
    n = .bracesAndBrackets ∧ depth = 0 := by
  rw [h.mode_eq] at hd
  cases hs : s.opened with
  | nil =>
    rw [hs] at h hd
    cases h
    cases n with
    | braces => cases List.mem_singleton.mp hd
    | bracesAndBrackets => exact ⟨rfl, rfl⟩
  | cons e opened =>
    rw [hs] at h hd
    cases h with
    | brace => cases List.mem_singleton.mp hd
    | bracket hn => exact ⟨hn, rfl⟩

/-- A step counts braces as `braceStep` does, over any number of braces around the region. -/
theorem Stacked.passes {n : Nesting} {depth position : Nat} {s s' : Scan} {c : Char}
    (h : Stacked n depth s.opened) (hc : s.Passes n position c s') :
    ∃ depth', Stacked n depth' s'.opened ∧ ∀ around,
      braceStep (depth + around, s.commented) c = some (depth' + around, s'.commented) := by
  cases hc with
  | inComment hs hc =>
    refine ⟨depth, h, ?_⟩
    intro around
    rw [hs, braceStep]
    simpa using hc
  | endComment hs =>
    refine ⟨depth, h, ?_⟩
    intro around
    rw [hs]
    rfl
  | startComment hs =>
    refine ⟨depth, h, ?_⟩
    intro around
    rw [hs]
    rfl
  | @opening d hs hd =>
    cases d with
    | brace =>
      refine ⟨depth + 1, h.brace, ?_⟩
      intro around
      rw [hs, Nat.add_right_comm]
      exact congrArg (fun b => some (_, b)) hs.symm
    | bracket =>
      obtain ⟨hn, rfl⟩ := h.eq_zero_of_bracket hd
      refine ⟨0, h.bracket hn, ?_⟩
      intro around
      rw [hs]
      exact congrArg (fun b => some (_, b)) hs.symm
  | @closing d start opened hs hd ho =>
    rw [ho] at h
    cases h with
    | @brace depth _ _ h =>
      refine ⟨depth, h, ?_⟩
      intro around
      rw [hs, Nat.add_right_comm]
      rfl
    | bracket _ h =>
      refine ⟨0, h, ?_⟩
      intro around
      rw [hs]
      rfl
  | ordinary hs hc =>
    refine ⟨depth, h, ?_⟩
    intro around
    rw [hs]
    exact hc.braceStep_eq _

/-- Whether a text closes some open groups, innermost first, and is balanced apart from that. -/
def Unwinds (n : Nesting) : List Delimiter → Text → Prop
  | [], t => Balanced n false t
  | d :: ds, t => ∃ inner rest, t = inner ++ d.closing :: rest ∧
      Balanced (Enclosure.group d).nesting false inner ∧ Unwinds n ds rest

namespace Unwinds
variable {n : Nesting} {ds : List Delimiter} {t : Text}

theorem ordinary {c : Char} (hc : (n.inside ds).IsOrdinary c) (h : Unwinds n ds t) :
    Unwinds n ds (c :: t) := by
  cases ds with
  | nil => exact Balanced.ordinary hc h
  | cons d ds =>
    obtain ⟨inner, rest, rfl, hi, hr⟩ := h
    exact ⟨c :: inner, rest, rfl, .ordinary hc hi, hr⟩

theorem comment {body : Text} (hbody : '\n' ∉ body) (h : Unwinds n ds t) :
    Unwinds n ds ('%' :: (body ++ '\n' :: t)) := by
  cases ds with
  | nil => exact Balanced.comment hbody h
  | cons d ds =>
    obtain ⟨inner, rest, rfl, hi, hr⟩ := h
    refine ⟨'%' :: (body ++ '\n' :: inner), rest, ?_, .comment hbody hi, hr⟩
    simp only [List.cons_append, List.append_assoc]

theorem opening {d : Delimiter} (hd : d ∈ (n.inside ds).delimiters)
    (h : Unwinds n (d :: ds) t) : Unwinds n ds (d.opening :: t) := by
  obtain ⟨inner, rest, rfl, hi, hr⟩ := h
  cases ds with
  | nil => exact Balanced.group hd hi hr
  | cons e ds =>
    obtain ⟨inner', rest, rfl, hi', hr⟩ := hr
    refine ⟨d.opening :: (inner ++ d.closing :: inner'), rest, ?_, .group hd hi hi', hr⟩
    simp only [List.cons_append, List.append_assoc]

theorem closing (d : Delimiter) (h : Unwinds n ds t) : Unwinds n (d :: ds) (d.closing :: t) :=
  ⟨[], t, rfl, .nil, h⟩

end Unwinds

namespace Scan

/-- Whether a text ends the comment that is open and closes the groups that are. -/
def Completes (n : Nesting) (s : Scan) (t : Text) : Prop :=
  if s.commented then ∃ body rest, t = body ++ '\n' :: rest ∧ '\n' ∉ body ∧
    Unwinds n (s.opened.map Prod.fst) rest
  else Unwinds n (s.opened.map Prod.fst) t

variable {n : Nesting} {s : Scan} {t inner rest closing : Text} {position : Nat}

theorem Passes.completes {s' : Scan} {c : Char} (hc : s.Passes n position c s') {depth : Nat}
    (hs : Stacked n depth s.opened) (h : s'.Completes n t) : s.Completes n (c :: t) := by
  unfold Completes at h ⊢
  cases hc with
  | inComment hcom hne =>
    rw [if_pos hcom] at h ⊢
    obtain ⟨body, rest, rfl, hbody, hr⟩ := h
    refine ⟨c :: body, rest, rfl, ?_, hr⟩
    rw [List.mem_cons, not_or]
    exact ⟨Ne.symm hne, hbody⟩
  | endComment hcom =>
    rw [if_pos hcom]
    exact ⟨[], t, rfl, List.not_mem_nil, h⟩
  | startComment hcom =>
    rw [if_neg (by simp [hcom])]
    obtain ⟨body, rest, rfl, hbody, hr⟩ := h
    exact hr.comment hbody
  | opening hcom hd =>
    rw [if_neg (by simp [hcom])]
    rw [hs.mode_eq] at hd
    rw [if_neg (by simp [push, hcom])] at h
    exact Unwinds.opening hd h
  | closing hcom hd ho =>
    rw [if_neg (by simp [hcom])] at h ⊢
    rw [ho]
    exact h.closing _
  | ordinary hcom hord =>
    rw [if_neg (by simp [hcom])] at h ⊢
    rw [hs.mode_eq] at hord
    exact h.ordinary hord

theorem isIdle_iff : s.isIdle = true ↔ s.opened = [] ∧ s.commented = false := by
  simp [isIdle]

theorem completes_of_find {depth : Nat} (hs : Stacked n depth s.opened)
    (h : s.find n closing position t = .ok (some (inner, rest))) : s.Completes n inner := by
  induction t generalizing s position inner depth with
  | nil =>
    rw [find] at h
    split at h <;> cases h
  | cons c t ih =>
    rw [find] at h
    split at h
    · next hi =>
      cases h
      obtain ⟨ho, hcom⟩ := isIdle_iff.mp (Bool.and_eq_true_iff.mp hi).1
      rw [Completes, if_neg (by simp [hcom]), ho]
      exact Balanced.nil
    · split at h
      · cases h
      · next s' hstep =>
        split at h
        · cases h
        · cases h
        · next hf =>
          cases h
          have hc := step_eq_ok_iff.mp hstep
          obtain ⟨depth', hs', _⟩ := hs.passes hc
          exact hc.completes hs (ih hs' hf)

end Scan

theorem Enclosure.Encloses.balanced {e : Enclosure} {inner : Text} (h : e.Encloses inner) :
    Balanced e.nesting false inner := by
  have hs := h []
  rw [Enclosure.split] at hs
  split at hs <;> cases hs
  next hf => exact Scan.completes_of_find .nil hf

end LatexTokens
