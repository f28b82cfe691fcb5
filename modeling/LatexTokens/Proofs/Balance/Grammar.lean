import LatexTokens.Enclosure

/-!
# Balanced texts

A text is balanced if each of its groups is closed by its own delimiter. Delimiters in comments do
not count, and brackets count only where they nest. Since a comment goes to the end of the line,
one that has no line feed ends the whole text, and no group around it can be closed any more.

`Balanced.foldlM_braceStep` is the same of braces alone, read from left to right: over a balanced
text the number of open braces comes back to where it was, and never goes below that.
-/

set_option autoImplicit false

namespace LatexTokens

/-- The delimiters of the groups that count. -/
def Nesting.delimiters : Nesting → List Delimiter
  | .braces => [.brace]
  | .bracesAndBrackets => [.brace, .bracket]

/-- Whether a character neither starts a comment nor delimits a group. -/
def Nesting.IsOrdinary (n : Nesting) (c : Char) : Prop :=
  c ≠ '%' ∧ ∀ d ∈ n.delimiters, c ≠ d.opening ∧ c ≠ d.closing

theorem Nesting.brace_mem_delimiters (n : Nesting) : Delimiter.brace ∈ n.delimiters := by
  cases n <;> exact List.mem_cons_self

theorem Nesting.IsOrdinary.braces {n : Nesting} {c : Char} (h : n.IsOrdinary c) :
    Nesting.braces.IsOrdinary c := by
  refine ⟨h.1, ?_⟩
  intro d hd
  obtain rfl := List.mem_singleton.mp hd
  exact h.2 .brace n.brace_mem_delimiters

theorem Nesting.isOrdinary_braces_iff {c : Char} :
    Nesting.braces.IsOrdinary c ↔ c ≠ '%' ∧ c ≠ '{' ∧ c ≠ '}' := by
  simp [IsOrdinary, delimiters, Delimiter.opening, Delimiter.closing]

/-- A class of characters without the three that matter has ordinary characters only. -/
theorem Nesting.isOrdinary_of_class {p : Char → Bool}
    (hp : p '%' = false ∧ p '{' = false ∧ p '}' = false) {c : Char} (h : p c = true) :
    Nesting.braces.IsOrdinary c := by
  have hne {d : Char} (hd : p d = false) : c ≠ d := by
    rintro rfl
    cases hd.symm.trans h
  exact isOrdinary_braces_iff.mpr ⟨hne hp.1, hne hp.2.1, hne hp.2.2⟩

/-- The flag says whether the text ends inside a comment. -/
inductive Balanced : Nesting → Bool → Text → Prop where
  | nil {n : Nesting} : Balanced n false []
  | ordinary {n : Nesting} {commented : Bool} {c : Char} {t : Text} : n.IsOrdinary c →
      Balanced n commented t → Balanced n commented (c :: t)
  | comment {n : Nesting} {commented : Bool} {body t : Text} : '\n' ∉ body →
      Balanced n commented t → Balanced n commented ('%' :: (body ++ '\n' :: t))
  | lastComment {n : Nesting} {body : Text} : '\n' ∉ body → Balanced n true ('%' :: body)
  | group {n : Nesting} {commented : Bool} {d : Delimiter} {inner t : Text} : d ∈ n.delimiters →
      Balanced (Enclosure.group d).nesting false inner → Balanced n commented t →
      Balanced n commented (d.opening :: (inner ++ d.closing :: t))

/-- Whether a whole document, or a whole region, is balanced in its braces. -/
def Text.IsBraceBalanced (t : Text) : Prop := ∃ commented, Balanced .braces commented t

namespace Balanced

theorem append {n : Nesting} {u v : Text} {commented : Bool} (hu : Balanced n false u)
    (hv : Balanced n commented v) : Balanced n commented (u ++ v) := by
  generalize hb : false = b at hu
  induction hu with
  | nil => exact hv
  | ordinary hc _ ih => exact .ordinary hc (ih hv hb)
  | @comment n _ body t hbody _ ih =>
    rw [List.cons_append, List.append_assoc, List.cons_append]
    exact .comment hbody (ih hv hb)
  | lastComment => cases hb
  | @group n _ d inner t hd hi _ _ ih =>
    rw [List.cons_append, List.append_assoc, List.cons_append]
    exact .group hd hi (ih hv hb)

theorem of_ordinary {n : Nesting} {t : Text} (h : ∀ c ∈ t, n.IsOrdinary c) :
    Balanced n false t := by
  induction t with
  | nil => exact .nil
  | cons c t ih =>
    apply ordinary (h c List.mem_cons_self)
    apply ih
    intro d hd
    exact h d (List.mem_cons_of_mem c hd)

/-- Where brackets do not count, they are characters like others. -/
theorem braces {n : Nesting} {commented : Bool} {t : Text} (h : Balanced n commented t) :
    Balanced .braces commented t := by
  induction h with
  | nil => exact .nil
  | ordinary hc _ ih => exact .ordinary hc.braces ih
  | comment hbody _ ih => exact .comment hbody ih
  | lastComment hbody => exact .lastComment hbody
  | @group n _ d inner t _ _ _ ihi ih =>
    cases d with
    | brace => exact .group List.mem_cons_self ihi ih
    | bracket =>
      apply ordinary ⟨by decide, by decide⟩
      apply ihi.append
      exact .ordinary ⟨by decide, by decide⟩ ih

theorem around {e : Enclosure} {inner : Text} (h : Balanced e.nesting false inner) :
    Balanced .braces false (e.opening ++ (inner ++ e.closing)) := by
  have hi := h.braces
  rcases e with d | f
  · cases d with
    | brace => exact .group List.mem_cons_self hi .nil
    | bracket =>
      apply ordinary ⟨by decide, by decide⟩
      apply hi.append
      exact .ordinary ⟨by decide, by decide⟩ .nil
  · apply append
    · apply of_ordinary
      cases f <;> simp [Enclosure.opening, Nesting.IsOrdinary, Nesting.delimiters,
        Delimiter.opening, Delimiter.closing]
    · apply hi.append
      apply of_ordinary
      cases f <;> simp [Enclosure.closing, Nesting.isOrdinary_braces_iff]

end Balanced

/-- The number of open braces after a character, and whether a comment is open there, given the
same before it. There is none after a brace that closes nothing. -/
def braceStep : Nat × Bool → Char → Option (Nat × Bool)
  | (depth, true), c => some (depth, c != '\n')
  | (depth, false), '%' => some (depth, true)
  | (depth, false), '{' => some (depth + 1, false)
  | (0, false), '}' => none
  | (depth + 1, false), '}' => some (depth, false)
  | s, _ => some s

theorem Nesting.IsOrdinary.braceStep_eq {n : Nesting} {c : Char} (h : n.IsOrdinary c)
    (depth : Nat) : braceStep (depth, false) c = some (depth, false) := by
  obtain ⟨ho, hc⟩ := h.2 .brace n.brace_mem_delimiters
  unfold braceStep
  split
  case h_2 => exact absurd rfl h.1
  case h_3 => exact absurd rfl ho
  case h_6 => rfl
  all_goals simp_all [Delimiter.closing]

theorem foldlM_braceStep_comment {body : Text} (h : '\n' ∉ body) (depth : Nat) :
    body.foldlM braceStep (depth, true) = some (depth, true) := by
  induction body with
  | nil => rfl
  | cons c body ih =>
    rw [List.mem_cons, not_or] at h
    have hc : (c != '\n') = true := by simpa using Ne.symm h.1
    rw [List.foldlM_cons, braceStep, hc]
    exact ih h.2

theorem foldlM_braceStep_append {s s' : Nat × Bool} {u : Text}
    (h : u.foldlM braceStep s = some s') (v : Text) :
    (u ++ v).foldlM braceStep s = v.foldlM braceStep s' := by
  rw [List.foldlM_append, h]
  rfl

theorem Balanced.foldlM_braceStep {n : Nesting} {commented : Bool} {t : Text}
    (h : Balanced n commented t) (depth : Nat) :
    t.foldlM braceStep (depth, false) = some (depth, commented) := by
  induction h generalizing depth with
  | nil => rfl
  | ordinary hc _ ih =>
    rw [List.foldlM_cons, hc.braceStep_eq]
    exact ih depth
  | @comment n _ body t hbody _ ih =>
    change (body ++ '\n' :: t).foldlM braceStep (depth, true) = _
    rw [foldlM_braceStep_append (foldlM_braceStep_comment hbody depth)]
    exact ih depth
  | lastComment hbody => exact foldlM_braceStep_comment hbody depth
  | @group n _ d inner t _ _ _ ihi ih =>
    cases d with
    | brace =>
      change (inner ++ '}' :: t).foldlM braceStep (depth + 1, false) = _
      rw [foldlM_braceStep_append (ihi (depth + 1))]
      exact ih depth
    | bracket =>
      change (inner ++ ']' :: t).foldlM braceStep (depth, false) = _
      rw [foldlM_braceStep_append (ihi depth)]
      exact ih depth

end LatexTokens
