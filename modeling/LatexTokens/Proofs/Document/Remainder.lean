import Mathlib
import LatexTokens.Proofs.Document.Cursor

/-!
# What is read follows from what is left to read

Reading goes by the text from the cursor on and nothing else: the cursor only says where faults
are placed. So edits up to the cursor can come between readings, in any order, and two documents
with the same rest are read alike.
-/

set_option autoImplicit false

namespace LatexTokens

namespace Document
variable {κ : Type} [TokenCache κ]

/-- Whether a step reads the next token, or edits no text behind the cursor. -/
def StaysBehind (d : Document κ) : Step → Prop
  | .next => True
  | .insert position _ => d.locate position ≤ d.cursor
  | .remove one other => max (d.locate one) (d.locate other) ≤ d.cursor
  | _ => False

def StayBehind (d : Document κ) : List Step → Prop
  | [] => True
  | step :: steps => d.StaysBehind step ∧ StayBehind (d.perform step).2 steps

/-- What the steps that read answer, each with the cursor that it reads at. -/
def readings (d : Document κ) : List Step → List (Nat × Except Fault (Option Token))
  | [] => []
  | .next :: steps => (d.cursor, d.next.1) :: readings d.next.2 steps
  | step :: steps => readings (d.perform step).2 steps

theorem Sound.rest_perform {d : Document κ} (h : d.Sound) {step : Step} (hs : d.StaysBehind step)
    (hne : step ≠ .next) : (d.perform step).2.rest = d.rest := by
  cases step with
  | next => exact absurd rfl hne
  | insert position text => exact (h.editsAroundCursor.insertUpTo position text hs).1
  | remove one other => exact (h.editsAroundCursor.removeUpTo one other hs).1
  | _ => exact hs.elim

theorem readings_cons {d : Document κ} {step : Step} (hne : step ≠ .next) (steps : List Step) :
    d.readings (step :: steps) = (d.perform step).2.readings steps := by
  cases step with
  | next => exact absurd rfl hne
  | _ => rfl

/-- Whether a reading is the one of a text, which starts at the cursor. -/
def Reads (r : Nat × Except Fault (Option Token)) (t : Text) : Prop := r.2 = answerAt r.1 t

variable [LawfulTokenCache κ]

/-- The readings between edits are those of the rest, from which each takes one token off. -/
theorem Sound.forall₂_readings {d : Document κ} (h : d.Sound) {steps : List Step}
    (hs : d.StayBehind steps) :
    List.Forall₂ Reads (d.readings steps)
        (List.iterate afterToken d.rest (steps.count .next)) ∧
      (d.run steps).2.rest = afterToken^[steps.count .next] d.rest := by
  induction steps generalizing d with
  | nil => exact ⟨.nil, rfl⟩
  | cons step steps ih =>
    obtain ⟨hstep, hsteps⟩ := hs
    obtain ⟨hreadings, hrest⟩ := ih (h.perform step) hsteps
    by_cases hne : step = .next
    · subst hne
      have hnext : (d.perform .next).2.rest = afterToken d.rest := h.rest_next
      rw [hnext] at hreadings hrest
      rw [List.count_cons_self]
      exact ⟨.cons h.fst_next hreadings, hrest⟩
    · rw [h.rest_perform hstep hne] at hreadings hrest
      rw [List.count_cons_of_ne hne, readings_cons hne]
      exact ⟨hreadings, hrest⟩

/-- Whether two readings give the same token, or the same fault moved by the difference of the
cursors. -/
def SameReading (r s : Nat × Except Fault (Option Token)) : Prop :=
  match r.2, s.2 with
  | .ok t, .ok u => t = u
  | .error f, .error g => f.shift (s.1 - r.1) = g.shift (r.1 - s.1)
  | _, _ => False

theorem Reads.sameReading {r s : Nat × Except Fault (Option Token)} {t : Text}
    (hr : Reads r t) (hs : Reads s t) : SameReading r s := by
  obtain ⟨p, a⟩ := r
  obtain ⟨q, b⟩ := s
  simp only [Reads, answerAt] at hr hs
  subst hr hs
  cases readToken? t with
  | error f =>
    change (f.shift p).shift (q - p) = (f.shift q).shift (p - q)
    rw [Fault.shift_shift, Fault.shift_shift]
    congr 1
    omega
  | ok token => rfl

theorem forall₂_sameReading {rs ss : List (Nat × Except Fault (Option Token))} {ts : List Text}
    (hr : List.Forall₂ Reads rs ts) (hs : List.Forall₂ Reads ss ts) :
    List.Forall₂ SameReading rs ss := by
  induction hr generalizing ss with
  | nil =>
    cases hs
    exact .nil
  | cons ht _ ih =>
    cases hs with
    | cons hu hus => exact .cons (ht.sameReading hu) (ih hus)

/-- Documents with the same text left to read are read alike, whatever edits up to the cursor
come between the readings. -/
theorem sameReading_of_rest_eq {κ₁ κ₂ : Type} [TokenCache κ₁] [LawfulTokenCache κ₁]
    [TokenCache κ₂] [LawfulTokenCache κ₂] {d₁ : Document κ₁} {d₂ : Document κ₂}
    (h₁ : d₁.Sound) (h₂ : d₂.Sound) (hrest : d₁.rest = d₂.rest) :
    (∀ steps₁ steps₂, d₁.StayBehind steps₁ → d₂.StayBehind steps₂ →
      steps₁.count .next = steps₂.count .next →
      List.Forall₂ SameReading (d₁.readings steps₁) (d₂.readings steps₂) ∧
        (d₁.run steps₁).2.rest = (d₂.run steps₂).2.rest) ∧
    d₁.EditsAroundCursor := by
  refine ⟨?_, h₁.editsAroundCursor⟩
  intro steps₁ steps₂ hs₁ hs₂ hcount
  obtain ⟨hreadings₁, hlast₁⟩ := h₁.forall₂_readings hs₁
  obtain ⟨hreadings₂, hlast₂⟩ := h₂.forall₂_readings hs₂
  rw [hrest, hcount] at hreadings₁ hlast₁
  exact ⟨forall₂_sameReading hreadings₁ hreadings₂, hlast₁.trans hlast₂.symm⟩

/-- A group and a closing brace behind texts of different sizes, with edits in one of them. -/
theorem sameReading_of_rest_eq_group :
    let group : Token := .block [.ofText ['c']] ['{', 'c', '}']
    let d₁ : Document TokenTable :=
      ⟨['a', 'b', '{', 'c', '}', '}'], 2, TokenTable.empty.add 2 group⟩
    let d₂ : Document Uncached := ⟨['é', '{', 'c', '}', '}'], 2, ⟨⟩⟩
    let steps₁ : List Step := [.insert 0 ['x'], .next, .remove 2 0, .next]
    let steps₂ : List Step := [.next, .next]
    d₁.Sound ∧ d₂.Sound ∧ d₁.rest = d₂.rest ∧ d₁.StayBehind steps₁ ∧ d₂.StayBehind steps₂ ∧
      d₁.readings steps₁ =
        [(3, .ok (some group)), (4, .error (.point 4 (.noMatchingOpener '}')))] ∧
      List.Forall₂ SameReading (d₁.readings steps₁) (d₂.readings steps₂) := by
  intro group d₁ d₂ steps₁ steps₂
  have h₁ : d₁.Sound := by
    refine ⟨?_, by decide⟩
    intro p t ht
    rcases TokenTable.get?_add_eq_some_iff.mp ht with ⟨rfl, rfl⟩ | ⟨_, ht⟩
    · exact ⟨by cbv, by cbv⟩
    · cases ht
  have h₂ : d₂.Sound := ⟨d₂.faithful_uncached, by decide⟩
  have hrest : d₁.rest = d₂.rest := by decide
  have hs₁ : d₁.StayBehind steps₁ := by
    refine ⟨?_, trivial, ?_, trivial, trivial⟩
    · change d₁.locate 0 ≤ 2
      decide
    · cbv
  have hs₂ : d₂.StayBehind steps₂ := ⟨trivial, trivial, trivial⟩
  refine ⟨h₁, h₂, hrest, hs₁, hs₂, ?_, ?_⟩
  · cbv
  · exact ((sameReading_of_rest_eq h₁ h₂ hrest).1 steps₁ steps₂ hs₁ hs₂ rfl).1

end Document

end LatexTokens
