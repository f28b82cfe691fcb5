import Mathlib
import LatexTokens.Proofs.Document.Faithful
import LatexTokens.Proofs.Document.Session

/-!
# A faithful cache cannot be noticed

`Document.forget` is the document without its cache. Each step on a faithful document gives what
it gives on the forgetful one, and leaves both as they were to each other; so does a session.
-/

set_option autoImplicit false

namespace LatexTokens

namespace Document
variable {κ : Type}

/-- The document without its cache. -/
def forget (d : Document κ) : Document Uncached := ⟨d.buffer, d.cursor, ⟨⟩⟩

end Document

namespace TokenStream
variable {κ : Type}

def forget (s : TokenStream κ) : TokenStream Uncached := ⟨s.document.forget, s.failed⟩

end TokenStream

namespace Drained
variable {κ : Type}

def forget (r : Drained κ) : Drained Uncached := ⟨r.tokens, r.fault, r.document.forget⟩

end Drained

namespace Document

theorem peekAhead_uncached (d : Document Uncached) (bytes : Nat) :
    d.peekAhead bytes = (tokenAt? d.buffer (d.cursor + bytes), d) := by
  have hfst := d.faithful_uncached.fst_peekAhead bytes
  refine Prod.ext hfst ?_
  simp only [peekAhead]
  split
  · rfl
  · split <;> rfl

variable {κ : Type} [TokenCache κ]

theorem forget_peekAhead (d : Document κ) (bytes : Nat) :
    (d.peekAhead bytes).2.forget = d.forget := by
  rw [forget, buffer_peekAhead, cursor_peekAhead]
  rfl

theorem Faithful.peekAhead_forget {d : Document κ} (h : d.Faithful) (bytes : Nat) :
    d.forget.peekAhead bytes = ((d.peekAhead bytes).1, (d.peekAhead bytes).2.forget) := by
  rw [peekAhead_uncached, forget_peekAhead, h.fst_peekAhead]
  rfl

theorem Faithful.next_forget {d : Document κ} (h : d.Faithful) :
    d.forget.next = (d.next.1, d.next.2.forget) := by
  have hp := h.peekAhead_forget 0
  rw [Document.next, Document.next, peek, peek, hp]
  rcases hd : d.peekAhead 0 with ⟨r, d'⟩
  rcases r with f | r
  · rfl
  · cases r <;> rfl

theorem insert_forget (d : Document κ) (position : Int) (text : Text) :
    d.forget.insert position text = (d.insert position text).forget := by
  simp only [insert]
  split <;> rfl

theorem remove_forget (d : Document κ) (one other : Int) :
    d.forget.remove one other = (d.remove one other).forget := by
  simp only [remove]
  by_cases hne : min (d.locate one) (d.locate other) = max (d.locate one) (d.locate other)
  · rw [if_pos hne]
    exact if_pos hne
  · rw [if_neg hne]
    exact if_neg hne

end Document

namespace TokenStream
variable {κ : Type} [TokenCache κ]

theorem next_forget {s : TokenStream κ} (h : s.document.Faithful) :
    s.forget.next = (s.next.1, s.next.2.forget) := by
  obtain ⟨d, failed⟩ := s
  cases failed with
  | true => rfl
  | false =>
    rw [next, next, forget]
    simp only [Bool.false_eq_true, if_false, h.next_forget]
    rcases hd : d.next with ⟨r, d'⟩
    rcases r with f | r
    · rfl
    · cases r <;> rfl

variable [LawfulTokenCache κ]

theorem faithful_next {s : TokenStream κ} (h : s.document.Faithful) :
    s.next.2.document.Faithful := by
  have hn := h.next
  rw [next]
  split
  · exact h
  · split <;> next heq => rw [heq] at hn; exact hn

theorem take_forget {s : TokenStream κ} (h : s.document.Faithful) (n : Nat) :
    s.forget.take n = ((s.take n).1, (s.take n).2.forget) ∧ (s.take n).2.document.Faithful := by
  induction n generalizing s with
  | zero => exact ⟨rfl, h⟩
  | succ n ih =>
    obtain ⟨hn, hf⟩ := ih (faithful_next h)
    refine ⟨?_, hf⟩
    simp only [take, next_forget h, hn]

end TokenStream

namespace Document
variable {κ : Type} [TokenCache κ] [LawfulTokenCache κ]

theorem Faithful.drainTo_forget {d : Document κ} (h : d.Faithful) (stop : Nat) :
    d.forget.drainTo stop = (d.drainTo stop).forget ∧ (d.drainTo stop).document.Faithful := by
  fun_induction d.drainTo stop with
  | case1 d f d' heq =>
    have hn := h.next_forget
    have hf := h.next
    rw [heq] at hn hf
    rw [drainTo, hn]
    exact ⟨rfl, hf⟩
  | case2 d d' heq =>
    have hn := h.next_forget
    have hf := h.next
    rw [heq] at hn hf
    rw [drainTo, hn]
    exact ⟨rfl, hf⟩
  | case3 d t d' heq hlt r ih =>
    have hn := h.next_forget
    have hf := h.next
    rw [heq] at hn hf
    obtain ⟨hr, hrf⟩ := ih hf
    rw [drainTo, hn]
    refine ⟨?_, hrf⟩
    have hlt' : stop - d'.forget.cursor < stop - d.forget.cursor := hlt
    simp only [hlt', if_true, hr]
    rfl
  | case4 d t d' heq hge =>
    have hn := h.next_forget
    have hf := h.next
    rw [heq] at hn hf
    rw [drainTo, hn]
    have hge' : ¬ stop - d'.forget.cursor < stop - d.forget.cursor := hge
    simp only [hge', if_false]
    exact ⟨rfl, hf⟩

theorem Faithful.readToEnd_forget {d : Document κ} (h : d.Faithful) :
    d.forget.readToEnd = (d.readToEnd.1, d.readToEnd.2.forget) ∧ d.readToEnd.2.Faithful := by
  obtain ⟨hr, hf⟩ := (h.seek 0).drainTo_forget (d.seek 0).size
  refine ⟨?_, hf⟩
  rw [readToEnd]
  exact congrArg (fun r : Drained Uncached => (r.result, r.document)) hr

/-- One step on a faithful document gives what it gives on the forgetful one, leaves them alike
and the document faithful. -/
theorem Faithful.perform_forget {d : Document κ} (h : d.Faithful) (step : Step) :
    d.forget.perform step = ((d.perform step).1, (d.perform step).2.forget) ∧
      (d.perform step).2.Faithful := by
  cases step with
  | seek position => exact ⟨rfl, h.seek position⟩
  | insert position text =>
    exact ⟨congrArg (Prod.mk _) (d.insert_forget position text), h.insert position text⟩
  | remove one other =>
    exact ⟨congrArg (Prod.mk _) (d.remove_forget one other), h.remove one other⟩
  | next =>
    refine ⟨?_, h.next⟩
    simp only [perform, h.next_forget]
  | peekAhead bytes =>
    refine ⟨?_, h.peekAhead bytes⟩
    simp only [perform, h.peekAhead_forget]
  | stream times =>
    obtain ⟨ht, hf⟩ := TokenStream.take_forget (s := ⟨d, false⟩) h times
    refine ⟨?_, hf⟩
    exact congrArg (fun r : _ × TokenStream Uncached => (Answer.items r.1, r.2.document)) ht
  | readToEnd =>
    obtain ⟨hr, hf⟩ := h.readToEnd_forget
    refine ⟨?_, hf⟩
    simp only [perform, hr]

theorem Faithful.run_forget {d : Document κ} (h : d.Faithful) (steps : List Step) :
    d.forget.run steps = ((d.run steps).1, (d.run steps).2.forget) ∧
      (d.run steps).2.Faithful := by
  induction steps generalizing d with
  | nil => exact ⟨rfl, h⟩
  | cons step steps ih =>
    obtain ⟨hstep, hf⟩ := h.perform_forget step
    obtain ⟨hrun, hrf⟩ := ih hf
    refine ⟨?_, hrf⟩
    simp only [run, hstep, hrun]
    rfl

/-- A table of tokens that reading would give at their offsets changes nothing that a session
shows, and it stays such a table. -/
theorem run_table_eq_run_uncached (source : Text) (table : TokenTable)
    (h : ∀ p t, table.get? p = some t → LexesAt source.protect p t) (steps : List Step) :
    ((ofSource source table).run steps).1 = ((ofSource source Uncached.mk).run steps).1 ∧
      ∀ p t, ((ofSource source table).run steps).2.cache.get? p = some t →
        LexesAt ((ofSource source table).run steps).2.buffer p t := by
  have hf : (ofSource source table).Faithful := h
  obtain ⟨hrun, hrf⟩ := hf.run_forget steps
  exact ⟨congrArg Prod.fst hrun.symm, hrf⟩

/-- A group that is remembered at its offset, in front of which text is typed and taken back. -/
theorem run_table_eq_run_uncached_group :
    let source : Text := ['a', '{', 'b', '}', 'c']
    let table := TokenTable.empty.add 1 (.block [.ofText ['b']] ['{', 'b', '}'])
    let steps : List Step :=
      [.insert 0 ['\\', '%'], .seek 4, .next, .remove 0 3, .peekAhead 7, .stream 2, .readToEnd]
    (∀ p t, table.get? p = some t → LexesAt source.protect p t) ∧
      ((ofSource source table).run steps).1 = ((ofSource source Uncached.mk).run steps).1 ∧
      ∀ p t, ((ofSource source table).run steps).2.cache.get? p = some t →
        LexesAt ((ofSource source table).run steps).2.buffer p t := by
  intro source table steps
  have h : ∀ p t, table.get? p = some t → LexesAt source.protect p t := by
    intro p t ht
    rcases TokenTable.get?_add_eq_some_iff.mp ht with ⟨rfl, rfl⟩ | ⟨_, ht⟩
    · exact ⟨by cbv, by cbv⟩
    · cases ht
  exact ⟨h, run_table_eq_run_uncached source table h steps⟩

end Document

end LatexTokens
