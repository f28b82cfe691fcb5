import LatexTokens.Document.Stream
import LatexTokens.Proofs.Cache.Laws
import LatexTokens.Proofs.Lexing.Locality

/-!
# Faithful documents

A document is faithful if its cache gives no token that reading would not give. Every operation
on a document with a lawful cache keeps it so: looking adds a token that was just read, and an
edit makes the cache forget the tokens that the edit can change.
-/

set_option autoImplicit false

namespace LatexTokens

namespace Document
variable {κ : Type} [TokenCache κ]

/-- Whether each remembered token is the one that is read at its offset. -/
def Faithful (d : Document κ) : Prop :=
  ∀ p t, TokenCache.get? d.cache p = some t → LexesAt d.buffer p t

theorem faithful_uncached (d : Document Uncached) : d.Faithful := fun _ _ h => nomatch h

omit [TokenCache κ] in
theorem isBoundary_locate (d : Document κ) (position : Int) :
    d.buffer.IsBoundary (d.locate position) := Text.isBoundary_floor _ _

theorem Faithful.setCursor {d : Document κ} (h : d.Faithful) (p : Nat) :
    Faithful { d with cursor := p } := h

theorem Faithful.seek {d : Document κ} (h : d.Faithful) (position : Int) :
    (d.seek position).Faithful := h

/-- What looking ahead finds, whether it is remembered or read. -/
theorem Faithful.fst_peekAhead {d : Document κ} (h : d.Faithful) (bytes : Nat) :
    (d.peekAhead bytes).1 = tokenAt? d.buffer (d.cursor + bytes) := by
  rw [← tokenAt?_floor]
  simp only [peekAhead]
  split
  · next t ht => exact (h _ _ ht).lexed.symm
  · split
    · next ht => exact ht.symm
    · rfl

theorem buffer_peekAhead (d : Document κ) (bytes : Nat) :
    (d.peekAhead bytes).2.buffer = d.buffer := by
  simp only [peekAhead]
  split
  · rfl
  · split <;> rfl

theorem cursor_peekAhead (d : Document κ) (bytes : Nat) :
    (d.peekAhead bytes).2.cursor = d.cursor := by
  simp only [peekAhead]
  split
  · rfl
  · split <;> rfl

variable [LawfulTokenCache κ]

theorem Faithful.peekAhead {d : Document κ} (h : d.Faithful) (bytes : Nat) :
    (d.peekAhead bytes).2.Faithful := by
  simp only [Document.peekAhead]
  split
  · exact h
  · split
    · next t ht =>
      intro p u hu
      rcases LawfulTokenCache.get?_add hu with ⟨rfl, rfl⟩ | hu
      · exact ⟨Text.isBoundary_floor _ _, ht⟩
      · exact h p u hu
    · exact h

theorem Faithful.next {d : Document κ} (h : d.Faithful) : d.next.2.Faithful := by
  have hp := h.peekAhead 0
  rw [Document.next, peek]
  split
  · next heq =>
    rw [heq] at hp
    exact hp.setCursor _
  · exact hp

theorem Faithful.insert {d : Document κ} (h : d.Faithful) (position : Int) (text : Text) :
    (d.insert position text).Faithful := by
  simp only [Document.insert]
  split
  · exact h
  intro k t hk
  have hp := d.isBoundary_locate position
  generalize d.locate position = p at hk hp
  rcases LawfulTokenCache.get?_shift hk with ⟨hlt, hk⟩ | ⟨j, hle, rfl, hj⟩
  · -- In front of the insertion only tokens are left that end before its last character.
    obtain ⟨hk, hend⟩ := LawfulTokenCache.get?_invalidate hk
    rw [List.append_assoc]
    exact (h k t hk).before_cut hp (hend hlt) _
  · obtain ⟨hj, _⟩ := LawfulTokenCache.get?_invalidate hj
    have hmoved := (h j t hj).after_cut hp hle (d.buffer.before p ++ text.protect)
    have hoffset : j - p + (d.buffer.before p ++ text.protect).size = j + text.protect.size := by
      rw [Text.size_append, hp.size_before]
      omega
    rwa [hoffset] at hmoved

theorem Faithful.remove {d : Document κ} (h : d.Faithful) (one other : Int) :
    (d.remove one other).Faithful := by
  simp only [Document.remove]
  split
  · exact h
  next hne =>
  intro k t hk
  have hstart := (d.isBoundary_locate one).min (d.isBoundary_locate other)
  have hstop := (d.isBoundary_locate one).max (d.isBoundary_locate other)
  have hlt : min (d.locate one) (d.locate other) < max (d.locate one) (d.locate other) := by
    omega
  generalize min (d.locate one) (d.locate other) = start at hk hstart hlt
  generalize max (d.locate one) (d.locate other) = stop at hk hstop hlt
  rcases LawfulTokenCache.get?_remove hlt hk with ⟨hk', hk⟩ | ⟨j, hle, rfl, hj⟩
  · obtain ⟨hk, hend⟩ := LawfulTokenCache.get?_invalidate hk
    exact (h k t hk).before_cut hstart (hend hk') _
  · obtain ⟨hj, _⟩ := LawfulTokenCache.get?_invalidate hj
    have hmoved := (h j t hj).after_cut hstop hle (d.buffer.before start)
    have hoffset : j - stop + (d.buffer.before start).size = j - (stop - start) := by
      rw [hstart.size_before]
      omega
    rwa [hoffset] at hmoved

end Document

end LatexTokens
