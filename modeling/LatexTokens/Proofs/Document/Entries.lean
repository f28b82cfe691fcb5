import LatexTokens.Proofs.Cache.Moving
import LatexTokens.Proofs.Document.Undoing

/-!
# Tokens remembered across edits

An edit of a document with a table keeps every token that ends in front of it, where it was, and
every token that starts behind it, moved with the text. A token that ends right where the edit
starts is forgotten, since the text behind it had a say in where it ends
(`Document.KeepsEntries`).
-/

set_option autoImplicit false

namespace LatexTokens

namespace TokenTable

/-- The entries whose tokens end before an offset. -/
def endingBefore (p : Nat) (c : TokenTable) : List (Nat × Token) :=
  c.entries.filter fun e => e.1 + e.2.size < p

theorem startingBefore_invalidate (p : Nat) (c : TokenTable) :
    (c.invalidate p).startingBefore p = c.endingBefore p := by
  rw [startingBefore, entries_invalidate]
  exact filter_filter_eq (fun e => by omega) _

theorem startingFrom_invalidate {p q : Nat} (h : p ≤ q) (c : TokenTable) :
    (c.invalidate p).startingFrom q = c.startingFrom q := by
  rw [startingFrom, entries_invalidate]
  exact filter_filter_eq (fun e => by omega) _

/-- What making room for a text and closing it again leaves of a table. -/
theorem remove_shift_invalidate {n : Nat} (h : 0 < n) (p : Nat) (c : TokenTable) :
    (((c.invalidate p).shift p n).invalidate p).remove p (p + n) = c.invalidate p := by
  refine eq_of_get?_eq_some_iff fun k u => ?_
  have hlt : p < p + n := by omega
  simp only [get?_remove_eq_some_iff hlt, get?_invalidate_eq_some_iff, get?_shift_eq_some_iff]
  constructor
  · rintro (⟨_, ⟨_, hkept⟩ | ⟨_, _, rfl, _⟩, _⟩ | ⟨_, _, rfl, ⟨_, _⟩ | ⟨j, _, rfl, hkept⟩, _⟩)
    · exact hkept
    · omega
    · omega
    · have hj : j + n - (p + n - p) = j := by omega
      rw [hj]
      exact hkept
  · intro hkept
    have hout := hkept.2
    by_cases hk : k < p
    · exact .inl ⟨hk, .inl ⟨hk, hkept⟩, hout⟩
    · exact .inr ⟨k + n, by omega, by omega, .inr ⟨k, by omega, rfl, hkept⟩, by omega⟩

end TokenTable

namespace Document
open TokenTable (moved)

variable (d : Document TokenTable)

/-- What edits leave of the entries of the table of a document, and where. -/
structure KeepsEntries : Prop where
  insert (position : Int) (text : Text) : 0 < text.protect.size →
    let p := d.locate position
    (d.insert position text).cache.entries =
      d.cache.endingBefore p ++ moved (· + text.protect.size) (d.cache.startingFrom p)
  remove (one other : Int) :
    let start := min (d.locate one) (d.locate other)
    let stop := max (d.locate one) (d.locate other)
    start < stop → (d.remove one other).cache.entries =
      d.cache.endingBefore start ++ moved (· - (stop - start)) (d.cache.startingFrom stop)

theorem cache_insert {position : Int} {text : Text} (h : 0 < text.protect.size) :
    (d.insert position text).cache =
      (d.cache.invalidate (d.locate position)).shift (d.locate position) text.protect.size := by
  have hne : ¬ text.protect.isEmpty := fun he => by
    rw [List.isEmpty_iff.mp he] at h
    exact Nat.lt_irrefl 0 h
  simp only [insert, hne]
  rfl

theorem cache_remove {one other : Int} {start stop : Nat} (h : start < stop)
    (hstart : min (d.locate one) (d.locate other) = start)
    (hstop : max (d.locate one) (d.locate other) = stop) :
    (d.remove one other).cache = (d.cache.invalidate start).remove start stop := by
  simp only [remove, hstart, hstop, Nat.ne_of_lt h, if_false]
  rfl

theorem keepsEntries : d.KeepsEntries where
  insert position text h := by
    intro p
    rw [d.cache_insert h, TokenTable.entries_shift, TokenTable.startingBefore_invalidate,
      TokenTable.startingFrom_invalidate (Nat.le_refl p)]
  remove one other := by
    intro start stop h
    rw [d.cache_remove h rfl rfl, TokenTable.entries_remove h, TokenTable.startingBefore_invalidate,
      TokenTable.startingFrom_invalidate (Nat.le_of_lt h)]

/-- An insertion that is taken back at once costs the tokens that reach its place, and no others. -/
theorem cache_remove_insert {position : Int} {text : Text} (h : 0 < text.protect.size) :
    let p := d.locate position
    ((d.insert position text).remove p (p + text.protect.size : Nat)).cache =
      d.cache.invalidate p := by
  intro p
  have hne : text.protect ≠ [] := fun he => by
    rw [he] at h
    exact Nat.lt_irrefl 0 h
  obtain ⟨u, v, hb, hu⟩ := Text.isBoundary_iff.mp (d.isBoundary_locate position)
  obtain ⟨hstart, hstop⟩ := range_of_append (insert_of_locate_eq hb hu.symm hne).1
  have hp : p = u.size := hu.symm
  rw [← hp, Text.size_append, ← hp] at hstart hstop
  rw [cache_remove _ (Nat.lt_add_of_pos_right h) hstart hstop, d.cache_insert h]
  exact TokenTable.remove_shift_invalidate h p d.cache

/-- The operations of a table move its entries as a map from offsets to tokens, in whatever order
they take them, and an edit of a document forgets just those that reach it. -/
theorem entries_moved_by_edits :
    (∀ c : TokenTable, c.IsPositional) ∧ ∀ d : Document TokenTable, d.KeepsEntries :=
  ⟨TokenTable.isPositional, keepsEntries⟩

end Document

end LatexTokens
