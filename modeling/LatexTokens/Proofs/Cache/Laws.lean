import LatexTokens.Cache.Table

/-!
# Laws of caches

A lawful cache can forget tokens at any time, but it makes none up: what it gives after an
operation was there before, at the place where the operation says. `TokenTable` forgets no more
than it has to, so that its operations are described exactly.
-/

set_option autoImplicit false

namespace LatexTokens

/-- Caches that give only what was put into them, moved as the edits say. -/
class LawfulTokenCache (κ : Type) [TokenCache κ] : Prop where
  get?_add {p k : Nat} {t u : Token} {c : κ} :
    TokenCache.get? (TokenCache.add p t c) k = some u →
      k = p ∧ u = t ∨ TokenCache.get? c k = some u
  get?_invalidate {p k : Nat} {u : Token} {c : κ} :
    TokenCache.get? (TokenCache.invalidate p c) k = some u →
      TokenCache.get? c k = some u ∧ (k < p → k + u.size < p)
  get?_shift {p n k : Nat} {u : Token} {c : κ} :
    TokenCache.get? (TokenCache.shift p n c) k = some u →
      k < p ∧ TokenCache.get? c k = some u ∨
        ∃ j, p ≤ j ∧ k = j + n ∧ TokenCache.get? c j = some u
  get?_remove {start stop k : Nat} {u : Token} {c : κ} : start < stop →
    TokenCache.get? (TokenCache.remove start stop c) k = some u →
      k < start ∧ TokenCache.get? c k = some u ∨
        ∃ j, stop ≤ j ∧ k = j - (stop - start) ∧ TokenCache.get? c j = some u

instance : LawfulTokenCache Uncached where
  get?_add h := nomatch h
  get?_invalidate h := nomatch h
  get?_shift h := nomatch h
  get?_remove _ h := nomatch h

namespace TokenTable

theorem lookup_eq_some_iff {es : List (Nat × Token)} (h : es.Pairwise fun a b => a.1 < b.1)
    {p : Nat} {t : Token} : es.lookup p = some t ↔ (p, t) ∈ es := by
  induction es with
  | nil => simp
  | cons e es ih =>
    obtain ⟨he, hes⟩ := List.pairwise_cons.mp h
    obtain ⟨q, u⟩ := e
    by_cases hq : p = q
    · subst hq
      have hnot : (p, t) ∉ es := fun hm => Nat.lt_irrefl p (he _ hm)
      simp [hnot, eq_comm]
    · have hb : (p == q) = false := by simpa using hq
      simp [List.lookup_cons, hb, hq, ih hes]

theorem get?_eq_some_iff {c : TokenTable} {p : Nat} {t : Token} :
    c.get? p = some t ↔ (p, t) ∈ c.entries := lookup_eq_some_iff c.ascending

theorem mem_put_iff {p : Nat} {t : Token} {es : List (Nat × Token)}
    (h : es.Pairwise fun a b => a.1 < b.1) {e : Nat × Token} :
    e ∈ put p t es ↔ e = (p, t) ∨ e ∈ es ∧ e.1 ≠ p := by
  induction es with
  | nil => simp [put]
  | cons a es ih =>
    obtain ⟨ha, hes⟩ := List.pairwise_cons.mp h
    rw [put]
    split
    · next hp =>
      -- All entries are behind the new one.
      have hne : ∀ b ∈ a :: es, b.1 ≠ p := by
        intro b hb
        rcases List.mem_cons.mp hb with rfl | hb
        · omega
        · have := ha b hb
          omega
      rw [List.mem_cons]
      constructor
      · intro h₀
        rcases h₀ with he | he
        · exact .inl he
        · exact .inr ⟨he, hne e he⟩
      · intro h₀
        rcases h₀ with he | ⟨he, _⟩
        · exact .inl he
        · exact .inr he
    · split
      · next hp =>
        subst hp
        have hne : ∀ b ∈ es, b.1 ≠ a.1 := fun b hb => Nat.ne_of_gt (ha b hb)
        rw [List.mem_cons, List.mem_cons]
        constructor
        · intro h₀
          rcases h₀ with he | he
          · exact .inl he
          · exact .inr ⟨.inr he, hne e he⟩
        · intro h₀
          rcases h₀ with he | ⟨rfl | he, hp⟩
          · exact .inl he
          · exact absurd rfl hp
          · exact .inr he
      · next hp =>
        rw [List.mem_cons, List.mem_cons, ih hes]
        constructor
        · intro h₀
          rcases h₀ with rfl | he | ⟨he, hp'⟩
          · exact .inr ⟨.inl rfl, Ne.symm hp⟩
          · exact .inl he
          · exact .inr ⟨.inr he, hp'⟩
        · intro h₀
          rcases h₀ with he | ⟨rfl | he, hp'⟩
          · exact .inr (.inl he)
          · exact .inl rfl
          · exact .inr (.inr ⟨he, hp'⟩)

theorem get?_add_eq_some_iff {c : TokenTable} {p k : Nat} {t u : Token} :
    (c.add p t).get? k = some u ↔ k = p ∧ u = t ∨ k ≠ p ∧ c.get? k = some u := by
  rw [get?_eq_some_iff, get?_eq_some_iff, add, mem_put_iff c.ascending, Prod.mk.injEq, and_comm
    (a := k ≠ p)]

theorem get?_filter_eq_some_iff {keep : Nat × Token → Bool} {c : TokenTable} {k : Nat}
    {u : Token} : (c.filter keep).get? k = some u ↔ c.get? k = some u ∧ keep (k, u) := by
  rw [get?_eq_some_iff, get?_eq_some_iff, filter, List.mem_filter]

theorem get?_evict_eq_some_iff {c : TokenTable} {start stop k : Nat} {u : Token} :
    (c.evict start stop).get? k = some u ↔
      c.get? k = some u ∧ ¬ (start ≤ k ∧ k < stop) := by
  rw [evict, get?_filter_eq_some_iff, Bool.not_eq_true', ← Bool.not_eq_true, Bool.and_eq_true,
    decide_eq_true_eq, decide_eq_true_eq]

theorem get?_invalidate_eq_some_iff {c : TokenTable} {p k : Nat} {u : Token} :
    (c.invalidate p).get? k = some u ↔
      c.get? k = some u ∧ ¬ (k < p ∧ p ≤ k + u.size) := by
  rw [invalidate, get?_filter_eq_some_iff, Bool.not_eq_true', ← Bool.not_eq_true,
    Bool.and_eq_true, decide_eq_true_eq, decide_eq_true_eq]

theorem get?_shift_eq_some_iff {c : TokenTable} {p n k : Nat} {u : Token} :
    (c.shift p n).get? k = some u ↔
      k < p ∧ c.get? k = some u ∨ ∃ j, p ≤ j ∧ k = j + n ∧ c.get? j = some u := by
  simp only [get?_eq_some_iff, shift, List.mem_map, Prod.mk.injEq]
  constructor
  · intro h₀
    obtain ⟨⟨j, v⟩, he, hk, rfl⟩ := h₀
    by_cases hp : p ≤ j
    · rw [if_pos hp] at hk
      exact .inr ⟨j, hp, hk.symm, he⟩
    · rw [if_neg hp] at hk
      exact .inl ⟨by omega, hk ▸ he⟩
  · intro h₀
    rcases h₀ with ⟨hp, he⟩ | ⟨j, hp, rfl, he⟩
    · exact ⟨(k, u), he, if_neg (by simp only; omega), rfl⟩
    · exact ⟨(j, u), he, if_pos hp, rfl⟩

theorem shift_zero (p : Nat) (c : TokenTable) : c.shift p 0 = c := by
  obtain ⟨entries, _⟩ := c
  simp [shift]

theorem get?_remove_eq_some_iff {c : TokenTable} {start stop k : Nat} {u : Token}
    (h : start < stop) :
    (c.remove start stop).get? k = some u ↔
      k < start ∧ c.get? k = some u ∨
        ∃ j, stop ≤ j ∧ k = j - (stop - start) ∧ c.get? j = some u := by
  have hn : ¬ stop ≤ start := by omega
  have hevict {j : Nat} {v : Token} : (j, v) ∈ (c.evict start stop).entries ↔
      c.get? j = some v ∧ ¬ (start ≤ j ∧ j < stop) :=
    get?_eq_some_iff.symm.trans get?_evict_eq_some_iff
  rw [get?_eq_some_iff, remove, if_neg hn]
  simp only [List.mem_map, Prod.mk.injEq]
  constructor
  · intro h₀
    obtain ⟨⟨j, v⟩, he, hk, rfl⟩ := h₀
    obtain ⟨hj, hr⟩ := hevict.mp he
    by_cases hp : stop ≤ j
    · rw [if_pos hp] at hk
      exact .inr ⟨j, hp, hk.symm, hj⟩
    · rw [if_neg hp] at hk
      exact .inl ⟨by omega, hk ▸ hj⟩
  · intro h₀
    rcases h₀ with ⟨hp, he⟩ | ⟨j, hp, rfl, he⟩
    · exact ⟨(k, u), hevict.mpr ⟨he, by omega⟩, if_neg (by simp only; omega), rfl⟩
    · exact ⟨(j, u), hevict.mpr ⟨he, by omega⟩, if_pos hp, rfl⟩

instance : LawfulTokenCache TokenTable where
  get?_add h := (get?_add_eq_some_iff.mp h).imp_right And.right
  get?_invalidate h := by
    obtain ⟨hg, hr⟩ := get?_invalidate_eq_some_iff.mp h
    exact ⟨hg, fun hk => by omega⟩
  get?_shift h := get?_shift_eq_some_iff.mp h
  get?_remove hs h := (get?_remove_eq_some_iff hs).mp h

end TokenTable

end LatexTokens
