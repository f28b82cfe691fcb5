import LatexTokens.Cache.Basic

/-!
# Tables of tokens

A table holds tokens under ascending offsets, so that two tables with the same tokens at the
same offsets are equal. Each operation says which entries it keeps and where they go; that the
offsets still ascend is part of the table.
-/

set_option autoImplicit false

namespace LatexTokens

/-- Tokens by their offsets, in ascending order. -/
structure TokenTable where
  entries : List (Nat × Token)
  ascending : entries.Pairwise fun a b => a.1 < b.1

namespace TokenTable

def empty : TokenTable := ⟨[], .nil⟩

/-- The offsets that have a token, in ascending order. -/
def positions (c : TokenTable) : List Nat := c.entries.map (·.1)

def get? (c : TokenTable) (p : Nat) : Option Token := c.entries.lookup p

/-- Puts an entry into ascending entries, in place of any with the same offset. -/
def put (p : Nat) (t : Token) : List (Nat × Token) → List (Nat × Token)
  | [] => [(p, t)]
  | e :: es =>
    if p < e.1 then (p, t) :: e :: es
    else if p = e.1 then (p, t) :: es
    else e :: put p t es

theorem mem_of_mem_put {p : Nat} {t : Token} {es : List (Nat × Token)} {e : Nat × Token}
    (h : e ∈ put p t es) : e = (p, t) ∨ e ∈ es := by
  induction es with
  | nil => exact .inl (List.mem_singleton.mp h)
  | cons a es ih =>
    rw [put] at h
    split at h
    · exact List.mem_cons.mp h
    · split at h
      · rcases List.mem_cons.mp h with h | h
        · exact .inl h
        · exact .inr (List.mem_cons_of_mem _ h)
      · rcases List.mem_cons.mp h with h | h
        · exact .inr (h ▸ List.mem_cons_self)
        · exact (ih h).imp_right (List.mem_cons_of_mem _)

theorem put_ascending (p : Nat) (t : Token) {es : List (Nat × Token)}
    (h : es.Pairwise fun a b => a.1 < b.1) : (put p t es).Pairwise fun a b => a.1 < b.1 := by
  induction es with
  | nil => exact List.pairwise_singleton _ _
  | cons a es ih =>
    obtain ⟨ha, hes⟩ := List.pairwise_cons.mp h
    rw [put]
    split
    · next hp =>
      refine List.pairwise_cons.mpr ⟨fun b hb => ?_, h⟩
      rcases List.mem_cons.mp hb with rfl | hb
      · exact hp
      · exact Nat.lt_trans hp (ha b hb)
    · split
      · next hp =>
        subst hp
        exact List.pairwise_cons.mpr ⟨ha, hes⟩
      · refine List.pairwise_cons.mpr ⟨fun b hb => ?_, ih hes⟩
        rcases mem_of_mem_put hb with rfl | hb
        · simp only
          omega
        · exact ha b hb

/-- The table with one more entry, in place of any with the same offset. -/
def add (p : Nat) (t : Token) (c : TokenTable) : TokenTable :=
  ⟨put p t c.entries, put_ascending p t c.ascending⟩

def filter (keep : Nat × Token → Bool) (c : TokenTable) : TokenTable :=
  ⟨c.entries.filter keep, c.ascending.filter keep⟩

/-- The entries that do not start in a range. -/
def evict (start stop : Nat) (c : TokenTable) : TokenTable :=
  c.filter fun e => !(start ≤ e.1 && e.1 < stop)

/-- The entries that start at or after an offset, or end before it. -/
def invalidate (p : Nat) (c : TokenTable) : TokenTable :=
  c.filter fun e => !(e.1 < p && p ≤ e.1 + e.2.size)

/-- Moves the entries from an offset on forward. -/
def shift (p n : Nat) (c : TokenTable) : TokenTable where
  entries := c.entries.map fun e => (if p ≤ e.1 then e.1 + n else e.1, e.2)
  ascending := by
    rw [List.pairwise_map]
    refine c.ascending.imp fun {a b} h => ?_
    simp only
    split <;> split <;> omega

/-- Drops the entries that start in a range and moves those after it back over it. -/
def remove (start stop : Nat) (c : TokenTable) : TokenTable :=
  if stop ≤ start then c
  else {
    entries := (c.evict start stop).entries.map fun e =>
      (if stop ≤ e.1 then e.1 - (stop - start) else e.1, e.2)
    ascending := by
      rw [List.pairwise_map]
      refine (List.pairwise_filter.mpr (c.ascending.imp fun {a b} h => ?_))
      intro ha hb
      simp only [Bool.not_eq_eq_eq_not, Bool.not_true, Bool.and_eq_false_iff,
        decide_eq_false_iff_not] at ha hb ⊢
      split <;> split <;> omega }

/-- Adds adjacent tokens, the first of them at an offset. -/
def addAll : Nat → List Token → TokenTable → TokenTable
  | _, [], c => c
  | p, t :: ts, c => addAll (p + t.size) ts (c.add p t)

/-- Moves the entries from an offset on out of the way of tokens and adds these. -/
def insert (p : Nat) (ts : List Token) (c : TokenTable) : TokenTable :=
  addAll p ts (c.shift p (Text.size (ts.flatMap Token.literal)))

instance : TokenCache TokenTable where
  get? := get?
  add := add
  insert := insert
  remove := remove
  evict := evict
  shift := shift
  invalidate := invalidate

end TokenTable

end LatexTokens
