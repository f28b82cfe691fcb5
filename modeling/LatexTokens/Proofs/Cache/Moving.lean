import LatexTokens.Proofs.Cache.Laws

/-!
# Moving entries

The entries of a table can be moved one at a time, in any order: all of those from an offset on are
taken out, and then each is put back where it goes. An entry can go where another one stood, but
none is there any more (`TokenTable.get?_rekey_eq_some_iff`). So the order is of no consequence, and
the result is what `TokenTable.shift` and `TokenTable.remove` give.

Entries ascend, so an edit acts on a table as on two lists, one in front of the offset of the edit
and one behind it. What it leaves is written down as such lists (`TokenTable.IsPositional`).
-/

set_option autoImplicit false

namespace LatexTokens

namespace TokenTable

theorem nodup_of_ascending {es : List (Nat × Token)} (h : es.Pairwise fun a b => a.1 < b.1) :
    es.Nodup :=
  h.imp fun hab he => Nat.ne_of_lt hab (congrArg Prod.fst he)

theorem eq_of_perm_of_ascending {es fs : List (Nat × Token)} (h : es.Perm fs)
    (hes : es.Pairwise fun a b => a.1 < b.1) (hfs : fs.Pairwise fun a b => a.1 < b.1) : es = fs :=
  h.eq_of_pairwise (fun _ _ _ _ hab hba => absurd hab (Nat.lt_asymm hba)) hes hfs

theorem eq_of_entries_eq {c d : TokenTable} (h : c.entries = d.entries) : c = d := by
  cases c
  cases d
  cases h
  rfl

theorem eq_of_get?_eq_some_iff {c d : TokenTable}
    (h : ∀ k t, c.get? k = some t ↔ d.get? k = some t) : c = d := by
  have hmem (e : Nat × Token) : e ∈ c.entries ↔ e ∈ d.entries :=
    get?_eq_some_iff.symm.trans ((h e.1 e.2).trans get?_eq_some_iff)
  have hperm : c.entries.Perm d.entries := (List.perm_ext_iff_of_nodup
    (nodup_of_ascending c.ascending) (nodup_of_ascending d.ascending)).mpr hmem
  exact eq_of_entries_eq (eq_of_perm_of_ascending hperm c.ascending d.ascending)

/-! ## One at a time -/

/-- The table without the entry at an offset. -/
def erase (p : Nat) (c : TokenTable) : TokenTable := c.filter (·.1 != p)

theorem get?_erase_eq_some_iff {c : TokenTable} {p k : Nat} {u : Token} :
    (c.erase p).get? k = some u ↔ c.get? k = some u ∧ k ≠ p := by
  rw [erase, get?_filter_eq_some_iff, bne_iff_ne]

/-- Takes the entries at some offsets out, one after another. Gives them with their new offsets, and
the table that is left. -/
def takeOut (move : Nat → Nat) : List Nat → TokenTable → List (Nat × Token) × TokenTable
  | [], c => ([], c)
  | k :: ks, c =>
    let (out, left) := takeOut move ks (c.erase k)
    match c.get? k with
    | some t => ((move k, t) :: out, left)
    | none => (out, left)

/-- Adds entries one after another. -/
def putBack : List (Nat × Token) → TokenTable → TokenTable
  | [], c => c
  | (p, t) :: es, c => putBack es (c.add p t)

/-- Moves the entries at some offsets: takes all of them out and puts them back. -/
def rekey (move : Nat → Nat) (ks : List Nat) (c : TokenTable) : TokenTable :=
  let (out, left) := takeOut move ks c
  putBack out left

theorem mem_takeOut_iff {move : Nat → Nat} {ks : List Nat} (hks : ks.Nodup) {c : TokenTable}
    {e : Nat × Token} :
    e ∈ (takeOut move ks c).1 ↔ ∃ k ∈ ks, c.get? k = some e.2 ∧ e.1 = move k := by
  induction ks generalizing c with
  | nil => simp [takeOut]
  | cons k ks ih =>
    obtain ⟨hk, hks⟩ := List.nodup_cons.mp hks
    -- The other offsets have the entries that they had before.
    have hsame : (∃ j ∈ ks, (c.erase k).get? j = some e.2 ∧ e.1 = move j) ↔
        ∃ j ∈ ks, c.get? j = some e.2 ∧ e.1 = move j := by
      refine exists_congr fun j => and_congr_right fun hj => and_congr_left fun _ => ?_
      rw [get?_erase_eq_some_iff]
      exact and_iff_left fun he => hk (he ▸ hj)
    simp only [takeOut, List.mem_cons, exists_eq_or_imp]
    cases hget : c.get? k with
    | none => simp only [ih hks, hsame, reduceCtorEq, false_and, false_or]
    | some t =>
      rw [List.mem_cons, ih hks, hsame, Prod.ext_iff, Option.some.injEq, and_comm,
        eq_comm (a := e.2)]

theorem get?_takeOut_eq_some_iff {move : Nat → Nat} {ks : List Nat} {c : TokenTable} {k : Nat}
    {u : Token} : (takeOut move ks c).2.get? k = some u ↔ c.get? k = some u ∧ k ∉ ks := by
  induction ks generalizing c with
  | nil => simp [takeOut]
  | cons j ks ih =>
    have hleft : (takeOut move (j :: ks) c).2 = (takeOut move ks (c.erase j)).2 := by
      simp only [takeOut]
      split <;> rfl
    rw [hleft, ih, get?_erase_eq_some_iff, List.mem_cons, not_or, and_assoc]

theorem takeOut_pairwise {move : Nat → Nat} {ks : List Nat} {c : TokenTable}
    (hks : ks.Pairwise fun i j => move i ≠ move j) :
    (takeOut move ks c).1.Pairwise fun a b => a.1 ≠ b.1 := by
  induction ks generalizing c with
  | nil => exact .nil
  | cons k ks ih =>
    obtain ⟨hk, hks'⟩ := List.pairwise_cons.mp hks
    simp only [takeOut]
    split
    · refine List.pairwise_cons.mpr ⟨fun e he => ?_, ih hks'⟩
      have hnodup : ks.Nodup := hks'.imp fun hne he => hne (congrArg move he)
      obtain ⟨j, hj, _, hej⟩ := (mem_takeOut_iff hnodup).mp he
      exact hej ▸ hk j hj
    · exact ih hks'

theorem get?_putBack_eq_some_iff {es : List (Nat × Token)} (h : es.Pairwise fun a b => a.1 ≠ b.1)
    {c : TokenTable} {k : Nat} {u : Token} :
    (putBack es c).get? k = some u ↔
      (k, u) ∈ es ∨ (∀ e ∈ es, e.1 ≠ k) ∧ c.get? k = some u := by
  induction es generalizing c with
  | nil => simp [putBack]
  | cons e es ih =>
    obtain ⟨p, t⟩ := e
    obtain ⟨hp, hes⟩ := List.pairwise_cons.mp h
    rw [putBack, ih hes, get?_add_eq_some_iff, List.mem_cons, Prod.mk.injEq,
      List.forall_mem_cons]
    constructor
    · rintro (hm | ⟨hne, ⟨hk, hu⟩ | ⟨hk, hu⟩⟩)
      · exact .inl (.inr hm)
      · exact .inl (.inl ⟨hk, hu⟩)
      · exact .inr ⟨⟨Ne.symm hk, hne⟩, hu⟩
    · rintro ((⟨rfl, rfl⟩ | hm) | ⟨⟨hk, hne⟩, hu⟩)
      · exact .inr ⟨fun e he => Ne.symm (hp e he), .inl ⟨rfl, rfl⟩⟩
      · exact .inl hm
      · exact .inr ⟨hne, .inr ⟨Ne.symm hk, hu⟩⟩

/-- A move of the entries from an offset on, in any order, is free of collisions if it keeps their
offsets apart from each other and from those of the entries that stay. -/
theorem get?_rekey_eq_some_iff {c : TokenTable} {p : Nat} {move : Nat → Nat} {ks : List Nat}
    (hks : ks.Perm (c.positions.filter (p ≤ ·)))
    (hinj : ∀ i j, p ≤ i → p ≤ j → move i = move j → i = j)
    (hstay : ∀ k t, k < p → c.get? k = some t → ∀ j, p ≤ j → move j ≠ k)
    {k : Nat} {u : Token} :
    (c.rekey move ks).get? k = some u ↔
      k < p ∧ c.get? k = some u ∨ ∃ j, p ≤ j ∧ k = move j ∧ c.get? j = some u := by
  have hmem {j : Nat} : j ∈ ks ↔ p ≤ j ∧ ∃ t, c.get? j = some t := by
    rw [hks.mem_iff, List.mem_filter, decide_eq_true_eq, positions, List.mem_map, and_comm]
    simp only [get?_eq_some_iff, Prod.exists, exists_eq_right, exists_and_right]
  have hnodup : ks.Nodup := by
    have hpositions : c.positions.Nodup := (List.pairwise_map.mpr c.ascending).imp Nat.ne_of_lt
    exact hks.nodup_iff.mpr (hpositions.sublist List.filter_sublist)
  have hapart : ks.Pairwise fun i j => move i ≠ move j := by
    refine hnodup.imp_of_mem fun {i j} hi hj hne he => hne ?_
    exact hinj i j (hmem.mp hi).1 (hmem.mp hj).1 he
  rw [rekey, get?_putBack_eq_some_iff (takeOut_pairwise hapart), get?_takeOut_eq_some_iff,
    mem_takeOut_iff hnodup]
  constructor
  · rintro (⟨j, hj, hu, hk⟩ | ⟨_, hu, hk⟩)
    · exact .inr ⟨j, (hmem.mp hj).1, hk, hu⟩
    · exact .inl ⟨Nat.lt_of_not_le fun hp => hk (hmem.mpr ⟨hp, u, hu⟩), hu⟩
  · rintro (⟨hk, hu⟩ | ⟨j, hj, hk, hu⟩)
    · refine .inr ⟨fun e he hek => ?_, hu, fun hks => Nat.not_le_of_lt hk (hmem.mp hks).1⟩
      obtain ⟨j, hj, _, hej⟩ := (mem_takeOut_iff hnodup).mp he
      exact hstay k u hk hu j (hmem.mp hj).1 (hej.symm.trans hek)
    · exact .inl ⟨j, hmem.mpr ⟨hj, u, hu⟩, hu, hk⟩

theorem rekey_eq_shift {c : TokenTable} {p : Nat} (n : Nat) {ks : List Nat}
    (hks : ks.Perm (c.positions.filter (p ≤ ·))) : c.rekey (· + n) ks = c.shift p n := by
  refine eq_of_get?_eq_some_iff fun k u => ?_
  rw [get?_shift_eq_some_iff, get?_rekey_eq_some_iff hks]
  · intro i j _ _ h
    omega
  · intro k t hk _ j hj
    omega

-- Adjacent entries, each of which goes where the next one stood.
example (t u v : Token) :
    ((((empty.add 1 t).add 2 u).add 3 v).rekey (· + 1) [1, 3, 2]).entries =
      [(2, t), (3, u), (4, v)] := rfl

theorem rekey_evict_eq_remove {c : TokenTable} {start stop : Nat} (h : start < stop) {ks : List Nat}
    (hks : ks.Perm ((c.evict start stop).positions.filter (stop ≤ ·))) :
    (c.evict start stop).rekey (· - (stop - start)) ks = c.remove start stop := by
  refine eq_of_get?_eq_some_iff fun k u => ?_
  rw [get?_remove_eq_some_iff h, get?_rekey_eq_some_iff hks]
  · simp only [get?_evict_eq_some_iff]
    constructor
    · rintro (⟨_, hu, hk⟩ | ⟨j, hj, hk, hu, _⟩)
      · exact .inl ⟨by omega, hu⟩
      · exact .inr ⟨j, hj, hk, hu⟩
    · rintro (⟨hk, hu⟩ | ⟨j, hj, hk, hu⟩)
      · exact .inl ⟨by omega, hu, by omega⟩
      · exact .inr ⟨j, hj, hk, hu, by omega⟩
  · intro i j _ _ h
    omega
  · intro k t hk hget j hj
    have hout := (get?_evict_eq_some_iff.mp hget).2
    omega

/-! ## In one piece -/

/-- The entries that start before an offset. -/
def startingBefore (p : Nat) (c : TokenTable) : List (Nat × Token) := c.entries.filter (·.1 < p)

/-- The entries that start at an offset or after it. -/
def startingFrom (p : Nat) (c : TokenTable) : List (Nat × Token) := c.entries.filter (p ≤ ·.1)

/-- Entries at other offsets. -/
def moved (move : Nat → Nat) (es : List (Nat × Token)) : List (Nat × Token) :=
  es.map fun e => (move e.1, e.2)

/-- The number of bytes that adjacent tokens cover. -/
def extent (ts : List Token) : Nat := Text.size (ts.flatMap Token.literal)

@[simp] theorem extent_nil : extent [] = 0 := rfl

@[simp] theorem extent_cons (t : Token) (ts : List Token) :
    extent (t :: ts) = t.size + extent ts := Text.size_append _ _

/-- Adjacent tokens as entries, each of them behind the tokens in front of it. -/
def placed (p : Nat) (ts : List Token) : List (Nat × Token) :=
  ts.mapIdx fun i t => (p + extent (ts.take i), t)

theorem mem_startingBefore_iff {p : Nat} {c : TokenTable} {e : Nat × Token} :
    e ∈ c.startingBefore p ↔ e ∈ c.entries ∧ e.1 < p := by
  rw [startingBefore, List.mem_filter, decide_eq_true_eq]

theorem mem_startingFrom_iff {p : Nat} {c : TokenTable} {e : Nat × Token} :
    e ∈ c.startingFrom p ↔ e ∈ c.entries ∧ p ≤ e.1 := by
  rw [startingFrom, List.mem_filter, decide_eq_true_eq]

theorem startingBefore_append_startingFrom (p : Nat) (c : TokenTable) :
    c.startingBefore p ++ c.startingFrom p = c.entries := by
  have hascending : (c.startingBefore p ++ c.startingFrom p).Pairwise fun a b => a.1 < b.1 :=
    List.pairwise_append.mpr ⟨c.ascending.filter _, c.ascending.filter _, fun a ha b hb =>
      Nat.lt_of_lt_of_le (mem_startingBefore_iff.mp ha).2 (mem_startingFrom_iff.mp hb).2⟩
  have hfrom : c.startingFrom p = c.entries.filter fun e => !decide (e.1 < p) :=
    List.filter_congr fun e _ => by rw [← decide_not, decide_eq_decide, Nat.not_lt]
  refine eq_of_perm_of_ascending ?_ hascending c.ascending
  rw [hfrom]
  exact List.filter_append_perm _ _

/-- There is one way to cut a table at an offset. -/
theorem starting_of_append {p : Nat} {c : TokenTable} {es fs : List (Nat × Token)}
    (hc : c.entries = es ++ fs) (hes : ∀ e ∈ es, e.1 < p) (hfs : ∀ e ∈ fs, p ≤ e.1) :
    c.startingBefore p = es ∧ c.startingFrom p = fs := by
  have hall : es.filter (·.1 < p) = es :=
    List.filter_eq_self.mpr fun e he => decide_eq_true (hes e he)
  have hnone : fs.filter (·.1 < p) = [] :=
    List.filter_eq_nil_iff.mpr fun e he => by simpa using hfs e he
  have hbefore : c.startingBefore p = es := by
    rw [startingBefore, hc, List.filter_append, hall, hnone, List.append_nil]
  refine ⟨hbefore, ?_⟩
  have happend : es ++ c.startingFrom p = es ++ fs := by
    rw [← hc, ← c.startingBefore_append_startingFrom p, hbefore]
  exact List.append_cancel_left happend

theorem map_entries_eq (p : Nat) (move : Nat → Nat) (c : TokenTable) :
    (c.entries.map fun e => (if p ≤ e.1 then move e.1 else e.1, e.2)) =
      c.startingBefore p ++ moved move (c.startingFrom p) := by
  rw [← c.startingBefore_append_startingFrom p, List.map_append]
  congr 1
  · refine (List.map_congr_left fun e he => ?_).trans (List.map_id _)
    rw [if_neg (Nat.not_le_of_lt (mem_startingBefore_iff.mp he).2)]
    rfl
  · refine List.map_congr_left fun e he => ?_
    rw [if_pos (mem_startingFrom_iff.mp he).2]

theorem entries_shift (p n : Nat) (c : TokenTable) :
    (c.shift p n).entries = c.startingBefore p ++ moved (· + n) (c.startingFrom p) :=
  c.map_entries_eq p (· + n)

theorem entries_evict (start stop : Nat) (c : TokenTable) :
    (c.evict start stop).entries = c.entries.filter fun e => ¬ (start ≤ e.1 ∧ e.1 < stop) :=
  List.filter_congr fun e _ => by rw [decide_not, Bool.decide_and]

theorem entries_invalidate (p : Nat) (c : TokenTable) :
    (c.invalidate p).entries = c.entries.filter fun e => ¬ (e.1 < p ∧ p ≤ e.1 + e.2.size) :=
  List.filter_congr fun e _ => by rw [decide_not, Bool.decide_and]

theorem filter_filter_eq {p q r : Nat × Token → Prop} [DecidablePred p] [DecidablePred q]
    [DecidablePred r] (h : ∀ e, p e ∧ q e ↔ r e) (es : List (Nat × Token)) :
    (es.filter q).filter p = es.filter r := by
  rw [List.filter_filter]
  refine List.filter_congr fun e _ => ?_
  rw [← Bool.decide_and, decide_eq_decide]
  exact h e

theorem entries_remove {start stop : Nat} (h : start < stop) (c : TokenTable) :
    (c.remove start stop).entries =
      c.startingBefore start ++ moved (· - (stop - start)) (c.startingFrom stop) := by
  have hbefore : (c.evict start stop).startingBefore stop = c.startingBefore start := by
    rw [startingBefore, entries_evict]
    exact filter_filter_eq (fun e => by omega) _
  have hfrom : (c.evict start stop).startingFrom stop = c.startingFrom stop := by
    rw [startingFrom, entries_evict]
    exact filter_filter_eq (fun e => by omega) _
  rw [remove, if_neg (Nat.not_le_of_lt h), ← hbefore, ← hfrom]
  exact (c.evict start stop).map_entries_eq stop (· - (stop - start))

theorem put_append {p : Nat} {t : Token} {es fs : List (Nat × Token)} (hes : ∀ e ∈ es, e.1 < p)
    (hfs : ∀ e ∈ fs, p < e.1) : put p t (es ++ fs) = es ++ (p, t) :: fs := by
  induction es with
  | nil =>
    cases fs with
    | nil => rfl
    | cons f fs => exact if_pos (hfs f List.mem_cons_self)
  | cons e es ih =>
    obtain ⟨he, hes⟩ := List.forall_mem_cons.mp hes
    rw [List.cons_append, put, if_neg (by omega), if_neg (by omega), ih hes, List.cons_append]

theorem placed_cons (p : Nat) (t : Token) (ts : List Token) :
    placed p (t :: ts) = (p, t) :: placed (p + t.size) ts := by
  simp only [placed, List.mapIdx_cons, List.take_zero, extent_nil, Nat.add_zero,
    List.take_succ_cons, extent_cons, Nat.add_assoc]

theorem entries_addAll {p : Nat} {ts : List Token} (hts : ∀ t ∈ ts, 0 < t.size) {c : TokenTable}
    {es fs : List (Nat × Token)} (hc : c.entries = es ++ fs) (hes : ∀ e ∈ es, e.1 < p)
    (hfs : ∀ e ∈ fs, p + extent ts ≤ e.1) :
    (c.addAll p ts).entries = es ++ placed p ts ++ fs := by
  induction ts generalizing p c es with
  | nil => rw [addAll, hc, placed, List.mapIdx_nil, List.append_nil]
  | cons t ts ih =>
    obtain ⟨ht, hts⟩ := List.forall_mem_cons.mp hts
    have hfs' : ∀ e ∈ fs, p + t.size + extent ts ≤ e.1 := fun e he => by
      have := hfs e he
      rw [extent_cons] at this
      omega
    have hadd : (c.add p t).entries = (es ++ [(p, t)]) ++ fs := by
      have hbehind : ∀ e ∈ fs, p < e.1 := fun e he => by
        have := hfs' e he
        omega
      rw [List.append_assoc, List.singleton_append, ← put_append hes hbehind, ← hc]
      rfl
    have hes' : ∀ e ∈ es ++ [(p, t)], e.1 < p + t.size := fun e he => by
      rcases List.mem_append.mp he with he | he
      · have := hes e he
        omega
      · rw [List.mem_singleton.mp he]
        omega
    rw [addAll, ih hts hadd hes' hfs', placed_cons, List.append_assoc es, List.singleton_append]

theorem mem_placed {p : Nat} {ts : List Token} (hts : ∀ t ∈ ts, 0 < t.size) {e : Nat × Token}
    (he : e ∈ placed p ts) : p ≤ e.1 ∧ e.1 < p + extent ts := by
  induction ts generalizing p with
  | nil => cases he
  | cons t ts ih =>
    obtain ⟨ht, hts⟩ := List.forall_mem_cons.mp hts
    rw [placed_cons] at he
    rw [extent_cons]
    rcases List.mem_cons.mp he with rfl | he
    · exact ⟨Nat.le_refl p, by simp only; omega⟩
    · have := ih hts he
      omega

theorem mem_moved_startingFrom {p n : Nat} {c : TokenTable} {e : Nat × Token}
    (he : e ∈ moved (· + n) (c.startingFrom p)) : p + n ≤ e.1 := by
  obtain ⟨a, ha, rfl⟩ := List.mem_map.mp he
  exact Nat.add_le_add_right (mem_startingFrom_iff.mp ha).2 n

theorem entries_insert (p : Nat) {ts : List Token} (hts : ∀ t ∈ ts, 0 < t.size) (c : TokenTable) :
    (c.insert p ts).entries =
      c.startingBefore p ++ placed p ts ++ moved (· + extent ts) (c.startingFrom p) :=
  entries_addAll hts (c.entries_shift p _) (fun _ he => (mem_startingBefore_iff.mp he).2)
    fun _ he => mem_moved_startingFrom he

theorem startingBefore_insert (p : Nat) {ts : List Token} (hts : ∀ t ∈ ts, 0 < t.size)
    (c : TokenTable) : (c.insert p ts).startingBefore p = c.startingBefore p := by
  have hentries := (c.entries_insert p hts).trans (List.append_assoc _ _ _)
  refine (starting_of_append hentries (fun e he => (mem_startingBefore_iff.mp he).2)
    fun e he => ?_).1
  rcases List.mem_append.mp he with he | he
  · exact (mem_placed hts he).1
  · exact Nat.le_of_add_right_le (mem_moved_startingFrom he)

theorem startingFrom_insert (p : Nat) {ts : List Token} (hts : ∀ t ∈ ts, 0 < t.size)
    (c : TokenTable) :
    (c.insert p ts).startingFrom (p + extent ts) = moved (· + extent ts) (c.startingFrom p) := by
  refine (starting_of_append (c.entries_insert p hts) (fun e he => ?_)
    fun e he => mem_moved_startingFrom he).2
  rcases List.mem_append.mp he with he | he
  · exact Nat.lt_add_right _ (mem_startingBefore_iff.mp he).2
  · exact (mem_placed hts he).2

theorem remove_of_le {start stop : Nat} (h : stop ≤ start) (c : TokenTable) :
    c.remove start stop = c := if_pos h

theorem moved_back (n : Nat) (es : List (Nat × Token)) : moved (· - n) (moved (· + n) es) = es := by
  rw [moved, moved, List.map_map]
  refine (List.map_congr_left fun e _ => ?_).trans (List.map_id es)
  exact Prod.ext (Nat.add_sub_cancel e.1 n) rfl

/-- What was inserted can be removed again. -/
theorem remove_insert (p : Nat) {ts : List Token} (hts : ∀ t ∈ ts, 0 < t.size) (c : TokenTable) :
    (c.insert p ts).remove p (p + extent ts) = c := by
  cases ts with
  | nil => exact (remove_of_le (Nat.le_refl p) _).trans (c.shift_zero p)
  | cons t ts =>
    have hlt : p < p + extent (t :: ts) := by
      have := hts t List.mem_cons_self
      rw [extent_cons]
      omega
    have hentries := entries_remove hlt (c.insert p (t :: ts))
    rw [Nat.add_sub_cancel_left, c.startingBefore_insert p hts, c.startingFrom_insert p hts,
      moved_back, startingBefore_append_startingFrom] at hentries
    exact eq_of_entries_eq hentries

/-- What the operations of a table leave of its entries, and where. -/
structure IsPositional (c : TokenTable) : Prop where
  get? (p : Nat) (t : Token) : c.get? p = some t ↔ (p, t) ∈ c.entries
  shift (p n : Nat) :
    (c.shift p n).entries = c.startingBefore p ++ moved (· + n) (c.startingFrom p)
  shift_in_any_order (p n : Nat) (ks : List Nat) :
    ks.Perm (c.positions.filter (p ≤ ·)) → c.rekey (· + n) ks = c.shift p n
  remove (start stop : Nat) : start < stop →
    (c.remove start stop).entries =
      c.startingBefore start ++ moved (· - (stop - start)) (c.startingFrom stop)
  remove_in_any_order (start stop : Nat) (ks : List Nat) : start < stop →
    ks.Perm ((c.evict start stop).positions.filter (stop ≤ ·)) →
      (c.evict start stop).rekey (· - (stop - start)) ks = c.remove start stop
  remove_nothing (start stop : Nat) : stop ≤ start → c.remove start stop = c
  evict (start stop : Nat) :
    (c.evict start stop).entries = c.entries.filter fun e => ¬ (start ≤ e.1 ∧ e.1 < stop)
  invalidate (p : Nat) :
    (c.invalidate p).entries = c.entries.filter fun e => ¬ (e.1 < p ∧ p ≤ e.1 + e.2.size)
  insert (p : Nat) (ts : List Token) : (∀ t ∈ ts, 0 < t.size) →
    (c.insert p ts).entries =
      c.startingBefore p ++ placed p ts ++ moved (· + extent ts) (c.startingFrom p)
  /-- The tokens inserted can be removed again. -/
  remove_insert (p : Nat) (ts : List Token) : (∀ t ∈ ts, 0 < t.size) →
    (c.insert p ts).remove p (p + extent ts) = c

theorem isPositional (c : TokenTable) : c.IsPositional where
  get? _ _ := get?_eq_some_iff
  shift p n := c.entries_shift p n
  shift_in_any_order _ n _ hks := rekey_eq_shift n hks
  remove _ _ h := c.entries_remove h
  remove_in_any_order _ _ _ h hks := rekey_evict_eq_remove h hks
  remove_nothing _ _ h := c.remove_of_le h
  evict start stop := c.entries_evict start stop
  invalidate p := c.entries_invalidate p
  insert p _ hts := c.entries_insert p hts
  remove_insert p _ hts := c.remove_insert p hts

end TokenTable

end LatexTokens
