import LatexTokens.Proofs.Text.Protection
import LatexTokens.Proofs.Text.Replacement

/-!
# What a backslash starts

Adjacent backslashes pair up from the left, so that only the last of an odd number is free to
start something: a sequence for a special character or a line continuation. `sequenceAt?` and
`continuationLength` say so of an index of a text by counting the backslashes before it.
-/

set_option autoImplicit false

namespace LatexTokens

namespace Special

/-- The special characters whose sequences start with a backslash that is not doubled. -/
def undoubled : List Special :=
  [hash, percent, openBrace, closeBrace, ampersand, dollar, underscore, caret, tilde]

theorem read?_eq_some_iff {s : Special} {t : Text} :
    read? t = some s ↔ s.sequence <+: '\\' :: t := by
  constructor
  · intro h
    exact ⟨_, sequence_append_of_read? h⟩
  · intro h₀
    obtain ⟨rest, h⟩ := h₀
    cases s <;> cases h <;> rfl

theorem sequence_eq_cons (s : Special) : s.sequence = '\\' :: s.sequence.tail := by
  cases s <;> rfl

theorem read?_sequence_tail_append (s : Special) (v : Text) :
    read? (s.sequence.tail ++ v) = some s := by
  apply read?_eq_some_iff.mpr
  refine ⟨v, ?_⟩
  rw [← List.cons_append, ← sequence_eq_cons]

theorem find?_undoubled {t : Text} (h : t.head? ≠ some '\\') :
    undoubled.find? (fun s => s.sequence <+: '\\' :: t) = read? t := by
  have hread : (fun s : Special => decide (s.sequence <+: '\\' :: t)) =
      fun s => decide (read? t = some s) := by
    funext s
    rw [decide_eq_decide, read?_eq_some_iff]
  rw [hread]
  rcases hs : read? t with _ | s
  · rfl
  · cases s with
    | backslash =>
      obtain ⟨rest, hrest⟩ := read?_eq_some_iff.mp hs
      cases hrest
      exact absurd rfl h
    | _ => rfl

end Special

namespace Text

/-- How many backslashes a text ends in. -/
def finalBackslashes (t : Text) : Nat := (t.reverse.takeWhile (· = '\\')).length

theorem finalBackslashes_concat (t : Text) (c : Char) :
    finalBackslashes (t ++ [c]) = if c = '\\' then finalBackslashes t + 1 else 0 := by
  rw [finalBackslashes, List.reverse_concat, List.takeWhile_cons]
  by_cases hc : c = '\\' <;> simp [hc, finalBackslashes]

/-- Whether the character at an index is the last one of an odd number of adjacent backslashes. -/
def IsActive (t : Text) (i : Nat) : Prop :=
  t[i]? = some '\\' ∧ t[i + 1]? ≠ some '\\' ∧ finalBackslashes (t.take (i + 1)) % 2 = 1

instance (t : Text) (i : Nat) : Decidable (IsActive t i) := inferInstanceAs (Decidable (_ ∧ _))

/-- The number of characters of the line break that a text starts with. -/
def breakLength : Text → Nat
  | '\n' :: _ => 1
  | '\r' :: '\n' :: _ => 2
  | _ => 0

/-- The number of characters of the line continuation that starts at an index: an active
backslash, a line break, and the spaces and tabs behind it. -/
def continuationLength (t : Text) (i : Nat) : Nat :=
  let b := breakLength (t.drop (i + 1))
  if IsActive t i ∧ b ≠ 0 then 1 + b + (indentation (t.drop (i + 1 + b))).length else 0

/-- The special character whose sequence starts at an index: a backslash that is the first of a
pair, or an active one. -/
def sequenceAt? (t : Text) (i : Nat) : Option Special :=
  if t[i]? = some '\\' ∧ t[i + 1]? = some '\\' ∧ finalBackslashes (t.take i) % 2 = 0 then
    some .backslash
  else if IsActive t i then Special.undoubled.find? fun s => s.sequence <+: t.drop i
  else none

/-- The line continuations of a text, to be dropped. -/
def continuations (t : Text) : Stretches := ⟨continuationLength t, fun _ => []⟩

/-- The line continuations, to be dropped, and the sequences, to be read as what they stand
for. -/
def escapes (t : Text) : Stretches where
  length i := match sequenceAt? t i with
    | some s => s.sequence.length
    | none => continuationLength t i
  reading i := match sequenceAt? t i with
    | some s => [s.symbol]
    | none => []

/-! ## At an index that is no backslash -/

theorem continuationLength_of_ne {t : Text} {i : Nat} (h : t[i]? ≠ some '\\') :
    continuationLength t i = 0 := by
  apply if_neg
  intro h₀
  exact h h₀.1.1

theorem sequenceAt?_of_ne {t : Text} {i : Nat} (h : t[i]? ≠ some '\\') :
    sequenceAt? t i = none := by
  rw [sequenceAt?, if_neg (fun h₀ => h h₀.1), if_neg (fun h₀ => h h₀.1)]

/-! ## At a backslash behind an even number of others -/

section
variable {u v : Text}

theorem getElem?_cut (u v : Text) (m : Nat) : (u ++ v)[u.length + m]? = v[m]? := by
  rw [List.getElem?_append_right (Nat.le_add_right _ _), Nat.add_sub_cancel_left]

theorem drop_cut (u v : Text) (m : Nat) : (u ++ v).drop (u.length + m) = v.drop m :=
  List.drop_length_add_append m

theorem take_cut (u v : Text) (m : Nat) : (u ++ v).take (u.length + m) = u ++ v.take m :=
  List.take_length_add_append m

theorem isActive_cut_iff (hu : finalBackslashes u % 2 = 0) :
    IsActive (u ++ '\\' :: v) u.length ↔ v.head? ≠ some '\\' := by
  have h₀ := getElem?_cut u ('\\' :: v) 0
  have h₁ := getElem?_cut u ('\\' :: v) 1
  have h₂ := take_cut u ('\\' :: v) 1
  rw [Nat.add_zero] at h₀
  rw [List.take_succ_cons, List.take_zero] at h₂
  rw [IsActive, h₀, h₁, h₂, finalBackslashes_concat, if_pos rfl]
  simp only [List.getElem?_cons_zero, List.getElem?_cons_succ, List.head?_eq_getElem?, true_and]
  constructor
  · intro h
    exact h.1
  · intro h
    exact ⟨h, by omega⟩

theorem sequenceAt?_cut (hu : finalBackslashes u % 2 = 0) :
    sequenceAt? (u ++ '\\' :: v) u.length = Special.read? v := by
  have h₀ : (u ++ '\\' :: v)[u.length]? = some '\\' := getElem?_cut u ('\\' :: v) 0
  have h₁ : (u ++ '\\' :: v)[u.length + 1]? = v[0]? := getElem?_cut u ('\\' :: v) 1
  have h₂ : (u ++ '\\' :: v).drop u.length = '\\' :: v := drop_cut u ('\\' :: v) 0
  rw [← List.head?_eq_getElem?] at h₁
  by_cases hv : v.head? = some '\\'
  · obtain ⟨w, rfl⟩ := List.head?_eq_some_iff.mp hv
    rw [sequenceAt?, List.take_left, if_pos ⟨h₀, h₁, hu⟩]
    rfl
  · rw [sequenceAt?, if_neg (fun h => hv (h₁.symm.trans h.2.1)),
      if_pos ((isActive_cut_iff hu).mpr hv), h₂, Special.find?_undoubled hv]

theorem continuation?_eq_ite (t : Text) : continuation? t =
    if breakLength t = 0 then none
    else some (t.take (breakLength t) ++ indentation (t.drop (breakLength t))) := by
  fun_cases continuation? t with
  | case1 | case2 => rfl
  | case3 t h₁ h₂ =>
    rw [breakLength.eq_3 t h₂ h₁]
    rfl

theorem breakLength_le_length (t : Text) : breakLength t ≤ t.length := by
  fun_cases breakLength t <;> simp

/-- The length of the line continuation at a cut, backslash included. -/
theorem continuationLength_cut (hu : finalBackslashes u % 2 = 0) :
    continuationLength (u ++ '\\' :: v) u.length =
      match continuation? v with
      | some line => 1 + line.length
      | none => 0 := by
  have hdrop : (u ++ '\\' :: v).drop (u.length + 1) = v := drop_cut u ('\\' :: v) 1
  have hdrop' : (u ++ '\\' :: v).drop (u.length + 1 + breakLength v) = v.drop (breakLength v) := by
    rw [← List.drop_drop, hdrop]
  rw [continuation?_eq_ite]
  simp only [continuationLength, hdrop, hdrop', isActive_cut_iff hu]
  by_cases hb : breakLength v = 0
  · rw [if_neg (fun h => h.2 hb), if_pos hb]
  · have hv : v.head? ≠ some '\\' := by
      intro h₀
      obtain ⟨w, rfl⟩ := List.head?_eq_some_iff.mp h₀
      exact hb rfl
    rw [if_pos ⟨hv, hb⟩, if_neg hb]
    simp only [List.length_append, List.length_take, Nat.min_eq_left (breakLength_le_length v)]
    omega

end

/-! ## Behind a backslash -/

theorem continuation?_eq_none_of_read? {t : Text} {s : Special} (h : Special.read? t = some s) :
    continuation? t = none := by
  unfold Special.read? at h
  split at h <;> cases h <;> rfl

theorem head?_ne_of_read? {t : Text} (h : Special.read? t = none) : t.head? ≠ some '\\' := by
  intro h₀
  obtain ⟨w, rfl⟩ := List.head?_eq_some_iff.mp h₀
  cases h

theorem ne_of_mem_sequence_tail {s : Special} (hs : s ≠ .backslash) :
    ∀ c ∈ s.sequence.tail, c ≠ '\\' := by
  cases s <;> simp [Special.sequence, Special.symbol] at hs ⊢

theorem prefix_of_continuation? {t line : Text} (h : continuation? t = some line) :
    line <+: t := by
  rw [continuation?_eq_ite] at h
  split at h
  · cases h
  · cases h
    have hindent : indentation (t.drop (breakLength t)) <+: t.drop (breakLength t) :=
      List.takeWhile_prefix _
    obtain ⟨w, hw⟩ := hindent
    refine ⟨w, ?_⟩
    rw [List.append_assoc, hw, List.take_append_drop]

theorem ne_nil_of_continuation? {t line : Text} (h : continuation? t = some line) :
    line ≠ [] := by
  unfold continuation? at h
  split at h <;> cases h <;> exact List.cons_ne_nil _ _

theorem ne_of_mem_continuation? {t line : Text} (h : continuation? t = some line) :
    ∀ c ∈ line, c ≠ '\\' := by
  have hindent : ∀ w : Text, ∀ c ∈ indentation w, c ≠ '\\' := by
    intro w c hc h₀
    subst h₀
    cases List.all_eq_true.mp List.all_takeWhile _ hc
  unfold continuation? at h
  split at h <;> cases h
  · simpa using hindent _
  · simpa using hindent _

theorem finalBackslashes_append {w : Text} (hne : w ≠ []) (hw : ∀ c ∈ w, c ≠ '\\') (u : Text) :
    finalBackslashes (u ++ w) = 0 := by
  rw [← List.dropLast_concat_getLast hne, ← List.append_assoc, finalBackslashes_concat]
  exact if_neg (hw _ (List.getLast_mem hne))

theorem finalBackslashes_append_sequence {u : Text} (hu : finalBackslashes u % 2 = 0)
    (s : Special) : finalBackslashes (u ++ s.sequence) % 2 = 0 := by
  by_cases hs : s = .backslash
  · subst hs
    have happend : u ++ Special.sequence .backslash = u ++ ['\\'] ++ ['\\'] := by
      rw [List.append_assoc]
      rfl
    rw [happend, finalBackslashes_concat, finalBackslashes_concat, if_pos rfl, if_pos rfl]
    omega
  · have hne : s.sequence.tail ≠ [] := by cases s <;> exact List.cons_ne_nil _ _
    rw [Special.sequence_eq_cons, List.append_cons,
      finalBackslashes_append hne (ne_of_mem_sequence_tail hs)]

theorem sequenceAt?_sequence {u v : Text} (hu : finalBackslashes u % 2 = 0) (s : Special) :
    sequenceAt? (u ++ (s.sequence ++ v)) u.length = some s ∧
      continuationLength (u ++ (s.sequence ++ v)) u.length = 0 := by
  have hread := Special.read?_sequence_tail_append s v
  rw [Special.sequence_eq_cons, List.cons_append, sequenceAt?_cut hu, continuationLength_cut hu,
    hread, continuation?_eq_none_of_read? hread]
  exact ⟨rfl, rfl⟩

/-- Nothing starts inside a sequence. -/
theorem quiet_in_sequence {u v : Text} (hu : finalBackslashes u % 2 = 0) {s : Special} {m : Nat}
    (hpos : 0 < m) (hm : m < s.sequence.length) :
    continuationLength (u ++ (s.sequence ++ v)) (u.length + m) = 0 ∧
      sequenceAt? (u ++ (s.sequence ++ v)) (u.length + m) = none := by
  by_cases hs : s = .backslash
  · -- The second backslash of a pair: an odd number stands before it, an even number with it.
    subst hs
    have hm : m = 1 := by
      have : m < 2 := hm
      omega
    subst hm
    have h₁ := take_cut u (Special.sequence .backslash ++ v) 1
    have h₂ := take_cut u (Special.sequence .backslash ++ v) 2
    have hone : finalBackslashes (u ++ ['\\']) = finalBackslashes u + 1 := by
      rw [finalBackslashes_concat, if_pos rfl]
    have htwo : finalBackslashes (u ++ ['\\', '\\']) % 2 = 0 :=
      finalBackslashes_append_sequence hu .backslash
    have hactive : ¬ IsActive (u ++ (Special.sequence .backslash ++ v)) (u.length + 1) := by
      intro h₀
      have hodd := h₀.2.2
      rw [Nat.add_assoc, h₂] at hodd
      change finalBackslashes (u ++ ['\\', '\\']) % 2 = 1 at hodd
      omega
    refine ⟨if_neg fun h₀ => hactive h₀.1, ?_⟩
    rw [sequenceAt?, if_neg, if_neg hactive]
    intro h₀
    have heven := h₀.2.2
    rw [h₁] at heven
    change finalBackslashes (u ++ ['\\']) % 2 = 0 at heven
    omega
  · have hne : (u ++ (s.sequence ++ v))[u.length + m]? ≠ some '\\' := by
      obtain ⟨n, rfl⟩ := Nat.exists_eq_succ_of_ne_zero (Nat.ne_of_gt hpos)
      rw [getElem?_cut, List.getElem?_append_left hm, s.sequence_eq_cons,
        List.getElem?_cons_succ]
      intro h₀
      exact ne_of_mem_sequence_tail hs _ (List.mem_of_getElem? h₀) rfl
    exact ⟨continuationLength_of_ne hne, sequenceAt?_of_ne hne⟩

/-- Nothing starts inside a line continuation. -/
theorem quiet_in_continuation {u v line : Text} (hline : continuation? (line ++ v) = some line)
    {m : Nat} (hpos : 0 < m) (hm : m < ('\\' :: line).length) :
    continuationLength (u ++ '\\' :: (line ++ v)) (u.length + m) = 0 ∧
      sequenceAt? (u ++ '\\' :: (line ++ v)) (u.length + m) = none := by
  have hne : (u ++ '\\' :: (line ++ v))[u.length + m]? ≠ some '\\' := by
    obtain ⟨n, rfl⟩ := Nat.exists_eq_succ_of_ne_zero (Nat.ne_of_gt hpos)
    rw [List.length_cons] at hm
    rw [getElem?_cut, List.getElem?_cons_succ, List.getElem?_append_left (by omega)]
    intro h₀
    exact ne_of_mem_continuation? hline _ (List.mem_of_getElem? h₀) rfl
  exact ⟨continuationLength_of_ne hne, sequenceAt?_of_ne hne⟩

end Text

end LatexTokens
