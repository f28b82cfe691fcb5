import Mathlib
import LatexTokens.Proofs.Balance.Opening
import LatexTokens.Proofs.Comment.Scanning
import LatexTokens.Proofs.Fault.Pointing

/-!
# The closing that is found

The scan for a closing stops at the first place where the closing stands and what is in front of
it is balanced. Where there is none it says which group is open at the end, or which delimiter
cannot be passed over, if there is one. `Enclosure.closingAt?_eq_iff` says this for each outcome,
by offsets of the text around the region.
-/

set_option autoImplicit false

namespace LatexTokens

namespace Scan

/-- Whether a scan, once it has passed over a first part of a text, comes to the closing with no
group and no comment open. -/
def StopsAt (n : Nesting) (closing : Text) (s : Scan) (position : Nat) (t inner : Text) : Prop :=
  ∃ rest s', t = inner ++ (closing ++ rest) ∧ s.passOver n position inner = .ok s' ∧
    s'.isIdle = true

/-- What the scan finds at the end of a text. -/
def atEnd (position : Nat) (s : Scan) : Except Fault (Option (Text × Text)) :=
  match s.opened with
  | [] => .ok none
  | (d, start) :: _ => .error ⟨⟨start, position⟩, .neverTerminated d.opening⟩

variable {n : Nesting} {closing : Text} {s : Scan} {position : Nat}

theorem stopsAt_nil_iff {t : Text} : s.StopsAt n closing position t [] ↔
    (s.isIdle && closing.isPrefixOf t) = true := by
  rw [Bool.and_eq_true, List.isPrefixOf_iff_prefix]
  constructor
  · rintro ⟨rest, s', rfl, hs, hidle⟩
    cases hs
    exact ⟨hidle, List.prefix_append closing rest⟩
  · rintro ⟨hidle, rest, rfl⟩
    exact ⟨rest, s, rfl, rfl, hidle⟩

theorem stopsAt_cons_iff {a c : Char} {t inner : Text} :
    s.StopsAt n closing position (c :: t) (a :: inner) ↔ a = c ∧ ∃ s',
      s.step n position c = .ok s' ∧ s'.StopsAt n closing (position + c.utf8Size) t inner := by
  constructor
  · rintro ⟨rest, s', ht, hover, hidle⟩
    rw [List.cons_append, List.cons.injEq] at ht
    obtain ⟨rfl, rfl⟩ := ht
    rw [passOver] at hover
    split at hover
    · cases hover
    · next hs => exact ⟨rfl, _, hs, rest, s', rfl, hover, hidle⟩
  · rintro ⟨rfl, s', hs, rest, s'', rfl, hover, hidle⟩
    exact ⟨rest, s'', rfl, by rw [passOver_cons hs, hover], hidle⟩

/-- Where the scan can stop it stops, at the latest there. -/
theorem exists_find_of_stopsAt (hc : closing ≠ []) {t inner : Text}
    (h : s.StopsAt n closing position t inner) : ∃ inner' rest,
      s.find n closing position t = .ok (some (inner', rest)) ∧ inner'.size ≤ inner.size := by
  induction t generalizing s position inner with
  | nil =>
    obtain ⟨rest, s', ht, _⟩ := h
    simp [hc] at ht
  | cons c t ih =>
    by_cases hstop : (s.isIdle && closing.isPrefixOf (c :: t)) = true
    · exact ⟨[], _, by rw [find, if_pos hstop], Nat.zero_le _⟩
    · cases inner with
      | nil => exact absurd (stopsAt_nil_iff.mp h) hstop
      | cons a inner =>
        obtain ⟨rfl, s', hs, hstops⟩ := stopsAt_cons_iff.mp h
        obtain ⟨inner', rest, hf, hle⟩ := ih hstops
        refine ⟨a :: inner', rest, ?_, ?_⟩
        · rw [find_of_step hstop hs, hf]
          rfl
        · rw [Text.size_cons, Text.size_cons]
          omega

theorem stopsAt_of_find {t inner rest : Text}
    (h : s.find n closing position t = .ok (some (inner, rest))) :
    s.StopsAt n closing position t inner := by
  induction t generalizing s position inner with
  | nil =>
    rw [find] at h
    split at h <;> cases h
  | cons c t ih =>
    rw [find] at h
    split at h
    · next hstop =>
      cases h
      exact stopsAt_nil_iff.mpr hstop
    · split at h
      · cases h
      · next s' hs =>
        split at h
        · cases h
        · cases h
        · next hf =>
          cases h
          exact stopsAt_cons_iff.mpr ⟨rfl, s', hs, ih hf⟩

theorem passing_atEnd (u : Text) (r : Except Fault Scan) :
    passing u (r.bind (atEnd position)) = r.bind (atEnd position) := by
  rcases r with f | ⟨opened, commented⟩
  · rfl
  · cases opened <;> rfl

/-- A scan that stops nowhere passes over the whole text, or fails in it. -/
theorem find_of_not_stopsAt {t : Text} (h : ∀ inner, ¬ s.StopsAt n closing position t inner) :
    s.find n closing position t = (s.passOver n position t).bind (atEnd (position + t.size)) := by
  induction t generalizing s position with
  | nil =>
    rw [find, passOver, Text.size_nil, Nat.add_zero]
    rfl
  | cons c t ih =>
    have hstop : ¬ (s.isIdle && closing.isPrefixOf (c :: t)) = true :=
      fun hstop => h [] (stopsAt_nil_iff.mpr hstop)
    cases hs : s.step n position c with
    | error f =>
      rw [find, if_neg hstop, passOver, hs]
      rfl
    | ok s' =>
      have hrest : ∀ inner, ¬ s'.StopsAt n closing (position + c.utf8Size) t inner :=
        fun inner hi => h (c :: inner) (stopsAt_cons_iff.mpr ⟨rfl, s', hs, hi⟩)
      rw [find_of_step hstop hs, ih hrest, passOver_cons hs, Text.size_cons, Nat.add_assoc,
        passing_atEnd]

end Scan

namespace Text

/-- Two boundaries cut a text into three parts. -/
theorem exists_cut {t : Text} {p q : Nat} (hp : t.IsBoundary p) (hq : t.IsBoundary q)
    (hle : p ≤ q) : ∃ u x v, t = u ++ (x ++ v) ∧ u.size = p ∧ u.size + x.size = q := by
  obtain ⟨z, hz, _⟩ := exists_append_of_size_le
    ((before_append_after q t).trans (before_append_after p t).symm)
    (by rwa [hp.size_before, hq.size_before])
  refine ⟨t.before p, z, t.after q, ?_, hp.size_before, ?_⟩
  · rw [← List.append_assoc, ← hz, before_append_after]
  · rw [← size_append, ← hz, hq.size_before]

end Text

theorem Span.textIn_append (u x v : Text) :
    Span.textIn ⟨u.size, u.size + x.size⟩ (u ++ (x ++ v)) = x := by
  rw [Span.textIn, ← List.append_assoc, ← Text.size_append, Text.before_size_append,
    Text.after_size_append]

namespace Enclosure

/-- The offset of the closing of a region that starts at an offset of a text; nothing if all
groups are closed but the closing is missing. -/
def closingAt? (e : Enclosure) (s : Text) (start : Nat) : Except Fault (Option Nat) :=
  (Scan.find e.nesting e.closing {} start (s.after start)).map
    (Option.map fun r => start + r.1.size)

/-- Whether the closing stands at an offset, and the region up to there is balanced and ends
outside comments. -/
structure IsClosedAt (e : Enclosure) (s : Text) (start i : Nat) : Prop where
  le : start ≤ i
  boundary : s.IsBoundary i
  closing : e.closing <+: s.after i
  balanced : Balanced e.nesting false (Span.textIn ⟨start, i⟩ s)

/-- The faults of a region without a closing. -/
inductive Misses (e : Enclosure) (s : Text) (start : Nat) : Fault → Prop where
  /-- The innermost group that is open at the end is never closed. -/
  | unterminated {d : Delimiter} {p : Nat} {opened : List (Delimiter × Nat)} {commented : Bool} :
      Opens e.nesting start ((d, p) :: opened) commented (s.after start) →
      Misses e s start ⟨⟨p, s.size⟩, .neverTerminated d.opening⟩
  /-- A closing delimiter stands where no group is open. -/
  | unopened {d : Delimiter} {i : Nat} : start ≤ i → s.IsBoundary i →
      Balanced e.nesting false (Span.textIn ⟨start, i⟩ s) → d ∈ e.nesting.delimiters →
      [d.closing] <+: s.after i → Misses e s start (.point i (.noMatchingOpener d.closing))
  /-- A closing brace meets an open bracket. -/
  | mismatched {i p : Nat} {opened : List (Delimiter × Nat)} : start ≤ i → s.IsBoundary i →
      Opens e.nesting start ((.bracket, p) :: opened) false (Span.textIn ⟨start, i⟩ s) →
      ['}'] <+: s.after i → Misses e s start (.point i (.mismatchedDelimiter '[' p '}'))

variable {e : Enclosure} {s : Text} {start : Nat}

theorem opens_nil_iff {n : Nesting} {commented : Bool} {t : Text} :
    Opens n start [] commented t ↔ Balanced n commented t := by
  constructor
  · intro h
    cases h with
    | none h => exact h
  · exact .none

theorem isClosedAt_iff (hs : s.IsBoundary start) {i : Nat} : e.IsClosedAt s start i ↔
    ∃ inner, Scan.StopsAt e.nesting e.closing {} start (s.after start) inner ∧
      i = start + inner.size := by
  constructor
  · intro h
    obtain ⟨u, inner, v, rfl, rfl, rfl⟩ := Text.exists_cut hs h.boundary h.le
    have hclosing := h.closing
    have hbalanced := h.balanced
    rw [← List.append_assoc, ← Text.size_append, Text.after_size_append] at hclosing
    rw [Span.textIn_append] at hbalanced
    obtain ⟨rest, rfl⟩ := hclosing
    rw [Text.after_size_append]
    exact ⟨inner, ⟨rest, ⟨[], false⟩, rfl, Scan.passOver_of_opens (.none hbalanced), rfl⟩, rfl⟩
  · rintro ⟨inner, ⟨rest, s', ht, hover, hidle⟩, rfl⟩
    obtain ⟨ho, hc⟩ := Scan.isIdle_iff.mp hidle
    have hopens := Scan.passOver_eq_ok_iff.mp hover
    rw [ho, hc, opens_nil_iff] at hopens
    obtain ⟨u, v, rfl, rfl⟩ := Text.isBoundary_iff.mp hs
    rw [Text.after_size_append] at ht
    subst ht
    refine ⟨Nat.le_add_right _ _, ?_, ?_, ?_⟩
    · rw [← List.append_assoc, ← Text.size_append]
      exact Text.isBoundary_size_append _ _
    · rw [← List.append_assoc, ← Text.size_append, Text.after_size_append]
      exact List.prefix_append _ _
    · rwa [Span.textIn_append]

/-- A region is split where its closing is found. -/
theorem split_eq (e : Enclosure) (t : Text) :
    e.split t = match e.closingAt? (e.opening ++ t) e.opening.size with
      | .error f => .error f
      | .ok none => .error ⟨⟨0, (e.opening ++ t).size⟩, e.unclosed⟩
      | .ok (some i) => .ok (Span.textIn ⟨e.opening.size, i⟩ (e.opening ++ t),
          (e.opening ++ t).after (i + e.closing.size)) := by
  rw [split, closingAt?, Text.after_size_append]
  split
  · next h => rw [h]; rfl
  · next h => rw [h, Text.size_append]; rfl
  · next parts h =>
    obtain ⟨inner, rest⟩ := parts
    rw [h]
    have ht := Scan.append_eq_of_find h
    subst ht
    have hrest : (e.opening ++ (inner ++ (e.closing ++ rest))).after
        (e.opening.size + inner.size + e.closing.size) = rest := by
      rw [← List.append_assoc, ← List.append_assoc, ← Text.size_append, ← Text.size_append,
        Text.after_size_append]
    simp only [Except.map, Option.map, Span.textIn_append, hrest]

/-- Where a text cannot be passed over, by offsets of the text around it. -/
theorem passOver_eq_error_iff (hs : s.IsBoundary start) {n : Nesting} {f : Fault} :
    Scan.passOver n {} start (s.after start) = .error f ↔
      ∃ i c, ∃ s' : Scan, start ≤ i ∧ s.IsBoundary i ∧ [c] <+: s.after i ∧
        Opens n start s'.opened s'.commented (Span.textIn ⟨start, i⟩ s) ∧
        s'.step n i c = .error f := by
  rw [Scan.passOver_eq_error_iff]
  constructor
  · rintro ⟨inner, c, rest, s', ht, hover, hstep⟩
    obtain ⟨u, v, rfl, rfl⟩ := Text.isBoundary_iff.mp hs
    rw [Text.after_size_append] at ht
    subst ht
    refine ⟨u.size + inner.size, c, s', Nat.le_add_right _ _, ?_, ?_, ?_, hstep⟩
    · rw [← List.append_assoc, ← Text.size_append]
      exact Text.isBoundary_size_append _ _
    · rw [← List.append_assoc, ← Text.size_append, Text.after_size_append]
      exact List.prefix_append [c] rest
    · rw [Span.textIn_append]
      exact Scan.passOver_eq_ok_iff.mp hover
  · rintro ⟨i, c, s', hle, hi, hc, hopens, hstep⟩
    obtain ⟨u, inner, v, rfl, rfl, rfl⟩ := Text.exists_cut hs hi hle
    rw [← List.append_assoc, ← Text.size_append, Text.after_size_append] at hc
    obtain ⟨rest, rfl⟩ := hc
    rw [Span.textIn_append] at hopens
    rw [Text.after_size_append]
    exact ⟨inner, c, rest, s', rfl, Scan.passOver_of_opens hopens, hstep⟩

/-- The faults are those that the scan has when it passes over the whole text. -/
theorem misses_iff (hs : s.IsBoundary start) {f : Fault} : e.Misses s start f ↔
    (Scan.passOver e.nesting {} start (s.after start)).bind (Scan.atEnd s.size) = .error f := by
  constructor
  · intro h
    cases h with
    | unterminated ho =>
      rw [Scan.passOver_of_opens ho]
      rfl
    | @unopened d i hle hi hb hd hc =>
      have ho : Opens e.nesting start (Scan.mk [] false).opened false (Span.textIn ⟨start, i⟩ s) :=
        .none hb
      have hstep : Scan.step e.nesting i d.closing ⟨[], false⟩ =
          .error (.point i (.noMatchingOpener d.closing)) :=
        ho.step_eq_error_iff.mpr ⟨rfl, .inl ⟨rfl, d, hd, rfl, rfl⟩⟩
      rw [(passOver_eq_error_iff hs).mpr ⟨i, _, _, hle, hi, hc, ho, hstep⟩]
      rfl
    | @mismatched i p opened hle hi ho hc =>
      have ho : Opens e.nesting start (Scan.mk ((.bracket, p) :: opened) false).opened false
        (Span.textIn ⟨start, i⟩ s) := ho
      have hstep : Scan.step e.nesting i '}' ⟨(.bracket, p) :: opened, false⟩ =
          .error (.point i (.mismatchedDelimiter '[' p '}')) :=
        ho.step_eq_error_iff.mpr ⟨rfl, .inr ⟨p, opened, rfl, rfl, rfl⟩⟩
      rw [(passOver_eq_error_iff hs).mpr ⟨i, _, _, hle, hi, hc, ho, hstep⟩]
      rfl
  · intro h
    rcases hover : Scan.passOver e.nesting {} start (s.after start) with
      f' | ⟨_ | ⟨⟨d, p⟩, opened⟩, commented⟩
    · rw [hover] at h
      cases h
      obtain ⟨i, c, s', hle, hi, hc, hopens, hstep⟩ := (passOver_eq_error_iff hs).mp hover
      obtain ⟨hs', ⟨ho, d, hd, rfl, rfl⟩ | ⟨p, opened, ho, rfl, rfl⟩⟩ :=
        hopens.step_eq_error_iff.mp hstep
      · rw [ho, hs', opens_nil_iff] at hopens
        exact .unopened hle hi hopens hd hc
      · rw [ho, hs'] at hopens
        exact .mismatched hle hi hopens hc
    · rw [hover] at h
      cases h
    · have hopens := Scan.passOver_eq_ok_iff.mp hover
      rw [hover] at h
      cases h
      exact .unterminated hopens

/-- Where the region can be closed the first place to do so is found. -/
theorem closingAt?_of_isClosedAt (hs : s.IsBoundary start) {j : Nat}
    (hj : e.IsClosedAt s start j) : ∃ i, e.closingAt? s start = .ok (some i) ∧
      e.IsClosedAt s start i ∧ ∀ k, e.IsClosedAt s start k → i ≤ k := by
  obtain ⟨inner, hstops, rfl⟩ := (isClosedAt_iff hs).mp hj
  obtain ⟨first, rest, hf, _⟩ := Scan.exists_find_of_stopsAt e.closing_ne_nil hstops
  refine ⟨start + first.size, by rw [closingAt?, hf]; rfl, ?_, ?_⟩
  · exact (isClosedAt_iff hs).mpr ⟨first, Scan.stopsAt_of_find hf, rfl⟩
  · intro k hk
    obtain ⟨inner', hstops', rfl⟩ := (isClosedAt_iff hs).mp hk
    obtain ⟨first', rest', hf', hle⟩ := Scan.exists_find_of_stopsAt e.closing_ne_nil hstops'
    rw [hf] at hf'
    cases hf'
    exact Nat.add_le_add_left hle start

/-- Without a place to close the region the text is passed over as a whole. -/
theorem closingAt?_of_not_isClosedAt (hs : s.IsBoundary start)
    (h : ∀ j, ¬ e.IsClosedAt s start j) : e.closingAt? s start =
      ((Scan.passOver e.nesting {} start (s.after start)).bind (Scan.atEnd s.size)).map
        (Option.map fun r => start + r.1.size) := by
  have hnot : ∀ inner, ¬ Scan.StopsAt e.nesting e.closing {} start (s.after start) inner :=
    fun inner hi => h _ ((isClosedAt_iff hs).mpr ⟨inner, hi, rfl⟩)
  have hsize := Text.floor_add_size_after start s
  rw [show s.floor start = start from hs] at hsize
  rw [closingAt?, Scan.find_of_not_stopsAt hnot, hsize]

theorem bind_atEnd_eq_none_iff {n : Nesting} {p : Nat} {t : Text} :
    (Scan.passOver n {} start t).bind (Scan.atEnd p) = .ok none ↔
      ∃ commented, Balanced n commented t := by
  constructor
  · intro h
    rcases hover : Scan.passOver n {} start t with f | ⟨_ | ⟨⟨d, q⟩, opened⟩, commented⟩
    · rw [hover] at h
      cases h
    · have hopens := Scan.passOver_eq_ok_iff.mp hover
      exact ⟨commented, opens_nil_iff.mp hopens⟩
    · rw [hover] at h
      cases h
  · rintro ⟨commented, h⟩
    rw [Scan.passOver_of_opens (.none h)]
    rfl

/-- What is found is the first closing behind a balanced text. Nothing is found in a balanced text
without one, and any other text has a fault. -/
theorem closingAt?_eq_iff (hs : s.IsBoundary start) :
    (∀ i, e.closingAt? s start = .ok (some i) ↔
      e.IsClosedAt s start i ∧ ∀ j, e.IsClosedAt s start j → i ≤ j) ∧
    (e.closingAt? s start = .ok none ↔
      (∃ commented, Balanced e.nesting commented (s.after start)) ∧
        ∀ j, ¬ e.IsClosedAt s start j) ∧
    ∀ f, e.closingAt? s start = .error f ↔
      e.Misses s start f ∧ ∀ j, ¬ e.IsClosedAt s start j := by
  by_cases hclosed : ∃ j, e.IsClosedAt s start j
  · obtain ⟨j, hj⟩ := hclosed
    obtain ⟨first, hfound, hfirst, hleast⟩ := closingAt?_of_isClosedAt hs hj
    refine ⟨fun i => ?_, ?_, fun f => ?_⟩
    · rw [hfound, Except.ok.injEq, Option.some.injEq]
      constructor
      · rintro rfl
        exact ⟨hfirst, hleast⟩
      · rintro ⟨hi, hi'⟩
        exact Nat.le_antisymm (hleast i hi) (hi' first hfirst)
    · rw [hfound]
      exact ⟨nofun, fun h => absurd hj (h.2 j)⟩
    · rw [hfound]
      exact ⟨nofun, fun h => absurd hj (h.2 j)⟩
  · have hnot : ∀ j, ¬ e.IsClosedAt s start j := fun j hj => hclosed ⟨j, hj⟩
    rw [closingAt?_of_not_isClosedAt hs hnot]
    refine ⟨fun i => ?_, ?_, fun f => ?_⟩
    · refine ⟨fun h => ?_, fun h => absurd h.1 (hnot i)⟩
      rcases hover : Scan.passOver e.nesting {} start (s.after start) with f | ⟨opened, commented⟩
      · rw [hover] at h
        cases h
      · rw [hover] at h
        cases opened <;> cases h
    · rw [and_iff_left hnot, ← bind_atEnd_eq_none_iff (p := s.size)]
      rcases (Scan.passOver e.nesting {} start (s.after start)).bind (Scan.atEnd s.size) with
        f | _ | r <;> simp [Except.map]
    · rw [and_iff_left hnot, misses_iff hs]
      rcases (Scan.passOver e.nesting {} start (s.after start)).bind (Scan.atEnd s.size) with
        g | r <;> simp [Except.map]

/-- In brackets behind `é[`: the bracket in the braces and the one in the comment do not count. -/
theorem closingAt?_eq_iff_brackets :
    let s : Text := ['é', '[', '{', ']', '}', '[', 'a', ']', '%', ']', '\n', ']', ']']
    s.IsBoundary 3 ∧ (group .bracket).closingAt? s 3 = .ok (some 12) ∧
      (group .bracket).IsClosedAt s 3 12 ∧ ∀ j, (group .bracket).IsClosedAt s 3 j → 12 ≤ j := by
  intro s
  have hs : s.IsBoundary 3 := by decide
  have h : (group .bracket).closingAt? s 3 = .ok (some 12) := by
    simp only [s]
    cbv
  exact ⟨hs, h, ((closingAt?_eq_iff hs).1 12).mp h⟩

end Enclosure

end LatexTokens
