import LatexTokens.Proofs.Offset.Cut

/-!
# Finding a closing by offsets

The search for the closing of a region keeps an offset into the buffer and a stack of open groups
with their offsets, and jumps over comments. `Checked.closing_append` says that it stays in the
buffer and finds what `Enclosure.split` finds.
-/

set_option autoImplicit false

namespace LatexTokens

theorem Fault.shift_point (p k : Nat) (c : Cause) :
    (Fault.point p c).shift k = .point (p + k) (c.shift k) := by
  rw [Fault.shift, point, point, Span.shift, Nat.add_right_comm]

/-! ## Where a scan starts -/

namespace Scan

/-- The scan as seen from a text in which its own text starts that much later. -/
def shift (k : Nat) (s : Scan) : Scan :=
  { s with opened := s.opened.map fun e => (e.1, e.2 + k) }

variable {n : Nesting} {closing : Text} {s : Scan}

theorem pop_shift (k : Nat) (d : Delimiter) (p : Nat) :
    (s.shift k).pop d (p + k) = ((s.pop d p).map (shift k)).mapError (Fault.shift k) := by
  obtain ⟨_ | ⟨⟨e, q⟩, opened⟩, commented⟩ := s
  · simp only [shift, pop, List.map_nil, Except.map, Except.mapError, Fault.shift_point]
    rfl
  · by_cases he : e = d
    · simp only [shift, pop, List.map_cons, if_pos he, Except.map, Except.mapError]
    · simp only [shift, pop, List.map_cons, if_neg he, Except.map, Except.mapError,
        Fault.shift_point]
      rfl

theorem bracketsNest_shift (k : Nat) : (s.shift k).bracketsNest n = s.bracketsNest n := by
  obtain ⟨_ | ⟨⟨_ | _, q⟩, opened⟩, commented⟩ := s <;> cases n <;> rfl

theorem isIdle_shift (k : Nat) : (s.shift k).isIdle = s.isIdle := by
  obtain ⟨_ | ⟨e, opened⟩, commented⟩ := s <;> rfl

theorem step_shift (k p : Nat) (c : Char) :
    (s.shift k).step n (p + k) c = ((s.step n p c).map (shift k)).mapError (Fault.shift k) := by
  have hcommented : (s.shift k).commented = s.commented := rfl
  simp only [step, bracketsNest_shift, pop_shift, hcommented]
  split_ifs <;> rfl

/-- Moving the text moves what is found in it. -/
theorem find_shift (k p : Nat) (t : Text) :
    (s.shift k).find n closing (p + k) t = (s.find n closing p t).mapError (Fault.shift k) := by
  induction t generalizing s p with
  | nil =>
    obtain ⟨_ | ⟨⟨d, q⟩, opened⟩, commented⟩ := s <;> rfl
  | cons c t ih =>
    by_cases hstop : (s.isIdle && closing.isPrefixOf (c :: t)) = true
    · have hstop' := hstop
      rw [← isIdle_shift k] at hstop'
      rw [find, find, if_pos hstop, if_pos hstop']
      rfl
    · have hstop' := hstop
      rw [← isIdle_shift k] at hstop'
      have hstep := step_shift (n := n) (s := s) k p c
      cases hs : s.step n p c with
      | error f =>
        rw [hs] at hstep
        rw [find, find, if_neg hstop, if_neg hstop', hs, hstep]
        rfl
      | ok s' =>
        rw [hs] at hstep
        rw [find_of_step hstop hs, find_of_step hstop' hstep, Nat.add_right_comm, ih]
        rcases s'.find n closing (p + c.utf8Size) t with f | _ | r <;> rfl

theorem passing_nil (r : Except Fault (Option (Text × Text))) : passing [] r = r := by
  rcases r with f | _ | r <;> rfl

/-- Inside a comment nothing is found up to the end of the line. -/
theorem find_append_in_comment (hs : s.commented = true) {body : Text} (hbody : '\n' ∉ body)
    (p : Nat) (v : Text) : s.find n closing p (body ++ v) =
      passing body (s.find n closing (p + body.size) v) := by
  have hbusy (t : Text) : ¬ (s.isIdle && closing.isPrefixOf t) = true := by
    simp [isIdle, hs]
  induction body generalizing p with
  | nil => exact (passing_nil _).symm
  | cons a body ih =>
    rw [List.mem_cons, not_or] at hbody
    rw [List.cons_append, find_of_step (hbusy _) (step_in_comment hs (Ne.symm hbody.1)),
      ih hbody.2, passing_passing, Text.size_cons, Nat.add_assoc]
    rfl

variable {opened : List (Delimiter × Nat)}

theorem isIdle_uncommented : isIdle ⟨opened, false⟩ = opened.isEmpty := Bool.and_true _

theorem find_behind_line {body : Text} (hbody : '\n' ∉ body) (p : Nat) (v : Text) :
    find n closing ⟨opened, true⟩ p (body ++ '\n' :: v) = passing (body ++ ['\n'])
      (find n closing ⟨opened, false⟩ (p + (body ++ ['\n']).size) v) := by
  have hstop : ¬ (Scan.isIdle ⟨opened, true⟩ && closing.isPrefixOf ('\n' :: v)) = true := by
    simp [isIdle]
  rw [find_append_in_comment rfl hbody, find_of_step hstop (step_of_commented rfl '\n'),
    passing_passing, Text.size_append, ← Nat.add_assoc]
  rfl

theorem find_behind_lastLine {body : Text} (hbody : '\n' ∉ body) (p : Nat) :
    find n closing ⟨opened, true⟩ p body =
      passing body (find n closing ⟨opened, false⟩ (p + body.size) []) := by
  have hfind : find n closing ⟨opened, true⟩ p (body ++ []) = _ :=
    find_append_in_comment rfl hbody p []
  rw [List.append_nil] at hfind
  rw [hfind]
  cases opened <;> rfl

end Scan

namespace Checked

/-- The offset behind the line of an offset. -/
def lineEnd (s : Text) (p : Nat) : Option Nat := do
  let rest ← sliceFrom s p
  match indexOf (· = '\n') rest with
  | none => some s.size
  | some i => sum (← sum p i) 1

/-- The offset from which a search goes on behind a character at an offset: behind the line if the
character starts a comment. -/
def behindStep (scan : Scan) (c : Char) (s : Text) (i : Nat) : Option Nat :=
  if scan.commented then lineEnd s i else sum i c.utf8Size

/-- Searches for the closing of a region from an offset on, at which groups are open. -/
def find (e : Enclosure) (s : Text) (opened : List (Delimiter × Nat)) (i : Nat) :
    Checked (Option Nat) := do
  match ← sliceFrom s i with
  | [] =>
    match opened with
    | [] => pure none
    | (d, start) :: _ => fail ⟨⟨start, s.size⟩, .neverTerminated d.opening⟩
  | c :: rest =>
    if opened.isEmpty && e.closing.isPrefixOf (c :: rest) then pure (some i)
    else
      match Scan.step e.nesting i c ⟨opened, false⟩ with
      | .error f => fail f
      | .ok scan =>
        let next ← behindStep scan c s i
        if s.size - next < s.size - i then find e s scan.opened next else ExceptT.mk none
termination_by s.size - i

/-- The offset of the closing of the region that is opened at an offset. -/
def closing (e : Enclosure) (s : Text) (p : Nat) : Checked Nat := do
  let start ← sum p e.opening.size
  match ← find e s [] start with
  | some i => pure i
  | none => fail ⟨⟨p, s.size⟩, e.unclosed⟩

/-- The offset of the closing of the group that is opened at an offset. -/
def groupEnd (s : Text) (p : Nat) : Checked Nat := do
  let c ← charAt s p
  closing (.group (if c = some '[' then .bracket else .brace)) s p

/-! ## The closing that is found -/

variable {u v body : Text}

theorem indexOf_of_not_mem {t : Text} {c : Char} (h : c ∉ t) : indexOf (· = c) t = none := by
  rw [indexOf, if_neg]
  rw [List.any_eq_true]
  rintro ⟨x, hx, hc⟩
  exact h (of_decide_eq_true hc ▸ hx)

theorem indexOf_append_cons {t : Text} {c : Char} (h : c ∉ t) (v : Text) :
    indexOf (· = c) (t ++ c :: v) = some t.size := by
  have htake : (t ++ c :: v).takeWhile (fun a => !decide (a = c)) = t := by
    rw [List.takeWhile_append_of_pos]
    · simp
    · intro a ha
      simpa using ne_of_mem_of_not_mem ha h
  rw [indexOf, if_pos (by simp), htake]

theorem lineEnd_append (h : '\n' ∉ body) (u : Text) : lineEnd (u ++ body) u.size =
    some (u ++ body).size := by
  simp only [lineEnd, sliceFrom_append, indexOf_of_not_mem h, Option.bind_eq_bind, Option.bind]

theorem lineEnd_append_newline (h : '\n' ∉ body)
    (hs : (u ++ (body ++ '\n' :: v)).size < wordSize) :
    lineEnd (u ++ (body ++ '\n' :: v)) u.size = some (u ++ (body ++ ['\n'])).size := by
  have hsize : (u ++ (body ++ ['\n'])).size = u.size + body.size + 1 := by
    rw [Text.size_append, Text.size_append, ← Nat.add_assoc]
    rfl
  have hle : (u ++ (body ++ ['\n'])).size ≤ (u ++ (body ++ '\n' :: v)).size := by
    simp only [Text.size_append, Text.size_cons, Text.size_nil]
    omega
  simp only [lineEnd, sliceFrom_append, indexOf_append_cons h, Option.bind_eq_bind, Option.bind]
  rw [sum_eq (by omega)]
  simp only
  rw [sum_eq (by omega), hsize]

/-- A text goes on with the rest of a line, if there are more lines with its end. The scan passes
over it in a comment. -/
theorem exists_line (t : Text) : ∃ line v : Text, t = line ++ v ∧
    (∀ (u : Text) {c : Char}, c ≠ '\n' → (u ++ c :: t).size < wordSize →
      lineEnd (u ++ c :: t) u.size = some (u ++ c :: line).size) ∧
    ∀ {n : Nesting} {closing : Text} {opened : List (Delimiter × Nat)} {p : Nat},
      Scan.find n closing ⟨opened, true⟩ p t =
        Scan.passing line (Scan.find n closing ⟨opened, false⟩ (p + line.size) v) := by
  by_cases ht : '\n' ∈ t
  · obtain ⟨body, v, rfl, hbody⟩ := List.eq_append_cons_of_mem ht
    refine ⟨body ++ ['\n'], v, by simp, fun u c hc hs => ?_, Scan.find_behind_line hbody _ _⟩
    exact lineEnd_append_newline (List.not_mem_cons_of_ne_of_not_mem (Ne.symm hc) hbody) hs
  · refine ⟨t, [], by simp, fun u c hc _ => ?_, Scan.find_behind_lastLine ht _⟩
    exact lineEnd_append (List.not_mem_cons_of_ne_of_not_mem (Ne.symm hc) ht) u

theorem size_sub_lt {s u x v : Text} (hs : s = u ++ (x ++ v)) (hx : x ≠ []) :
    s.size - (u ++ x).size < s.size - u.size := by
  have hpos := Text.size_pos_of_ne_nil hx
  rw [hs, Text.size_append, Text.size_append, Text.size_append]
  omega

/-- What a scan finds, by the offset of the closing. -/
def foundAt (i : Nat) (r : Except Fault (Option (Text × Text))) : Checked (Option Nat) :=
  ExceptT.mk (some (r.map (Option.map fun parts => i + parts.1.size)))

theorem foundAt_passing (i : Nat) (u : Text) (r : Except Fault (Option (Text × Text))) :
    foundAt i (Scan.passing u r) = foundAt (i + u.size) r := by
  rcases r with f | _ | parts
  · rfl
  · rfl
  · simp only [foundAt, Scan.passing, Except.map, Option.map, Text.size_append, Nat.add_assoc]

section
variable (e : Enclosure) {opened : List (Delimiter × Nat)}

/-- A group that is open at the end of the buffer is in it. -/
theorem find_nil (hs : u.size < wordSize) (ho : Scan.StartIn u ⟨opened, false⟩) :
    find e u opened u.size =
      foundAt u.size (Scan.find e.nesting e.closing ⟨opened, false⟩ u.size []) := by
  have hrest : sliceFrom u u.size = some [] := by
    simpa using sliceFrom_append u []
  rw [find.eq_def, hrest, liftM_some_bind]
  cases opened with
  | nil => rfl
  | cons q opened =>
    have hf : Scan.find e.nesting e.closing ⟨q :: opened, false⟩ u.size [] =
        .error ⟨⟨q.2, u.size⟩, .neverTerminated q.1.opening⟩ := rfl
    have hp := ho.isPlacedIn_of_find hf
    rw [List.append_nil] at hp
    exact fail_of_isPlacedIn hp hs

/-- The search goes on behind the part of the buffer that a step passes over. -/
theorem find_of_passed {c : Char} {t x v : Text} {scan : Scan} (ht : c :: t = x ++ v) (hx : x ≠ [])
    (hstop : ¬ (Scan.isIdle ⟨opened, false⟩ && e.closing.isPrefixOf (c :: t)) = true)
    (hstep : Scan.step e.nesting u.size c ⟨opened, false⟩ = .ok scan)
    (hnext : behindStep scan c (u ++ c :: t) u.size = some (u ++ x).size) :
    find e (u ++ c :: t) opened u.size = find e (u ++ c :: t) scan.opened (u ++ x).size := by
  have hlt : (u ++ c :: t).size - (u ++ x).size < (u ++ c :: t).size - u.size :=
    size_sub_lt (by rw [ht]) hx
  rw [Scan.isIdle_uncommented] at hstop
  rw [find.eq_def, sliceFrom_append, liftM_some_bind]
  simp only [if_neg hstop, hstep]
  rw [hnext, liftM_some_bind, if_pos hlt]

/-- The search stays in the buffer and finds what the scan of the text finds. -/
theorem find_append (u t : Text) (hs : (u ++ t).size < wordSize)
    (ho : Scan.StartIn u ⟨opened, false⟩) : find e (u ++ t) opened u.size =
      foundAt u.size (Scan.find e.nesting e.closing ⟨opened, false⟩ u.size t) := by
  -- A comment is passed over in one step, so that the induction is on the length of the text.
  induction hn : t.length using Nat.strong_induction_on generalizing u t opened with
  | h n ih =>
  subst hn
  cases t with
  | nil =>
    rw [List.append_nil] at hs ⊢
    exact find_nil e hs ho
  | cons c t =>
    by_cases hstop : (Scan.isIdle ⟨opened, false⟩ && e.closing.isPrefixOf (c :: t)) = true
    · rw [Scan.find, if_pos hstop]
      rw [Scan.isIdle_uncommented] at hstop
      rw [find.eq_def, sliceFrom_append, liftM_some_bind]
      simp only [if_pos hstop]
      rfl
    cases hstep : Scan.step e.nesting u.size c ⟨opened, false⟩ with
    | error f =>
      rw [Scan.find, if_neg hstop, hstep]
      rw [Scan.isIdle_uncommented] at hstop
      rw [find.eq_def, sliceFrom_append, liftM_some_bind]
      simp only [if_neg hstop, hstep]
      exact fail_of_isPlacedIn (ho.isPlacedIn_of_step hstep t) hs
    | ok scan =>
      have hpasses := Scan.step_eq_ok_iff.mp hstep
      rw [Scan.find_of_step hstop hstep, foundAt_passing]
      by_cases hc : scan.commented = true
      · obtain ⟨rfl, rfl⟩ : c = '%' ∧ scan = ⟨opened, true⟩ := by
          cases hpasses with
          | startComment => exact ⟨rfl, rfl⟩
          | inComment | endComment | opening | closing | ordinary => cases hc
        obtain ⟨line, v, rfl, hline, hfind⟩ := exists_line t
        have hsize : (u ++ '%' :: line).size = u.size + '%'.utf8Size + line.size := by
          rw [Text.size_append, Text.size_cons, Nat.add_assoc]
        have ih := ih v.length (by simp) (u ++ '%' :: line) v (by simpa using hs)
          (ho.append _) rfl
        have hpassed := find_of_passed e (x := '%' :: line) rfl (List.cons_ne_nil _ _) hstop hstep
          (hline u (by decide) hs)
        rw [List.append_assoc, hsize] at ih
        rw [hfind, foundAt_passing]
        exact hpassed.trans (hsize ▸ ih)
      · obtain ⟨opened', commented⟩ := scan
        cases Bool.eq_false_of_not_eq_true hc
        have hsize : (u ++ [c]).size = u.size + c.utf8Size := Text.size_append u [c]
        have hsum : sum u.size c.utf8Size = some (u ++ [c]).size := sum_size (x := [c]) hs
        have ih := ih t.length (Nat.lt_succ_self _) (u ++ [c]) t (by rwa [List.append_assoc])
          (ho.passes hpasses) rfl
        have hpassed := find_of_passed e (x := [c]) rfl (List.cons_ne_nil _ _) hstop hstep hsum
        rw [List.append_assoc, hsize] at ih
        exact hpassed.trans (hsize ▸ ih)

end

theorem shift_unclosed (e : Enclosure) (t u : Text) :
    Fault.shift u.size ⟨⟨0, e.opening.size + t.size⟩, e.unclosed⟩ =
      ⟨⟨u.size, (u ++ (e.opening ++ t)).size⟩, e.unclosed⟩ := by
  have hcause : e.unclosed.shift u.size = e.unclosed := by cases e <;> rfl
  rw [Fault.shift, hcause, Span.shift, Nat.zero_add, Text.size_append, Text.size_append,
    Nat.add_comm u.size]

/-- Where the region that is opened at an offset is closed. -/
theorem closing_append (e : Enclosure) (u t : Text) (hs : (u ++ (e.opening ++ t)).size < wordSize) :
    closing e (u ++ (e.opening ++ t)) u.size =
      placed u.size ((e.split t).map fun parts => u.size + e.opening.size + parts.1.size) := by
  have hsum : sum u.size e.opening.size = some (u ++ e.opening).size := by
    rw [Text.size_append, Text.size_append] at hs
    rw [sum_eq (by omega), Text.size_append]
  have hfind := find_append e (u ++ e.opening) t (by rwa [List.append_assoc])
    (Scan.startIn_empty _)
  have hshift : Scan.find e.nesting e.closing {} (u ++ e.opening).size t =
      (Scan.find e.nesting e.closing {} e.opening.size t).mapError (Fault.shift u.size) := by
    rw [Text.size_append, Nat.add_comm, ← Scan.find_shift]
    rfl
  rw [List.append_assoc, hshift] at hfind
  rw [closing, hsum, liftM_some_bind, hfind]
  cases hsplit : e.split t with
  | error f =>
    have hp := (Enclosure.isPlacedIn_of_split hsplit).shift u
    rw [Enclosure.split] at hsplit
    split at hsplit
    · next h =>
      cases hsplit
      rw [h]
      rfl
    · next h =>
      cases hsplit
      rw [shift_unclosed] at hp
      rw [h, Except.map, placed_error, shift_unclosed]
      exact fail_of_isPlacedIn hp hs
    · cases hsplit
  | ok parts =>
    rw [Enclosure.split] at hsplit
    split at hsplit
    · cases hsplit
    · cases hsplit
    · next h =>
      cases hsplit
      rw [h, Text.size_append]
      rfl

/-- The character that a group starts with says how it is closed. -/
theorem groupEnd_append (d : Delimiter) (u t : Text) (hs : (u ++ d.opening :: t).size < wordSize) :
    groupEnd (u ++ d.opening :: t) u.size = placed u.size
      (((Enclosure.group d).split t).map fun parts => u.size + 1 + parts.1.size) := by
  have hopening : (Enclosure.group d).opening.size = 1 := by cases d <;> rfl
  have hclosing := closing_append (.group d) u t hs
  rw [hopening] at hclosing
  rw [groupEnd, charAt_append, liftM_some_bind, List.head?_cons]
  cases d <;> exact hclosing

end Checked

end LatexTokens
