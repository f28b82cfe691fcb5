import LatexTokens.Proofs.Offset.Closing

/-!
# Text, comments and parameter references by offsets

Each reader finds the offset behind its token and cuts the token out of the buffer. It stays in
the buffer and gives what the reader of texts gives.
-/

set_option autoImplicit false

namespace LatexTokens

namespace Checked

/-- The offset from which on a text of one class is not continued. -/
def runEnd (s : Text) (p : Nat) (inRun : Char → Bool) : Option Nat := do
  let rest ← sliceFrom s p
  match indexOf (!inRun ·) rest with
  | none => some s.size
  | some i => sum p i

/-- Where in a text a run of text ends, if it does, when so many brackets of its own are open and
so many bytes of it are passed. -/
def runStop (math : Bool) (depth i : Nat) : Text → Option (Option Nat)
  | [] => some none
  | c :: t => do
    let next ← sum i c.utf8Size
    if math && c = '[' then runStop math depth next t
    else if math && c = ']' then
      if 0 < i then some (some i) else runStop math depth next t
    else if c = '[' && (i = 0 || 0 < depth) then runStop math (← sum depth 1) next t
    else if c = ']' && 0 < depth then runStop math (← difference depth 1) next t
    else if c = '[' || c = ']' || isSignificant c then some (some i)
    else runStop math depth next t

def content (math : Bool) (s : Text) (p : Nat) : Option Token := do
  let rest ← sliceFrom s p
  let stop ← match ← runStop math 0 0 rest with
    | none => some s.size
    | some i => sum p i
  let literal ← slice s p stop
  some (.ofText literal)

def withoutFinal (c : Char) (t : Text) : Text := if t.getLast? = some c then t.dropLast else t

def comment (s : Text) (p : Nat) : Option Token := do
  let stop ← lineEnd s p
  let start ← sum p 1
  let body ← slice s start stop
  let literal ← slice s p stop
  some (.comment (withoutFinal '\r' (withoutFinal '\n' body)).asWritten literal)

def placeholder (s : Text) (p : Nat) : Checked Token := do
  let start ← sum p 1
  let stop ← runEnd s start Char.isDigit
  if stop = start then fail (.point p .emptyPlaceholder)
  else
    let digits ← slice s start stop
    if Lexing.decimal digits < wordSize then
      let literal ← slice s p stop
      pure (.placeholder (Lexing.decimal digits) literal)
    else fail ⟨⟨p, stop⟩, .placeholderTooLarge⟩

variable {u t : Text}

theorem runEnd_append (inRun : Char → Bool) (hs : (u ++ t).size < wordSize) :
    runEnd (u ++ t) u.size inRun = some (u ++ t.takeWhile inRun).size := by
  have htake : t.takeWhile (fun c => !!inRun c) = t.takeWhile inRun := by simp
  have hle := Text.size_append (t.takeWhile inRun) (t.dropWhile inRun)
  rw [List.takeWhile_append_dropWhile] at hle
  rw [Text.size_append] at hs
  simp only [runEnd, sliceFrom_append, Option.bind_eq_bind, Option.bind, indexOf, htake]
  by_cases h : t.any (!inRun ·) = true
  · rw [if_pos h, Text.size_append u (t.takeWhile inRun)]
    exact sum_eq (by omega)
  · have hall : t.takeWhile inRun = t := by
      rw [List.takeWhile_eq_self_iff]
      simpa using h
    rw [if_neg h, hall]

theorem plainRun_prefix (depth : Nat) (t : Text) : Lexing.plainRun depth t <+: t := by
  fun_induction Lexing.plainRun depth t with
  | case1 | case2 | case4 | case6 => exact List.nil_prefix
  | case3 _ _ ih | case5 _ _ _ ih | case7 _ _ _ _ _ _ ih =>
    rw [List.cons_prefix_cons]
    exact ⟨rfl, ih⟩

/-- The rest of a run of text of which so many brackets are open. -/
def restOfRun (math : Bool) (depth : Nat) (t : Text) : Text :=
  if math then Lexing.mathRun t else Lexing.plainRun depth t

theorem exists_restOfRun_append (math : Bool) (depth : Nat) (t : Text) :
    ∃ rest, t = restOfRun math depth t ++ rest := by
  have hp : restOfRun math depth t <+: t := by
    cases math with
    | false => exact plainRun_prefix depth t
    | true => exact List.takeWhile_prefix _
  obtain ⟨rest, h⟩ := hp
  exact ⟨rest, h.symm⟩

/-- Behind its first character a run ends where its rest does. -/
theorem exists_runStop (math : Bool) {depth i : Nat} (hi : 0 < i) (hd : depth ≤ i)
    (hs : i + t.size < wordSize) : ∃ r, runStop math depth i t = some r ∧
      r.getD (i + t.size) = i + (restOfRun math depth t).size := by
  induction t generalizing depth i with
  | nil => exact ⟨none, rfl, by cases math <;> rfl⟩
  | cons c t ih =>
    have hpos := c.utf8Size_pos
    rw [Text.size_cons] at hs ⊢
    have hsum : sum i c.utf8Size = some (i + c.utf8Size) := sum_eq (by omega)
    -- Each branch passes over the character or ends the run in front of it.
    have goOn {d : Nat} (hd : d ≤ i + c.utf8Size)
        (hrun : restOfRun math depth (c :: t) = c :: restOfRun math d t) :
        ∃ r, runStop math d (i + c.utf8Size) t = some r ∧
          r.getD (i + (c.utf8Size + Text.size t)) =
            i + (restOfRun math depth (c :: t)).size := by
      obtain ⟨r, hr, hget⟩ := ih (by omega) hd (by omega)
      refine ⟨r, hr, ?_⟩
      rw [hrun, Text.size_cons, ← Nat.add_assoc, ← Nat.add_assoc]
      exact hget
    have halt (hrun : restOfRun math depth (c :: t) = []) : ∃ r, some (some i) = some r ∧
        r.getD (i + (c.utf8Size + Text.size t)) =
          i + (restOfRun math depth (c :: t)).size := by
      refine ⟨some i, rfl, ?_⟩
      rw [hrun]
      rfl
    have hi' : i ≠ 0 := Nat.ne_of_gt hi
    simp only [runStop, hsum, Option.bind_eq_bind, Option.bind]
    cases math with
    | true =>
      by_cases ho : c = '['
      · subst ho
        exact goOn (Nat.le_add_right_of_le hd) rfl
      by_cases hc : c = ']'
      · subst hc
        simpa [hi] using halt rfl
      by_cases hsig : isSignificant c = true
      · simpa [ho, hc, hsig] using halt (by simp [restOfRun, Lexing.mathRun, hsig])
      · simpa [ho, hc, hsig] using goOn (Nat.le_add_right_of_le hd)
          (by simp [restOfRun, Lexing.mathRun, hc, hsig])
    | false =>
      by_cases ho : c = '['
      · subst ho
        cases depth with
        | zero => simpa [hi'] using halt rfl
        | succ depth =>
          have hdepth : sum (depth + 1) 1 = some (depth + 2) := sum_eq (by omega)
          simpa [hdepth] using goOn (d := depth + 2) (by omega) rfl
      by_cases hc : c = ']'
      · subst hc
        cases depth with
        | zero => simpa using halt rfl
        | succ depth =>
          have hdepth : difference (depth + 1) 1 = some depth := difference_eq (by omega)
          simpa [hdepth] using goOn (d := depth) (by omega) rfl
      by_cases hsig : isSignificant c = true
      · simpa [ho, hc, hsig] using halt (by simp [restOfRun, Lexing.plainRun, ho, hc, hsig])
      · simpa [ho, hc, hsig] using goOn (Nat.le_add_right_of_le hd)
          (by simp [restOfRun, Lexing.plainRun, ho, hc, hsig])

/-- The number of brackets that are open behind the first character of a run. -/
def depthBehind (math : Bool) (c : Char) : Nat := if !math && c = '[' then 1 else 0

theorem runStop_cons {math : Bool} {c : Char} (h : isSignificant c = false)
    (hc : c = ']' → math = true) (hs : c.utf8Size < wordSize) (t : Text) :
    runStop math 0 0 (c :: t) = runStop math (depthBehind math c) c.utf8Size t := by
  have hsum : sum 0 c.utf8Size = some c.utf8Size := by
    rw [sum_eq (by omega), Nat.zero_add]
  have hone : sum 0 1 = some 1 := sum_eq (by decide)
  simp only [runStop, hsum, Option.bind_eq_bind, Option.bind]
  cases math with
  | true =>
    by_cases hb : c = ']'
    · subst hb
      rfl
    · by_cases ho : c = '[' <;> simp [ho, hb, h, depthBehind]
  | false =>
    have hb : c ≠ ']' := fun hb => Bool.false_ne_true (hc hb)
    by_cases ho : c = '['
    · subst ho
      simp [hone, depthBehind]
    · simp [ho, hb, h, depthBehind]

theorem content_append {math : Bool} {c : Char} (h : isSignificant c = false)
    (hc : c = ']' → math = true) (hs : (u ++ c :: t).size < wordSize) :
    content math (u ++ c :: t) u.size = some (Lexing.content math c t) := by
  have hsize : (u ++ c :: t).size = u.size + (c.utf8Size + t.size) := Text.size_append u (c :: t)
  have hpos := c.utf8Size_pos
  have hdepth : depthBehind math c ≤ c.utf8Size := by
    rw [depthBehind]
    split <;> omega
  obtain ⟨r, hr, hget⟩ := exists_runStop math hpos hdepth (t := t) (by omega)
  obtain ⟨rest, ht⟩ := exists_restOfRun_append math (depthBehind math c) t
  have hcontent : Lexing.content math c t =
      .ofText (c :: restOfRun math (depthBehind math c) t) := by
    cases math <;> simp [Lexing.content, restOfRun, depthBehind]
  generalize restOfRun math (depthBehind math c) t = run at hget ht hcontent
  subst ht
  have hslice : slice (u ++ c :: (run ++ rest)) u.size (u.size + (c.utf8Size + run.size)) =
      some (c :: run) := slice_append u (c :: run) rest
  simp only [content, sliceFrom_append, Option.bind_eq_bind, Option.bind,
    runStop_cons h hc (by omega), hr, hcontent]
  cases r with
  | none =>
    rw [Option.getD_none] at hget
    simp only
    rw [hsize, hget, hslice]
  | some i =>
    rw [Option.getD_some] at hget
    subst hget
    rw [Text.size_append run] at hsize
    simp only
    rw [sum_eq (by omega)]
    simp only
    rw [hslice]

theorem withoutFinal_newline {body stop : Text} (hbody : '\n' ∉ body)
    (hstop : stop = ['\n'] ∨ stop = []) : withoutFinal '\n' (body ++ stop) = body := by
  rcases hstop with rfl | rfl
  · rw [withoutFinal, if_pos (by simp), List.dropLast_concat]
  · rw [List.append_nil, withoutFinal, if_neg]
    exact fun h => hbody (List.mem_of_getLast? h)

theorem comment_append (hs : (u ++ '%' :: t).size < wordSize) :
    comment (u ++ '%' :: t) u.size = some (Lexing.comment t) := by
  obtain ⟨body, stop, rest, rfl, hbody, hstop, hcomment⟩ := Lexing.exists_comment_eq t
  have hbody' : '\n' ∉ '%' :: body := List.not_mem_cons_of_ne_of_not_mem (by decide) hbody
  have hline : lineEnd (u ++ '%' :: (body ++ (stop ++ rest))) u.size =
      some (u ++ '%' :: (body ++ stop)).size := by
    rcases hstop with rfl | ⟨rfl, rfl⟩
    · exact lineEnd_append_newline hbody' hs
    · simpa using lineEnd_append hbody' u
  have hstart : sum u.size 1 = some (u ++ ['%']).size := sum_size (x := ['%']) hs
  have hinner : slice (u ++ '%' :: (body ++ (stop ++ rest))) (u ++ ['%']).size
      (u ++ '%' :: (body ++ stop)).size = some (body ++ stop) :=
    slice_eq (u := u ++ ['%']) (v := rest) (by simp) rfl (by simp [Nat.add_assoc])
  have hliteral : slice (u ++ '%' :: (body ++ (stop ++ rest))) u.size
      (u ++ '%' :: (body ++ stop)).size = some ('%' :: (body ++ stop)) :=
    slice_eq (u := u) (v := rest) (by simp) rfl (by simp)
  simp only [comment, hline, hstart, hinner, hliteral, Option.bind_eq_bind, Option.bind]
  rw [hcomment, withoutFinal_newline hbody (hstop.imp_right And.left)]
  rfl

/-- A fault of reading that is seen from the buffer is in range there. -/
theorem fail_of_fails {α : Type} {nested : RegionLexer} (hn : Lexing.PlacesFaults nested)
    {math : Bool} {f : Fault} (h : Lexing.Fails nested math t f) (hs : (u ++ t).size < wordSize) :
    (fail (f.shift u.size) : Checked α) = throw (f.shift u.size) :=
  fail_of_isPlacedIn ((h.isPlacedIn hn).shift u) hs

/-- A fault at the start of a text that names no places is given at the offset of the text. -/
theorem fail_point {α : Type} {p : Nat} {cause : Cause} (hcause : cause.shift p = cause)
    (h : (fail (Fault.shift p (.point 0 cause)) : Checked α) =
      throw (Fault.shift p (.point 0 cause))) :
    (fail (.point p cause) : Checked α) = placed p (.error (.point 0 cause)) := by
  rw [placed_error, ← h, Fault.shift_point, Nat.zero_add, hcause]

theorem placeholder_append (hs : (u ++ '#' :: t).size < wordSize) :
    placeholder (u ++ '#' :: t) u.size = placed u.size (Lexing.placeholder t) := by
  have hstart : sum u.size 1 = some (u ++ ['#']).size := sum_size (x := ['#']) hs
  have hstop := runEnd_append (u := u ++ ['#']) (t := t) Char.isDigit (by rwa [List.append_assoc])
  rw [List.append_assoc u ['#'] t] at hstop
  obtain ⟨rest, ht⟩ := List.takeWhile_prefix (l := t) Char.isDigit
  have hsize : (u ++ ['#'] ++ t.takeWhile Char.isDigit).size =
      (u ++ ['#']).size + Text.size (t.takeWhile Char.isDigit) := Text.size_append _ _
  have hdigits : slice (u ++ '#' :: t) (u ++ ['#']).size
      (u ++ ['#'] ++ t.takeWhile Char.isDigit).size = some (t.takeWhile Char.isDigit) :=
    slice_eq (u := u ++ ['#']) (v := rest) (by simpa using ht.symm) rfl hsize
  have hliteral : slice (u ++ '#' :: t) u.size (u ++ ['#'] ++ t.takeWhile Char.isDigit).size =
      some ('#' :: t.takeWhile Char.isDigit) :=
    slice_eq (u := u) (v := rest) (by simpa using ht.symm) rfl (by simp)
  have hfail {f : Fault} (h : Lexing.placeholder t = .error f) :
      (fail (f.shift u.size) : Checked Token) = throw (f.shift u.size) := by
    have hfails : Lexing.Fails (lexRegion 0) false ('#' :: t) f := Lexing.fails_of_placeholder h
    exact fail_of_fails (Lexing.placesFaults_lexRegion 0) hfails hs
  rw [placeholder, hstart, liftM_some_bind]
  change (liftM (runEnd (u ++ (['#'] ++ t)) _ _) >>= _) = _
  rw [hstop, liftM_some_bind]
  rw [Lexing.placeholder] at hfail ⊢
  by_cases hempty : (t.takeWhile Char.isDigit).isEmpty = true
  · have heq : (u ++ ['#'] ++ t.takeWhile Char.isDigit).size = (u ++ ['#']).size := by
      rw [List.isEmpty_iff.mp hempty, List.append_nil]
    simp only [if_pos hempty] at hfail ⊢
    rw [if_pos heq]
    exact fail_point rfl (hfail rfl)
  · have hne : ¬ (u ++ ['#'] ++ t.takeWhile Char.isDigit).size = (u ++ ['#']).size := by
      have hpos := Text.size_pos_of_ne_nil fun h => hempty (List.isEmpty_iff.mpr h)
      omega
    simp only [if_neg hempty] at hfail ⊢
    rw [if_neg hne, hdigits, liftM_some_bind]
    by_cases hfits : Lexing.decimal (t.takeWhile Char.isDigit) < wordSize
    · rw [if_pos hfits, if_pos hfits, hliteral]
      rfl
    · rw [if_neg hfits] at hfail ⊢
      have hshift : Fault.shift u.size
          ⟨⟨0, 1 + Text.size (t.takeWhile Char.isDigit)⟩, .placeholderTooLarge⟩ =
            ⟨⟨u.size, (u ++ ['#'] ++ t.takeWhile Char.isDigit).size⟩, .placeholderTooLarge⟩ := by
        rw [Fault.shift, Span.shift, Nat.zero_add, hsize, Text.size_append, Nat.add_comm,
          ← Nat.add_assoc]
        rfl
      rw [if_neg hfits, placed_error, ← hfail rfl, hshift]

end Checked

end LatexTokens
