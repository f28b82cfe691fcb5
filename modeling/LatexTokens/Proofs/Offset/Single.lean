import LatexTokens.Proofs.Offset.Enclosed

/-!
# One token by offsets

On a buffer that is shorter than a word can count, reading a token at an offset leaves no range,
and the token or the fault is the one that `Lexing.read` gives, as seen from the buffer
(`Checked.lexToken_append`).
-/

set_option autoImplicit false

namespace LatexTokens

namespace Checked

section
variable {nested : RegionLexer} {math : Bool} {u t : Text}

theorem nameEnd_append (hs : (u ++ t).size < wordSize) :
    ∃ rest, t = Lexing.commandName t ++ rest ∧
      nameEnd (u ++ t) u.size = some (u ++ Lexing.commandName t).size := by
  obtain ⟨rest, ht⟩ : ∃ rest, t = t.takeWhile Char.isAlphanum ++ rest :=
    ⟨_, List.takeWhile_append_dropWhile.symm⟩
  have hletters := runEnd_append Char.isAlphanum hs
  have hnext : charAt (u ++ t) (u ++ t.takeWhile Char.isAlphanum).size = some rest.head? := by
    rw [← charAt_append, List.append_assoc, ← ht]
  have hname : Lexing.commandName t =
      t.takeWhile Char.isAlphanum ++ (rest.take 1).filter (· = '*') := by
    simp only [Lexing.commandName, Text.drop_length_of_eq_append ht]
  rw [nameEnd, hletters, hname]
  simp only [Option.bind_eq_bind, Option.bind, hnext]
  generalize t.takeWhile Char.isAlphanum = letters at ht hname hnext ⊢
  subst ht
  by_cases hstar : rest.head? = some '*'
  · obtain ⟨rest, rfl⟩ := List.head?_eq_some_iff.mp hstar
    refine ⟨rest, by simp, ?_⟩
    have hsum : sum (u ++ letters).size 1 = some (u ++ letters ++ ['*']).size :=
      sum_size (x := ['*']) (v := rest) (by simpa using hs)
    rw [if_pos hstar, hsum]
    simp
  · have hnone : (rest.take 1).filter (· = '*') = [] := by
      cases rest with
      | nil => rfl
      | cons c rest => simpa using hstar
    refine ⟨rest, by simp [hnone], ?_⟩
    rw [if_neg hstar, hnone, List.append_nil]

/-- A token that consists of a lead and a body is cut out behind the body. -/
theorem cut_behind_body {lead rest : Text} {body : Token}
    (hs : (u ++ (lead ++ (body.literal ++ rest))).size < wordSize) (make : Text → Token) :
    (do
      let stop ← sum (u ++ lead).size body.size
      let literal ← slice (u ++ (lead ++ (body.literal ++ rest))) u.size stop
      pure (make literal) : Checked Token) = pure (make (lead ++ body.literal)) := by
  have hstop : sum (u ++ lead).size body.size = some (u ++ lead ++ body.literal).size :=
    sum_size (v := rest) (by rwa [List.append_assoc])
  have hslice : slice (u ++ (lead ++ (body.literal ++ rest))) u.size
      (u ++ lead ++ body.literal).size = some (lead ++ body.literal) :=
    slice_eq (v := rest) (by simp) rfl (by simp)
  rw [hstop, liftM_some_bind, hslice, liftM_some_bind]

theorem size_two {c : Char} (hc : c.utf8Size = 1) (u : Text) :
    (u ++ ['\\', c]).size = 2 + u.size := by
  rw [Text.size_append, Text.size_cons, Text.size_cons, hc, Nat.add_comm]
  rfl

theorem sum_two {c : Char} (hc : c.utf8Size = 1) (hs : (u ++ '\\' :: c :: t).size < wordSize) :
    sum u.size 2 = some (u ++ ['\\', c]).size := by
  have htwo := size_two hc u
  have hsum : sum u.size (Text.size ['\\', c]) = _ := sum_size (v := t) hs
  rwa [show Text.size ['\\', c] = 2 from size_two hc []] at hsum

theorem slice_two (c : Char) (u t : Text) :
    slice (u ++ '\\' :: c :: t) u.size (u ++ ['\\', c]).size = some ['\\', c] :=
  slice_eq (v := t) (by simp) rfl (by simp)

theorem behindLetter_append (c : Char) (hs : (u ++ '\\' :: c :: t).size < wordSize) :
    behindLetter c (u ++ '\\' :: c :: t) u.size =
      some (if Lexing.isLetterAccent c then t.head? else none) := by
  by_cases hm : Lexing.isLetterAccent c = true
  · rw [behindLetter, if_pos hm, if_pos hm, sum_two (Lexing.isOrdinary_of_isLetterAccent hm).2 hs]
    simpa using charAt_append (u ++ ['\\', c]) t
  · rw [behindLetter, if_neg hm, if_neg hm]

theorem utf8Size_of_contains {l : List Char} (hl : ∀ c ∈ l, c.utf8Size = 1) {c : Char}
    (h : l.contains c = true) : c.utf8Size = 1 := hl c (List.contains_iff_mem.mp h)

theorem utf8Size_of_isSymbolAccent {c : Char} (h : Lexing.isSymbolAccent c) : c.utf8Size = 1 :=
  utf8Size_of_contains (by simp [Char.utf8Size]) h

theorem utf8Size_of_isControlSymbol {c : Char} (h : Lexing.isControlSymbol c) : c.utf8Size = 1 :=
  utf8Size_of_contains (by simp [Char.utf8Size]) h

theorem exists_literal_of_block {body : Token} (h : Lexing.block nested math t = .ok body) :
    ∃ rest, '{' :: t = body.literal ++ rest := by
  obtain ⟨inner, tokens, rest, rfl, rfl, -⟩ := Lexing.block_eq_ok_iff.mp h
  exact ⟨rest, (Enclosure.around_group_append .brace inner rest).symm⟩

theorem throw_shift_size_append {α : Type} (f : Fault) (u lead : Text) :
    (throw (f.shift (u ++ lead).size) : Checked α) = throw ((f.shift lead.size).shift u.size) := by
  rw [Fault.shift_shift, Text.size_append, Nat.add_comm]

/-- A construct with a lead is cut out when its unit is read. -/
theorem applyTo_append {construct : String} {lead : Text} (make : Token → Text → Token)
    (hs : (u ++ (lead ++ t)).size < wordSize) :
    (placed u.size (Lexing.applyTo lead construct id t (Lexing.unit nested math t)) >>= fun body =>
      do
      let stop ← sum (u ++ lead).size body.size
      let literal ← slice (u ++ (lead ++ t)) u.size stop
      pure (make body literal)) =
    placed u.size (Lexing.applyTo lead construct (fun body => make body (lead ++ body.literal)) t
      (Lexing.unit nested math t)) := by
  cases hu : Lexing.unit nested math t with
  | error f => rfl
  | ok unit =>
    cases unit with
    | none => rfl
    | some body =>
      obtain ⟨rest, rfl, -⟩ := Lexing.isUnit_of_unit hu
      exact cut_behind_body hs (make body)

theorem openBrackets_eq {opened : Nat} {t : Text} (hs : opened + t.size < wordSize) :
    openBrackets opened t = some (Lexing.openBrackets opened t) := by
  induction t generalizing opened with
  | nil => rfl
  | cons c t ih =>
    have hpos := c.utf8Size_pos
    rw [Text.size_cons] at hs
    rw [openBrackets, Lexing.openBrackets, List.foldl_cons, ← Lexing.openBrackets]
    split
    · rw [sum_eq (by omega)]
      exact ih (by omega)
    · split <;> exact ih (by omega)

end

section
variable {checked : Bool → Text → Checked (List Token)} {nested : RegionLexer} {math : Bool}
  (hn : Realizes checked nested)
include hn

/-! ## Commands and accents -/

theorem command_append {u t : Text} (hs : (u ++ '\\' :: t).size < wordSize) :
    command checked math (u ++ '\\' :: t) u.size =
      placed u.size (Lexing.command nested math t) := by
  have hstart : sum u.size 1 = some (u ++ ['\\']).size := sum_size (x := ['\\']) hs
  obtain ⟨rest, ht, hend⟩ := nameEnd_append (u := u ++ ['\\']) (t := t) (by simpa using hs)
  have hcommand : Lexing.command nested math t = ((Lexing.arguments nested math rest).mapError
      (Fault.shift (1 + (Lexing.commandName t).size))).map fun as =>
        .command (Lexing.commandName t) as
          ('\\' :: (Lexing.commandName t ++ as.flatMap Argument.literal)) := by
    have hdrop := Text.drop_length_of_eq_append ht
    cases hr : Lexing.arguments nested math rest <;>
      simp only [Lexing.command, ← Lexing.commandName.eq_def, hdrop, hr, Except.mapError,
        Except.map]
  rw [command, hstart, liftM_some_bind, hcommand]
  generalize Lexing.commandName t = name at ht hend ⊢
  subst ht
  have hend : nameEnd (u ++ '\\' :: (name ++ rest)) (u ++ ['\\']).size =
      some (u ++ '\\' :: name).size := by simpa using hend
  have hargs : arguments checked math (u ++ '\\' :: name ++ rest) (u ++ '\\' :: name).size = _ :=
    arguments_append hn (by simpa using hs)
  rw [List.append_assoc, List.cons_append] at hargs
  have hname : slice (u ++ '\\' :: (name ++ rest)) (u ++ ['\\']).size (u ++ '\\' :: name).size =
      some name :=
    slice_eq (u := u ++ ['\\']) (v := rest) (by simp) rfl (by simp [Nat.add_assoc])
  rw [hend, liftM_some_bind, hargs, hname]
  cases hr : Lexing.arguments nested math rest with
  | error f =>
    have hsize : 1 + name.size + u.size = (u ++ '\\' :: name).size := by
      rw [Text.size_append, Nat.add_comm]
      rfl
    simp only [Except.map, Except.mapError, placed_error, throw_bind]
    rw [Fault.shift_shift, hsize]
  | ok as =>
    obtain ⟨rest', rfl, _⟩ := Lexing.arguments_eq_ok_iff.mp hr
    have hliteral : slice (u ++ '\\' :: (name ++ (as.flatMap Argument.literal ++ rest'))) u.size
        (u ++ '\\' :: name ++ as.flatMap Argument.literal).size =
        some ('\\' :: (name ++ as.flatMap Argument.literal)) :=
      slice_eq (v := rest') (by simp) rfl (by simp)
    simp only [Except.map, Except.mapError, placed_ok, bind_of_pure, liftM_some_bind]
    rw [hliteral]
    rfl

theorem letterAccent_append {mark : Char} {u t : Text} (hm : Lexing.isLetterAccent mark)
    (hs : (u ++ '\\' :: mark :: '{' :: t).size < wordSize) :
    letterAccent checked math mark (u ++ '\\' :: mark :: '{' :: t) u.size =
      placed u.size (Lexing.letterAccent nested math mark t) := by
  have hsize := (Lexing.isOrdinary_of_isLetterAccent hm).2
  have hblock : block checked math (u ++ ['\\', mark] ++ '{' :: t) (u ++ ['\\', mark]).size = _ :=
    block_append hn (by simpa using hs)
  rw [List.append_assoc] at hblock
  rw [letterAccent, sum_two hsize hs, liftM_some_bind, Lexing.letterAccent]
  change (block checked math (u ++ (['\\', mark] ++ '{' :: t)) _ >>= _) = _
  rw [hblock]
  cases hb : Lexing.block nested math t with
  | error f =>
    simp only [placed_error, throw_bind]
    rw [Fault.shift_shift, size_two hsize]
  | ok body =>
    obtain ⟨rest, ht⟩ := exists_literal_of_block hb
    rw [ht] at hs ⊢
    exact cut_behind_body (u := u) hs (.accent .letter mark body)

theorem control_append (c : Char) {u t : Text} (hs : (u ++ '\\' :: c :: t).size < wordSize) :
    control checked math c (u ++ '\\' :: c :: t) u.size =
      placed u.size (Lexing.control nested math c t) := by
  have hfail {f : Fault} (hf : Lexing.control nested math c t = .error f) :
      (fail (f.shift u.size) : Checked Token) = throw (f.shift u.size) :=
    fail_of_fails hn.placesFaults (Lexing.fails_of_control hf) hs
  rw [control]
  rw [Lexing.control] at hfail ⊢
  by_cases hsquare : c = '['
  · subst hsquare
    exact formula_append hn .square hs
  by_cases hparenthesis : c = '('
  · subst hparenthesis
    exact formula_append hn .parenthesis hs
  simp only [if_neg hsquare, if_neg hparenthesis] at hfail ⊢
  by_cases hcloser : (c = ']' || c = ')') = true
  · have hsize : c.utf8Size = 1 := by
      rcases Bool.or_eq_true_iff.mp hcloser with h | h <;>
        · rw [of_decide_eq_true h]
          rfl
    simp only [if_pos hcloser] at hfail ⊢
    rw [sum_two hsize hs, liftM_some_bind, slice_two, liftM_some_bind, placed_error, ← hfail rfl,
      Fault.shift, Span.shift, Nat.zero_add, size_two hsize]
    rfl
  simp only [if_neg hcloser] at hfail ⊢
  rw [behindLetter_append c hs, liftM_some_bind]
  by_cases ha : (Lexing.isLetterAccent c && t.head? = some '{') = true
  · obtain ⟨hm, hbrace⟩ := Bool.and_eq_true_iff.mp ha
    obtain ⟨t, rfl⟩ := List.head?_eq_some_iff.mp (of_decide_eq_true hbrace)
    rw [if_pos hm, if_pos List.head?_cons, if_pos ha]
    exact letterAccent_append hn hm hs
  have hno : ¬ (if Lexing.isLetterAccent c then t.head? else none) = some '{' := by
    intro h
    split at h
    · next hm => exact ha (by simp [hm, h])
    · cases h
  simp only [if_neg hno, if_neg ha] at hfail ⊢
  by_cases halpha : c.isAlphanum = true
  · rw [if_pos halpha, if_pos halpha]
    exact command_append hn hs
  simp only [if_neg halpha] at hfail ⊢
  by_cases hsymbol : Lexing.isControlSymbol c = true
  · have hsize := utf8Size_of_isControlSymbol hsymbol
    rw [if_pos hsymbol, if_pos hsymbol, sum_two hsize hs, liftM_some_bind, slice_two]
    rfl
  · simp only [if_neg hsymbol] at hfail ⊢
    exact fail_point rfl (hfail rfl)

/-! ## Units -/

theorem invalidUnit_append {construct : String} {u lead t : Text} (hlead : IsLead construct lead)
    (hs : (u ++ (lead ++ t)).size < wordSize) :
    invalidUnit construct (u ++ (lead ++ t)) u.size (u ++ lead).size =
      throw (Fault.shift u.size ⟨⟨0, lead.size + t.headSize⟩, .invalidUnit construct⟩) := by
  have hfails : Lexing.Fails nested false (lead ++ t) _ := .invalidUnit t hlead
  have hfail : (fail (Fault.shift u.size _) : Checked Token) = _ :=
    fail_of_fails hn.placesFaults hfails hs
  have hnext : charAt (u ++ (lead ++ t)) (u ++ lead).size = some t.head? := by
    rw [← charAt_append, List.append_assoc]
  have hsum : sum (u ++ lead).size (t.head?.elim 0 Char.utf8Size) =
      some (lead.size + t.headSize + u.size) := by
    have hhead : t.head?.elim 0 Char.utf8Size = Text.size (t.take 1) := by cases t <;> rfl
    have hheadSize : t.headSize = Text.size (t.take 1) := by cases t <;> rfl
    rw [hhead, hheadSize, sum_size (v := t.drop 1), Text.size_append, Text.size_append]
    · congr 1
      omega
    · rwa [List.take_append_drop, List.append_assoc]
  rw [invalidUnit, hnext, liftM_some_bind, hsum, liftM_some_bind, ← hfail, Fault.shift, Span.shift,
    Nat.zero_add]
  rfl

mutual

theorem unit_append {construct : String} {u lead t : Text}
    (hlead : IsLead construct lead) (hs : (u ++ (lead ++ t)).size < wordSize) :
    unit checked math construct (u ++ (lead ++ t)) u.size (u ++ lead).size =
      placed u.size (Lexing.applyTo lead construct id t (Lexing.unit nested math t)) := by
  have hnext : charAt (u ++ (lead ++ t)) (u ++ lead).size = some t.head? := by
    rw [← charAt_append, List.append_assoc]
  have hinvalid := invalidUnit_append hn hlead hs
  rw [unit, hnext, liftM_some_bind]
  cases t with
  | nil => exact hinvalid
  | cons c t =>
    have hs' : (u ++ lead ++ c :: t).size < wordSize := by rwa [List.append_assoc]
    simp only [List.head?_cons]
    rw [Lexing.unit]
    by_cases hbrace : c = '{'
    · subst hbrace
      have hblock : block checked math (u ++ lead ++ '{' :: t) (u ++ lead).size = _ :=
        block_append hn hs'
      rw [List.append_assoc] at hblock
      rw [if_pos rfl, if_pos rfl, hblock]
      cases Lexing.block nested math t with
      | error f => exact throw_shift_size_append f u lead
      | ok body => rfl
    by_cases hslash : c = '\\'
    · subst hslash
      have hback := backslash_append hs'
      rw [List.append_assoc] at hback
      rw [if_neg hbrace, if_neg hbrace, if_pos rfl, if_pos rfl, hback]
      cases Lexing.backslash nested math t with
      | error f => exact throw_shift_size_append f u lead
      | ok token =>
        simp only [placed_ok, bind_of_pure, Except.map]
        cases Lexing.asUnit token with
        | none => exact hinvalid
        | some body => rfl
    rw [if_neg hbrace, if_neg hbrace, if_neg hslash, if_neg hslash]
    by_cases halpha : isAlphanumeric c = true
    · have hstop : sum (u ++ lead).size c.utf8Size = some (u ++ lead ++ [c]).size :=
        sum_size (x := [c]) hs'
      have hslice : slice (u ++ (lead ++ c :: t)) (u ++ lead).size (u ++ lead ++ [c]).size =
          some [c] := slice_eq (u := u ++ lead) (v := t) (by simp) rfl (by simp [Nat.add_assoc])
      rw [if_pos halpha, if_pos halpha, hstop, liftM_some_bind, hslice]
      rfl
    · rw [if_neg halpha, if_neg halpha]
      exact hinvalid
termination_by t.length

theorem backslash_append {u t : Text} (hs : (u ++ '\\' :: t).size < wordSize) :
    backslash checked math (u ++ '\\' :: t) u.size =
      placed u.size (Lexing.backslash nested math t) := by
  have hone : sum u.size 1 = some (u ++ ['\\']).size := sum_size (x := ['\\']) hs
  have hnext : charAt (u ++ '\\' :: t) (u ++ ['\\']).size = some t.head? := by
    simpa using charAt_append (u ++ ['\\']) t
  rw [backslash, hone, liftM_some_bind, hnext, liftM_some_bind]
  cases t with
  | nil =>
    have hfails : Lexing.Fails nested math ('\\' :: []) _ := .emptyControlSequence []
    rw [Lexing.backslash]
    exact fail_point rfl (fail_of_fails hn.placesFaults hfails hs)
  | cons c t =>
    simp only [List.head?_cons]
    rw [Lexing.backslash]
    by_cases hm : Lexing.isSymbolAccent c = true
    · have hsize := utf8Size_of_isSymbolAccent hm
      have hlt : (u ++ '\\' :: c :: t).size - (u ++ ['\\', c]).size <
          (u ++ '\\' :: c :: t).size - u.size :=
        size_sub_lt (x := ['\\', c]) (v := t) rfl (List.cons_ne_nil _ _)
      have hunit : unit checked math "accent" (u ++ '\\' :: c :: t) u.size
          (u ++ ['\\', c]).size = _ := unit_append (.accent hm) hs
      rw [if_pos hm, if_pos hm, sum_two hsize hs, liftM_some_bind, if_pos hlt, hunit]
      exact applyTo_append (.accent .symbol c) hs
    · rw [if_neg hm, if_neg hm]
      exact control_append hn c hs
termination_by t.length

end

theorem script_append (kind : ScriptKind) {u t : Text}
    (hs : (u ++ kind.mark :: t).size < wordSize) :
    script checked math kind (u ++ kind.mark :: t) u.size =
      placed u.size (Lexing.script nested math kind t) := by
  have hmark : Text.size [kind.mark] = 1 := by cases kind <;> rfl
  have hstart : sum u.size (Text.size [kind.mark]) = some (u ++ [kind.mark]).size :=
    sum_size (v := t) hs
  have hunit : unit checked math kind.name (u ++ kind.mark :: t) u.size
      (u ++ [kind.mark]).size = _ := unit_append hn (.script kind) hs
  rw [hmark] at hstart
  rw [script, hstart, liftM_some_bind, hunit]
  exact applyTo_append (.script kind) hs

theorem read_append (c : Char) {u t : Text} (hs : (u ++ c :: t).size < wordSize) :
    read checked math c (u ++ c :: t) u.size =
      placed u.size (Lexing.read nested math (Lexing.openBrackets 0 u) c t) := by
  have hfail {f : Fault} (hf : Lexing.read nested math (Lexing.openBrackets 0 u) c t = .error f) :
      (fail (f.shift u.size) : Checked Token) = throw (f.shift u.size) :=
    fail_of_fails hn.placesFaults (Lexing.fails_of_read hf) hs
  unfold read
  split
  · exact block_append hn hs
  · exact backslash_append hn hs
  · exact script_append hn .superscript hs
  · exact script_append hn .subscript hs
  · rfl
  · rw [comment_append hs]
    rfl
  · exact placeholder_append hs
  · exact dollar_append hn hs
  · exact fail_point rfl (hfail rfl)
  · cases math with
    | true =>
      rw [content_append rfl (fun _ => rfl) hs]
      rfl
    | false => exact bracket_append hn hs
  · have hbefore : slice (u ++ ']' :: t) 0 u.size = some u :=
      slice_eq (u := []) (v := ']' :: t) rfl rfl (Nat.zero_add _).symm
    have hopened : openBrackets 0 u = some (Lexing.openBrackets 0 u) := by
      rw [Text.size_append] at hs
      exact openBrackets_eq (by omega)
    rw [Lexing.read] at hfail ⊢
    cases math with
    | true =>
      simp only [if_true, hbefore, liftM_some_bind, hopened]
      by_cases hpos : 0 < Lexing.openBrackets 0 u
      · rw [if_pos hpos, if_pos (by simpa using hpos), content_append rfl (fun _ => rfl) hs]
        rfl
      · simp only [hpos, decide_false, Bool.and_false, Bool.false_eq_true, if_false] at hfail ⊢
        exact fail_point rfl (hfail rfl)
    | false =>
      simp only [Bool.false_and, Bool.false_eq_true, if_false] at hfail ⊢
      exact fail_point rfl (hfail rfl)
  · next open_ slash sup sub align comment hash dollar close bracket closer =>
    have hsig : isSignificant c = false := Lexing.isSignificant_eq_false_iff.mpr
      ⟨slash, open_, close, dollar, align, comment, hash, sup, sub⟩
    rw [Lexing.read_eq_content_of_isPlain (Lexing.isPlain_of_ne hsig bracket closer),
      content_append hsig (fun h => absurd h closer) hs]
    rfl

/-- The token at an offset is read as from the text behind the offset, with as many brackets open
as the text in front of the offset leaves. -/
theorem lexToken_append {u t : Text} (hs : (u ++ t).size < wordSize) :
    lexToken checked math (u ++ t) u.size = placed u.size (match t with
      | [] => .ok none
      | c :: t => (Lexing.read nested math (Lexing.openBrackets 0 u) c t).map some) := by
  rw [lexToken, charAt_append, liftM_some_bind]
  cases t with
  | nil => rfl
  | cons c t =>
    simp only [List.head?_cons]
    rw [read_append hn c hs]
    cases Lexing.read nested math (Lexing.openBrackets 0 u) c t <;> rfl

end

end Checked

end LatexTokens
