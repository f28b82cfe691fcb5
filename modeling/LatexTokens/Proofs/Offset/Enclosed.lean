import LatexTokens.Proofs.Offset.Reader

/-!
# Regions and arguments by offsets

A region is cut out between the offsets of its delimiters and read from a copy. That the reader of
copies gives what the reader of regions gives is a hypothesis here (`Checked.Realizes`), as the
two read each other.
-/

set_option autoImplicit false

namespace LatexTokens

namespace Checked

/-- Whether a reader of copied regions gives what a reader of regions gives, for all regions that
fit a buffer. -/
structure Realizes (checked : Bool → Text → Checked (List Token)) (nested : RegionLexer) :
    Prop where
  placesFaults : Lexing.PlacesFaults nested
  eq : ∀ math t, Text.size t < wordSize → checked math t = ExceptT.mk (some (nested math t))

section
variable {nested : RegionLexer} {math : Bool} {t : Text}

theorem literal_of_region {e : Enclosure} {inner rest literal : Text} {tokens : List Token}
    (hsplit : e.split t = .ok (inner, rest))
    (h : Lexing.region nested math e t = .ok (literal, tokens)) : literal = e.around inner := by
  rw [Lexing.region, hsplit] at h
  simp only at h
  split at h <;> cases h
  rw [Enclosure.around, List.append_assoc]

theorem literal_of_argument {d : Delimiter} {inner rest : Text} {a : Argument Token}
    (hsplit : (Enclosure.group d).split t = .ok (inner, rest))
    (h : Lexing.argument nested math d t = .ok a) :
    a.literal = (Enclosure.group d).around inner := by
  rw [Lexing.argument] at h
  split at h
  · cases h
  · next hr =>
    rw [← literal_of_region hsplit hr]
    cases d with
    | brace =>
      cases h
      rfl
    | bracket =>
      simp only at h
      split at h <;> cases h
      rfl

theorem shift_settings {ts : List Token} {cause : Cause}
    (h : OptionValue.ofTokens ts = .error cause) (start stop n : Nat) :
    Fault.shift n ⟨⟨start, stop⟩, cause⟩ = ⟨⟨start + n, stop + n⟩, cause⟩ := by
  have hc := OptionValue.isOfSettings_of_ofTokens h
  cases cause <;> first | rfl | cases hc

end

section
variable {checked : Bool → Text → Checked (List Token)} {nested : RegionLexer}
  (hn : Realizes checked nested) {math : Bool} {u t : Text}
include hn

theorem inside_of_split {e : Enclosure} {inner rest : Text} (h : e.split t = .ok (inner, rest))
    (hs : (u ++ (e.opening ++ t)).size < wordSize) :
    inside checked math e (u ++ (e.opening ++ t)) u.size (u.size + e.opening.size + inner.size) =
      placed u.size (Lexing.region nested math e t) := by
  have ht := Enclosure.append_eq_of_split h
  have hstart : sum u.size e.opening.size = some (u ++ e.opening).size := sum_size hs
  rw [Lexing.region, h]
  subst ht
  have hsize : (u ++ (e.opening ++ (inner ++ (e.closing ++ rest)))).size =
      u.size + e.opening.size + inner.size + e.closing.size + rest.size := by
    simp only [Text.size_append, Nat.add_assoc]
  have hliteralSize : u.size + e.opening.size + inner.size + e.closing.size =
      u.size + (e.opening ++ inner ++ e.closing).size := by
    simp only [Text.size_append, Nat.add_assoc]
  have hinner : slice (u ++ (e.opening ++ (inner ++ (e.closing ++ rest)))) (u ++ e.opening).size
      (u.size + e.opening.size + inner.size) = some inner :=
    slice_eq (u := u ++ e.opening) (v := e.closing ++ rest) (by simp) rfl (by rw [Text.size_append])
  have hstop : sum (u.size + e.opening.size + inner.size) e.closing.size =
      some (u.size + (e.opening ++ inner ++ e.closing).size) := by
    rw [sum_eq (by omega), hliteralSize]
  have hliteral : slice (u ++ (e.opening ++ (inner ++ (e.closing ++ rest)))) u.size
      (u.size + (e.opening ++ inner ++ e.closing).size) =
      some (e.opening ++ inner ++ e.closing) :=
    slice_eq (v := rest) (by simp) rfl rfl
  have hregion : rebase (u ++ e.opening).size
      (ExceptT.mk (some (nested (math || e.isFormula) inner))) = _ :=
    rebase_of_placesFaults hn.placesFaults (v := e.closing ++ rest) (by rwa [List.append_assoc]) _
  rw [inside, hstart, liftM_some_bind, hinner, liftM_some_bind, hn.eq _ _ (by omega), hregion,
    hstop]
  simp only
  cases nested (math || e.isFormula) inner with
  | error f =>
    rw [placed_error, placed_error, throw_bind, Fault.shift_shift, Text.size_append, Nat.add_comm]
  | ok tokens =>
    rw [placed_ok, bind_of_pure, liftM_some_bind, hliteral]
    rfl

theorem enclosed_append (e : Enclosure) (hs : (u ++ (e.opening ++ t)).size < wordSize) :
    (closing e (u ++ (e.opening ++ t)) u.size >>=
        inside checked math e (u ++ (e.opening ++ t)) u.size) =
      placed u.size (Lexing.region nested math e t) := by
  rw [closing_append e u t hs]
  cases hsplit : e.split t with
  | error f =>
    rw [Lexing.region, hsplit]
    rfl
  | ok parts => exact inside_of_split hn hsplit hs

theorem group_append (d : Delimiter) (hs : (u ++ d.opening :: t).size < wordSize) :
    (groupEnd (u ++ d.opening :: t) u.size >>=
        inside checked math (.group d) (u ++ d.opening :: t) u.size) =
      placed u.size (Lexing.region nested math (.group d) t) := by
  rw [← enclosed_append hn (.group d) hs, groupEnd, charAt_append, liftM_some_bind, List.head?_cons]
  cases d <;> rfl

theorem block_append (hs : (u ++ '{' :: t).size < wordSize) :
    block checked math (u ++ '{' :: t) u.size = placed u.size (Lexing.block nested math t) := by
  have hgroup : (groupEnd (u ++ '{' :: t) u.size >>=
      inside checked math (.group .brace) (u ++ '{' :: t) u.size) = _ := group_append hn .brace hs
  rw [block, ← bind_assoc, hgroup, Lexing.block]
  cases Lexing.region nested math (.group .brace) t <;> rfl

theorem formula_append (f : Fence)
    (hs : (u ++ ((Enclosure.formula f).opening ++ t)).size < wordSize) :
    formula checked math f (u ++ ((Enclosure.formula f).opening ++ t)) u.size =
      placed u.size (Lexing.formula nested math f t) := by
  rw [formula, ← bind_assoc, enclosed_append hn (.formula f) hs, Lexing.formula]
  cases Lexing.region nested math (.formula f) t <;> rfl

theorem dollar_append (hs : (u ++ '$' :: t).size < wordSize) :
    dollar checked math (u ++ '$' :: t) u.size = placed u.size (Lexing.dollar nested math t) := by
  have hstart : sum u.size 1 = some (u ++ ['$']).size := sum_size (x := ['$']) hs
  have hrest : sliceFrom (u ++ '$' :: t) (u ++ ['$']).size = some t := by
    simpa using sliceFrom_append (u ++ ['$']) t
  rw [dollar, hstart, liftM_some_bind, hrest, liftM_some_bind]
  by_cases h : t.head? = some '$'
  · obtain ⟨t, rfl⟩ : ∃ t', t = '$' :: t' := by
      cases t with
      | nil => cases h
      | cons c t =>
        cases h
        exact ⟨t, rfl⟩
    exact formula_append hn .doubleDollar hs
  · rw [if_neg h, Lexing.dollar_eq_formula h]
    exact formula_append hn .dollar hs

theorem bracket_append (hs : (u ++ '[' :: t).size < wordSize) :
    bracket checked false (u ++ '[' :: t) u.size =
      placed u.size (Lexing.bracket nested false t) := by
  have hend : groupEnd (u ++ '[' :: t) u.size = _ := groupEnd_append .bracket u t hs
  rw [bracket, hend, Lexing.bracket]
  cases hsplit : (Enclosure.group .bracket).split t with
  | error f => rfl
  | ok parts =>
    obtain ⟨inner, rest⟩ := parts
    have ht := Enclosure.append_eq_of_split hsplit
    have hstart : sum u.size 1 = some (u ++ ['[']).size := sum_size (x := ['[']) hs
    have hinside : inside checked false (.group .bracket) (u ++ '[' :: t) u.size
        (u.size + 1 + inner.size) = _ := inside_of_split hn hsplit hs
    have hinner : slice (u ++ '[' :: t) (u ++ ['[']).size (u.size + 1 + inner.size) =
        some inner := by
      rw [← ht]
      exact slice_eq (u := u ++ ['[']) (v := [']'] ++ rest) (by simp; rfl) rfl
        (by rw [Text.size_append]; rfl)
    have hcontent : content false (u ++ '[' :: t) u.size = _ := content_append rfl (by decide) hs
    simp only [Except.map, placed_ok, bind_of_pure]
    rw [hstart, liftM_some_bind, hinner, liftM_some_bind, hinside, hcontent]
    by_cases hsig : inner.any isSignificant = true
    · rw [if_pos hsig, if_pos hsig]
      cases Lexing.region nested false (.group .bracket) t <;> rfl
    · rw [if_neg hsig, if_neg hsig]
      rfl

/-! ## Arguments -/

theorem argument_of_split {d : Delimiter} {inner rest : Text}
    (h : (Enclosure.group d).split t = .ok (inner, rest))
    (hs : (u ++ d.opening :: t).size < wordSize) :
    argument checked math d (u ++ d.opening :: t) u.size (u.size + 1 + inner.size) =
      placed u.size (Lexing.argument nested math d t) := by
  have hopening : (Enclosure.group d).opening.size = 1 := by cases d <;> rfl
  have hinside : inside checked math (.group d) (u ++ d.opening :: t) u.size
      (u.size + (Enclosure.group d).opening.size + inner.size) = _ := inside_of_split hn h hs
  have hfail {f : Fault} (hf : Lexing.argument nested math d t = .error f) :
      (fail (f.shift u.size) : Checked (Argument Token)) = throw (f.shift u.size) :=
    fail_of_fails hn.placesFaults (Lexing.fails_of_argument hf) hs
  rw [hopening] at hinside
  rw [argument, hinside]
  rw [Lexing.argument] at hfail ⊢
  cases hr : Lexing.region nested math (.group d) t with
  | error f => rfl
  | ok parts =>
    obtain ⟨literal, tokens⟩ := parts
    rw [hr] at hfail
    cases d with
    | brace => rfl
    | bracket =>
      simp only [placed_ok, bind_of_pure] at hfail ⊢
      cases hv : OptionValue.ofTokens tokens with
      | ok value => rfl
      | error cause =>
        have hone : sum u.size 1 = some (u ++ ['[']).size := sum_size (x := ['[']) hs
        have hliteral : literal.size - 1 + u.size = u.size + 1 + inner.size := by
          rw [literal_of_region h hr]
          change '['.utf8Size + Text.size (inner ++ [']']) - 1 + u.size = _
          rw [Text.size_append]
          change 1 + (inner.size + 1) - 1 + u.size = _
          omega
        have hopen : (u ++ ['[']).size = 1 + u.size := by
          rw [Text.size_append, Nat.add_comm]
          rfl
        rw [hv] at hfail
        have hf := hfail rfl
        simp only
        rw [placed_error, hone, liftM_some_bind, hopen, ← hliteral, ← shift_settings hv, hf]

/-- Arguments are read one after the other. -/
theorem arguments_cons (d : Delimiter) (hs : (u ++ d.opening :: t).size < wordSize) :
    arguments checked math (u ++ d.opening :: t) u.size =
      placed u.size (Lexing.argument nested math d t) >>= fun a =>
        arguments checked math (u ++ d.opening :: t) (u ++ a.literal).size >>= fun (as, stop) =>
          pure (a :: as, stop) := by
  rw [arguments, charAt_append, liftM_some_bind, List.head?_cons, Option.bind_some,
    Lexing.ofOpening?_opening]
  simp only
  rw [groupEnd_append d u t hs]
  cases hsplit : (Enclosure.group d).split t with
  | error f =>
    rw [Lexing.argument, Lexing.region, hsplit]
    rfl
  | ok parts =>
    obtain ⟨inner, rest⟩ := parts
    simp only [Except.map, placed_ok, bind_of_pure]
    rw [argument_of_split hn hsplit hs]
    cases ha : Lexing.argument nested math d t with
    | error f => rfl
    | ok a =>
      obtain ⟨rest', ht, hi⟩ := Lexing.argument_eq_ok_iff.mp ha
      have hsize : (u ++ a.literal).size = u.size + 1 + inner.size + 1 := by
        rw [literal_of_argument hsplit ha]
        cases d <;> simp only [Enclosure.around, Text.size_append, Nat.add_assoc] <;> rfl
      have hlt : (u ++ d.opening :: t).size - (u ++ a.literal).size <
          (u ++ d.opening :: t).size - u.size :=
        size_sub_lt (by rw [ht]) hi.literal_ne_nil
      have hle : (u ++ a.literal).size ≤ (u ++ d.opening :: t).size := by
        rw [ht, ← List.append_assoc, Text.size_append (u ++ a.literal)]
        exact Nat.le_add_right _ _
      have hnext : sum (u.size + 1 + inner.size) 1 = some (u ++ a.literal).size := by
        rw [sum_eq (by omega), hsize]
      simp only [placed_ok, bind_of_pure]
      rw [hnext, liftM_some_bind, if_pos hlt]

theorem arguments_append (hs : (u ++ t).size < wordSize) :
    arguments checked math (u ++ t) u.size = placed u.size ((Lexing.arguments nested math t).map
      fun as => (as, (u ++ as.flatMap Argument.literal).size)) := by
  fun_induction Lexing.arguments nested math t generalizing u with
  | case1 =>
    rw [arguments, charAt_append, liftM_some_bind]
    simp [Except.map]
  | case2 c t hd =>
    rw [arguments, charAt_append, liftM_some_bind, List.head?_cons, Option.bind_some, hd]
    simp [Except.map]
  | case3 c t d hd f ha =>
    cases Lexing.eq_opening_of_ofOpening? hd
    rw [arguments_cons hn d hs, ha]
    rfl
  | case4 c t d hd a ha f hr ih =>
    cases Lexing.eq_opening_of_ofOpening? hd
    obtain ⟨rest, ht, hi⟩ := Lexing.argument_eq_ok_iff.mp ha
    have hrest := Text.drop_length_tail hi.literal_ne_nil ht
    rw [arguments_cons hn d hs, ha, placed_ok, bind_of_pure]
    rw [ht, ← List.append_assoc] at hs ⊢
    rw [hrest] at hr ih
    rw [ih hs, hr, Except.map, Except.map, placed_error, placed_error, throw_bind,
      Fault.shift_shift, Text.size_append, Nat.add_comm]
  | case5 c t d hd a ha as hr ih =>
    cases Lexing.eq_opening_of_ofOpening? hd
    obtain ⟨rest, ht, hi⟩ := Lexing.argument_eq_ok_iff.mp ha
    have hrest := Text.drop_length_tail hi.literal_ne_nil ht
    rw [arguments_cons hn d hs, ha, placed_ok, bind_of_pure]
    rw [ht, ← List.append_assoc] at hs ⊢
    rw [hrest] at hr ih
    rw [ih hs, hr]
    simp only [Except.map, placed_ok, bind_of_pure, List.flatMap_cons, List.append_assoc]

end

end Checked

end LatexTokens
