import Mathlib.Data.List.DropRight
import LatexTokens.Proofs.Setting.Segments

/-!
# Trimming the tokens of a value

The value of a setting is the tokens of its pieces, trimmed at both ends (`value_eq_trimmed`).
Trimming drops blank texts at an end and the blanks of the first other token there, if that is
text; `trimsTo_iff` describes it by what stands where. The two ends do not disturb each other
(`trimBack_trimFront`), and trimming before some tokens are left out changes nothing if what is
left is trimmed again (`trimmed_filter_trimmed`).
-/

set_option autoImplicit false

namespace LatexTokens

namespace Text

theorem trimStart_trimStart (t : Text) : t.trimStart.trimStart = t.trimStart :=
  List.dropWhile_idempotent _ _

theorem trimEnd_trimEnd (t : Text) : t.trimEnd.trimEnd = t.trimEnd :=
  List.rdropWhile_idempotent _ _

theorem trim_eq_nil {t : Text} : t.trim = [] ↔ ∀ c ∈ t, isBlank c := by
  rw [trim, trimEnd_eq_nil, ← trimStart_eq_nil, trimStart_trimStart, trimStart_eq_nil]

theorem trimEnd_cons (c : Char) (t : Text) :
    Text.trimEnd (c :: t) =
      if t.trimEnd = [] then (if isBlank c then [] else [c]) else c :: t.trimEnd := by
  simp only [trimEnd, trimStart, List.reverse_cons, List.reverse_eq_nil_iff, List.dropWhile_append,
    List.isEmpty_iff]
  split
  · rw [List.dropWhile_cons]
    split <;> rfl
  · rw [List.reverse_append]
    rfl

theorem trimEnd_trimStart (t : Text) : t.trimStart.trimEnd = t.trimEnd.trimStart := by
  induction t with
  | nil => rfl
  | cons c t ih =>
    by_cases hc : isBlank c
    · have hstart (u : Text) : Text.trimStart (c :: u) = u.trimStart :=
        List.dropWhile_cons_of_pos hc
      rw [hstart, ih, trimEnd_cons, if_pos hc]
      split
      · next hnil => rw [hnil]
      · rw [hstart]
    · have hstart (u : Text) : Text.trimStart (c :: u) = c :: u := List.dropWhile_cons_of_neg hc
      rw [hstart, trimEnd_cons, if_neg hc]
      split <;> rw [hstart]

end Text

namespace Token

/-- Whether a token is text without any character that is not blank. -/
def isBlankText : Token → Bool
  | content _ literal => literal.all isBlank
  | _ => false

def trimStart : Token → Token
  | content _ literal => ofText literal.trimStart
  | t => t

def trimEnd : Token → Token
  | content _ literal => ofText literal.trimEnd
  | t => t

theorem isBlankText_content {x l : Text} : (content x l).isBlankText ↔ ∀ c ∈ l, isBlank c :=
  List.all_eq_true

end Token

namespace Setting

/-- Trims the texts at the start of tokens up to the first of which something is left. -/
def trimFirst (trim : Text → Text) : List Token → List Token
  | .content _ literal :: ts => match trim literal with
    | [] => trimFirst trim ts
    | t => .ofText t :: ts
  | ts => ts

/-- The tokens without the blanks at their start. -/
def trimFront (ts : List Token) : List Token := trimFirst Text.trimStart ts

/-- The tokens without the blanks at their end. -/
def trimBack (ts : List Token) : List Token := (trimFirst Text.trimEnd ts.reverse).reverse

def trimmed (ts : List Token) : List Token := trimBack (trimFront ts)

section
variable {trim : Text → Text}

theorem trimFirst_content_of_nil {x l : Text} (h : trim l = []) (ts : List Token) :
    trimFirst trim (.content x l :: ts) = trimFirst trim ts := by
  simp only [trimFirst, h]

theorem trimFirst_content_of_ne {x l : Text} (h : trim l ≠ []) (ts : List Token) :
    trimFirst trim (.content x l :: ts) = .ofText (trim l) :: ts := by
  rw [trimFirst]
  split
  · contradiction
  · rfl

theorem trimFirst_of_not_content {t : Token} (h : ∀ x l, t ≠ .content x l) (ts : List Token) :
    trimFirst trim (t :: ts) = t :: ts := by
  cases t with
  | content x l => exact absurd rfl (h x l)
  | _ => rfl

theorem trimFirst_append (ts us : List Token) :
    trimFirst trim (ts ++ us) =
      if trimFirst trim ts = [] then trimFirst trim us else trimFirst trim ts ++ us := by
  fun_induction trimFirst trim ts with
  | case1 x l ts hnil ih => rw [List.cons_append, trimFirst_content_of_nil hnil, ih]
  | case2 x l ts hne =>
    rw [List.cons_append, trimFirst_content_of_ne hne, if_neg (by simp), List.cons_append]
  | case3 ts hts =>
    cases ts with
    | nil => rfl
    | cons t ts =>
      rw [List.cons_append, trimFirst_of_not_content fun x l h => hts x l ts (by rw [h]),
        if_neg (by simp)]

/-- Trimming the tokens that a filter leaves takes back what trimming all of them has done. -/
theorem trimFirst_filter_trimFirst (htrim : ∀ t, trim (trim t) = trim t) {keep : Token → Bool}
    (hkeep : ∀ x l, keep (.content x l)) (ts : List Token) :
    trimFirst trim ((trimFirst trim ts).filter keep) = trimFirst trim (ts.filter keep) := by
  fun_induction trimFirst trim ts with
  | case1 x l ts hnil ih =>
    rw [ih, List.filter_cons_of_pos (hkeep x l), trimFirst_content_of_nil hnil]
  | case2 x l ts hne =>
    rw [Token.ofText, List.filter_cons_of_pos (hkeep _ _), List.filter_cons_of_pos (hkeep x l),
      trimFirst_content_of_ne hne, trimFirst_content_of_ne (by rwa [htrim]), htrim]
  | case3 => rfl

end

/-! ## The two ends -/

theorem trimFront_append (ts us : List Token) :
    trimFront (ts ++ us) = if trimFront ts = [] then trimFront us else trimFront ts ++ us :=
  trimFirst_append ts us

theorem trimBack_append (ts us : List Token) :
    trimBack (ts ++ us) = if trimBack us = [] then trimBack ts else ts ++ trimBack us := by
  simp only [trimBack, List.reverse_append, trimFirst_append, List.reverse_eq_nil_iff]
  split
  · rfl
  · rw [List.reverse_append, List.reverse_reverse]

theorem trimBack_cons (t : Token) (ts : List Token) :
    trimBack (t :: ts) = if trimBack ts = [] then trimBack [t] else t :: trimBack ts :=
  trimBack_append [t] ts

theorem trimFront_of_isBlankText {ts : List Token} (h : ∀ t ∈ ts, t.isBlankText) :
    trimFront ts = [] := by
  induction ts with
  | nil => rfl
  | cons t ts ih =>
    have ht := h t List.mem_cons_self
    cases t with
    | content x l =>
      rw [trimFront, trimFirst_content_of_nil (Text.trimStart_eq_nil.mpr
        (Token.isBlankText_content.mp ht))]
      exact ih fun u hu => h u (List.mem_cons_of_mem _ hu)
    | _ => cases ht

theorem trimBack_of_isBlankText {ts : List Token} (h : ∀ t ∈ ts, t.isBlankText) :
    trimBack ts = [] := by
  induction ts with
  | nil => rfl
  | cons t ts ih =>
    have ht := h t List.mem_cons_self
    rw [trimBack_cons, if_pos (ih fun u hu => h u (List.mem_cons_of_mem _ hu))]
    cases t with
    | content x l =>
      have hnil := Text.trimEnd_eq_nil.mpr (Token.isBlankText_content.mp ht)
      rw [trimBack, List.reverse_singleton, trimFirst_content_of_nil hnil]
      rfl
    | _ => cases ht

theorem trimFront_cons_of_not_isBlankText {t : Token} (h : ¬ t.isBlankText) (ts : List Token) :
    trimFront (t :: ts) = t.trimStart :: ts := by
  cases t with
  | content x l =>
    rw [Token.isBlankText_content] at h
    exact trimFirst_content_of_ne (mt Text.trimStart_eq_nil.mp h) ts
  | _ => rfl

theorem trimBack_singleton_of_not_isBlankText {t : Token} (h : ¬ t.isBlankText) :
    trimBack [t] = [t.trimEnd] := by
  cases t with
  | content x l =>
    rw [Token.isBlankText_content] at h
    rw [trimBack, List.reverse_singleton, trimFirst_content_of_ne (mt Text.trimEnd_eq_nil.mp h)]
    rfl
  | _ => rfl

theorem trimBack_trimFront_singleton (t : Token) :
    trimBack (trimFront [t]) = trimFront (trimBack [t]) := by
  cases t with
  | content x l =>
    by_cases h : ∀ c ∈ l, isBlank c
    · have ht : ∀ t ∈ [Token.content x l], t.isBlankText := by
        intro t ht
        cases List.mem_singleton.mp ht
        exact Token.isBlankText_content.mpr h
      rw [trimFront_of_isBlankText ht, trimBack_of_isBlankText ht]
      rfl
    · have hstart : l.trimStart ≠ [] := mt Text.trimStart_eq_nil.mp h
      have hend : l.trimEnd ≠ [] := mt Text.trimEnd_eq_nil.mp h
      have hboth : l.trimStart.trimEnd ≠ [] := mt Text.trim_eq_nil.mp h
      have hback {y m : Text} (hm : m.trimEnd ≠ []) :
          trimBack [.content y m] = [.ofText m.trimEnd] := by
        rw [trimBack, List.reverse_singleton, trimFirst_content_of_ne hm, List.reverse_singleton]
      rw [trimFront, trimFirst_content_of_ne hstart, Token.ofText, hback hboth, hback hend,
        trimFront, Token.ofText, Token.ofText,
        trimFirst_content_of_ne (by rwa [← Text.trimEnd_trimStart]), Text.trimEnd_trimStart]
      rfl
  | _ => rfl

/-- It does not matter which end is trimmed first. -/
theorem trimBack_trimFront (ts : List Token) :
    trimBack (trimFront ts) = trimFront (trimBack ts) := by
  induction ts with
  | nil => rfl
  | cons t ts ih =>
    have hfront (us : List Token) : trimFront (t :: us) =
        if trimFront [t] = [] then trimFront us else trimFront [t] ++ us := trimFront_append [t] us
    rw [hfront ts, trimBack_cons]
    by_cases hfirst : trimFront [t] = []
    · rw [if_pos hfirst, ih]
      split
      · next hnil =>
        rw [hnil, ← trimBack_trimFront_singleton, hfirst]
        rfl
      · rw [hfront (trimBack ts), if_pos hfirst]
    · rw [if_neg hfirst, trimBack_append, trimBack_trimFront_singleton]
      split
      · rfl
      · rw [hfront (trimBack ts), if_neg hfirst]

/-- Trimming is not disturbed by what is trimmed before some tokens are left out. -/
theorem trimmed_filter_trimmed {keep : Token → Bool} (hkeep : ∀ x l, keep (.content x l))
    (ts : List Token) : trimmed ((trimmed ts).filter keep) = trimmed (ts.filter keep) := by
  have hfront (us : List Token) :
      trimFront ((trimFront us).filter keep) = trimFront (us.filter keep) :=
    trimFirst_filter_trimFirst Text.trimStart_trimStart hkeep us
  have hback (us : List Token) :
      trimBack ((trimBack us).filter keep) = trimBack (us.filter keep) := by
    simp only [trimBack, ← List.filter_reverse, List.reverse_reverse]
    rw [trimFirst_filter_trimFirst Text.trimEnd_trimEnd hkeep]
  calc trimBack (trimFront ((trimBack (trimFront ts)).filter keep))
      = trimFront (trimBack ((trimBack (trimFront ts)).filter keep)) := trimBack_trimFront _
    _ = trimFront (trimBack ((trimFront ts).filter keep)) := by rw [hback]
    _ = trimBack (trimFront ((trimFront ts).filter keep)) := (trimBack_trimFront _).symm
    _ = trimBack (trimFront (ts.filter keep)) := by rw [hfront]

/-! ## What is trimmed, by where it stands -/

/-- Whether tokens are what is left of others when blank texts at the ends are dropped and the
outermost of the other tokens trimmed. -/
inductive TrimsTo : List Token → List Token → Prop where
  | none {ts : List Token} : (∀ t ∈ ts, t.isBlankText) → TrimsTo ts []
  | one {lead : List Token} {t : Token} {trail : List Token} :
      (∀ u ∈ lead, u.isBlankText) → ¬ t.isBlankText → (∀ u ∈ trail, u.isBlankText) →
      TrimsTo (lead ++ t :: trail) [t.trimStart.trimEnd]
  | several {lead : List Token} {first : Token} {inner : List Token} {last : Token}
      {trail : List Token} :
      (∀ u ∈ lead, u.isBlankText) → ¬ first.isBlankText → ¬ last.isBlankText →
      (∀ u ∈ trail, u.isBlankText) →
      TrimsTo (lead ++ first :: (inner ++ last :: trail))
        (first.trimStart :: (inner ++ [last.trimEnd]))

theorem trimmed_append_cons {lead : List Token} {t : Token} (hlead : ∀ u ∈ lead, u.isBlankText)
    (ht : ¬ t.isBlankText) (ts : List Token) :
    trimmed (lead ++ t :: ts) = trimBack (t.trimStart :: ts) := by
  rw [trimmed, trimFront_append, if_pos (trimFront_of_isBlankText hlead),
    trimFront_cons_of_not_isBlankText ht]

theorem not_isBlankText_trimStart {t : Token} (h : ¬ t.isBlankText) :
    ¬ t.trimStart.isBlankText := by
  cases t with
  | content x l =>
    rw [Token.isBlankText_content] at h
    intro hblank
    rw [Token.trimStart, Token.ofText, Token.isBlankText_content,
      ← Text.trimStart_eq_nil, Text.trimStart_trimStart] at hblank
    exact h (Text.trimStart_eq_nil.mp hblank)
  | _ => exact h

theorem trimBack_append_cons {t : Token} {trail : List Token} (ht : ¬ t.isBlankText)
    (htrail : ∀ u ∈ trail, u.isBlankText) (ts : List Token) :
    trimBack (ts ++ t :: trail) = ts ++ [t.trimEnd] := by
  have hlast : trimBack (t :: trail) = [t.trimEnd] := by
    rw [trimBack_cons, if_pos (trimBack_of_isBlankText htrail),
      trimBack_singleton_of_not_isBlankText ht]
  rw [trimBack_append, hlast, if_neg (by simp)]

theorem TrimsTo.eq_trimmed {ts us : List Token} (h : TrimsTo ts us) : us = trimmed ts := by
  cases h with
  | none h => rw [trimmed, trimFront_of_isBlankText h]; rfl
  | one hlead ht htrail =>
    rw [trimmed_append_cons hlead ht]
    exact (trimBack_append_cons (not_isBlankText_trimStart ht) htrail []).symm
  | several hlead hfirst hlast htrail =>
    rw [trimmed_append_cons hlead hfirst]
    exact (trimBack_append_cons hlast htrail (_ :: _)).symm

theorem blank_or_exists_first (ts : List Token) :
    (∀ t ∈ ts, t.isBlankText) ∨ ∃ lead first rest,
      ts = lead ++ first :: rest ∧ (∀ t ∈ lead, t.isBlankText) ∧ ¬ first.isBlankText := by
  cases hfind : ts.find? fun t => !t.isBlankText with
  | none =>
    refine .inl fun t ht => ?_
    simpa using List.find?_eq_none.mp hfind t ht
  | some first =>
    obtain ⟨hfirst, lead, rest, rfl, hlead⟩ := List.find?_eq_some_iff_append.mp hfind
    refine .inr ⟨lead, first, rest, rfl, fun t ht => ?_, by simpa using hfirst⟩
    simpa using hlead t ht

theorem trimsTo_iff {ts us : List Token} : TrimsTo ts us ↔ us = trimmed ts := by
  refine ⟨TrimsTo.eq_trimmed, ?_⟩
  rintro rfl
  have h : ∃ vs, TrimsTo ts vs := by
    rcases blank_or_exists_first ts with hts | ⟨lead, first, rest, rfl, hlead, hfirst⟩
    · exact ⟨[], .none hts⟩
    · rcases blank_or_exists_first rest.reverse with
        hrest | ⟨trail, last, inner, heq, htrail, hlast⟩
      · exact ⟨_, .one hlead hfirst fun u hu => hrest u (List.mem_reverse.mpr hu)⟩
      · have hrest : rest = inner.reverse ++ last :: trail.reverse := by
          rw [← rest.reverse_reverse, heq, List.reverse_append, List.reverse_cons,
            List.append_assoc]
          rfl
        rw [hrest]
        exact ⟨_, .several hlead hfirst hlast fun u hu => htrail u (List.mem_reverse.mp hu)⟩
  obtain ⟨vs, hvs⟩ := h
  rwa [← hvs.eq_trimmed]

/-! ## Values -/

theorem trimFirst_trimEnd (ts : List Token) : trimFirst Text.trimEnd ts = trimmedEnd ts := by
  fun_induction trimmedEnd ts with
  | case1 x l ts hnil ih => rw [trimFirst_content_of_nil hnil, ih]
  | case2 x l ts hne => rw [trimFirst_content_of_ne hne]
  | case3 ts hts =>
    cases ts with
    | nil => rfl
    | cons t ts => exact trimFirst_of_not_content (fun x l h => hts x l ts (by rw [h])) ts

theorem trimmedStart_eq_trimFront {ps : Segment} (h : IsProper ps) :
    trimmedStart ps = trimFront (ps.filterMap Piece.token?) := by
  induction ps with
  | nil => rfl
  | cons p ps ih =>
    obtain ⟨hp, hps⟩ := isProper_cons_iff.mp h
    cases p with
    | token t =>
      have ht : ∀ x l, t ≠ .content x l := fun x l ht => hp x l (ht ▸ rfl)
      exact (trimFirst_of_not_content ht _).symm
    | text t =>
      rw [trimmedStart]
      split
      · next hnil =>
        rw [ih hps]
        cases t with
        | nil => rfl
        | cons c t => exact (trimFirst_content_of_nil hnil _).symm
      · next hne =>
        cases t with
        | nil => exact absurd rfl hne
        | cons c t => exact (trimFirst_content_of_ne hne _).symm

/-- A value is the tokens of its pieces, trimmed. -/
theorem value_eq_trimmed {ps : Segment} (h : IsProper ps) :
    value ps = trimmed (ps.filterMap Piece.token?) := by
  rw [value, trimmedStart_eq_trimFront h, ← trimFirst_trimEnd]
  rfl

end Setting

end LatexTokens
