import LatexTokens.Proofs.Setting.Outcome

/-!
# Segments

`CutsInto` says what it means to cut the tokens of a body at the commas of their text, one case
for each place where the text can end. There is one such cut, the one that `segments` makes
(`cutsInto_iff`); in it all text is in text pieces (`IsProper`).
-/

set_option autoImplicit false

namespace LatexTokens

namespace Text
variable {separator : Char}

theorem splitOn_ne_nil (separator : Char) (t : Text) : splitOn separator t ≠ [] := by
  cases t with
  | nil => simp [splitOn]
  | cons c t =>
    rw [splitOn]
    split
    · simp
    · split <;> simp

theorem splitOn_of_not_mem {t : Text} (h : separator ∉ t) : splitOn separator t = [t] := by
  induction t with
  | nil => rfl
  | cons c t ih =>
    rw [List.mem_cons, not_or] at h
    rw [splitOn, if_neg (Ne.symm h.1), ih h.2]

theorem splitOn_append_cons {t : Text} (h : separator ∉ t) (u : Text) :
    splitOn separator (t ++ separator :: u) = t :: splitOn separator u := by
  induction t with
  | nil => rw [List.nil_append, splitOn, if_pos rfl]
  | cons c t ih =>
    rw [List.mem_cons, not_or] at h
    rw [List.cons_append, splitOn, if_neg (Ne.symm h.1), ih h.2]

end Text

namespace Setting

theorem addPiece_ne_nil (p : Piece) (ss : List Segment) : addPiece p ss ≠ [] := by
  cases ss <;> simp [addPiece]

theorem addTexts_cons (t : Text) {ts : List Text} (h : ts ≠ []) (ss : List Segment) :
    addTexts (t :: ts) ss = [.text t] :: addTexts ts ss := by
  cases ts with
  | nil => exact absurd rfl h
  | cons => rfl

theorem addTexts_ne_nil (texts : List Text) {ss : List Segment} (h : ss ≠ []) :
    addTexts texts ss ≠ [] := by
  cases texts with
  | nil => exact h
  | cons t texts =>
    cases texts with
    | nil => exact addPiece_ne_nil _ ss
    | cons => simp [addTexts]

theorem segments_of_not_content {t : Token} (h : ∀ x l, t ≠ .content x l) (ts : List Token) :
    segments (t :: ts) = addPiece (.token t) (segments ts) := by
  cases t with
  | content x l => exact absurd rfl (h x l)
  | _ => rfl

theorem segments_ne_nil (ts : List Token) : segments ts ≠ [] := by
  induction ts with
  | nil => simp [segments]
  | cons t ts ih =>
    by_cases hc : ∃ x l, t = .content x l
    · obtain ⟨x, l, rfl⟩ := hc
      exact addTexts_ne_nil _ ih
    · rw [segments_of_not_content fun x l h => hc ⟨x, l, h⟩]
      exact addPiece_ne_nil _ _

/-- Whether tokens fall into segments at the commas of their text. -/
inductive CutsInto : List Token → List Segment → Prop where
  | nil : CutsInto [] [[]]
  | token {t : Token} {ts : List Token} {s : Segment} {ss : List Segment} :
      (∀ x l, t ≠ .content x l) → CutsInto ts (s :: ss) → CutsInto (t :: ts) ((.token t :: s) :: ss)
  /-- Text without a comma goes on in the segment of what follows it. -/
  | text {x l : Text} {ts : List Token} {s : Segment} {ss : List Segment} :
      ',' ∉ l → CutsInto ts (s :: ss) → CutsInto (.content x l :: ts) ((.text l :: s) :: ss)
  /-- Text up to its first comma ends a segment. -/
  | comma {x l r : Text} {ts : List Token} {ss : List Segment} :
      ',' ∉ l → CutsInto (.content x r :: ts) ss →
      CutsInto (.content x (l ++ ',' :: r) :: ts) ([.text l] :: ss)

theorem CutsInto.eq_segments {ts : List Token} {ss : List Segment} (h : CutsInto ts ss) :
    ss = segments ts := by
  induction h with
  | nil => rfl
  | token ht _ ih => rw [segments_of_not_content ht, ← ih, addPiece]
  | text hl _ ih => rw [segments, Text.splitOn_of_not_mem hl, ← ih, addTexts, addPiece]
  | comma hl _ ih =>
    rw [segments, Text.splitOn_append_cons hl, addTexts_cons _ (Text.splitOn_ne_nil _ _), ih,
      segments]

theorem cutsInto_content {ts : List Token} (h : CutsInto ts (segments ts)) (x l : Text) :
    ∃ ss, CutsInto (.content x l :: ts) ss := by
  obtain ⟨s, ss, hs⟩ := List.exists_cons_of_ne_nil (segments_ne_nil ts)
  rw [hs] at h
  -- The induction is on the length, since the text behind a comma is not the tail of the text.
  induction hn : l.length using Nat.strongRecOn generalizing l with
  | ind n ih =>
    by_cases hl : ',' ∈ l
    · obtain ⟨u, v, rfl, hu⟩ := List.eq_append_cons_of_mem hl
      obtain ⟨rest, hrest⟩ := ih v.length (by simp [← hn]; omega) v rfl
      exact ⟨_, .comma hu hrest⟩
    · exact ⟨_, .text hl h⟩

theorem cutsInto_iff {ts : List Token} {ss : List Segment} : CutsInto ts ss ↔ ss = segments ts := by
  refine ⟨CutsInto.eq_segments, ?_⟩
  rintro rfl
  induction ts with
  | nil => exact .nil
  | cons t ts ih =>
    have h : ∃ ss, CutsInto (t :: ts) ss := by
      by_cases hc : ∃ x l, t = .content x l
      · obtain ⟨x, l, rfl⟩ := hc
        exact cutsInto_content ih x l
      · obtain ⟨s, ss, hs⟩ := List.exists_cons_of_ne_nil (segments_ne_nil ts)
        rw [hs] at ih
        exact ⟨_, .token (fun x l h => hc ⟨x, l, h⟩) ih⟩
    obtain ⟨ss, hss⟩ := h
    rwa [← hss.eq_segments]

/-- Whether all text among some pieces is in text pieces. -/
def IsProper (ps : Segment) : Prop := ∀ x l, Piece.token (.content x l) ∉ ps

theorem isProper_cons_iff {p : Piece} {ps : Segment} :
    IsProper (p :: ps) ↔ (∀ x l, p ≠ .token (.content x l)) ∧ IsProper ps := by
  simp only [IsProper, List.mem_cons, not_or, ← forall_and, ne_comm (a := p), ne_eq]

theorem IsProper.cons_text {ps : Segment} (h : IsProper ps) (t : Text) : IsProper (.text t :: ps) :=
  isProper_cons_iff.mpr ⟨by simp, h⟩

theorem CutsInto.isProper {ts : List Token} {ss : List Segment} (h : CutsInto ts ss) :
    ∀ s ∈ ss, IsProper s := by
  induction h with
  | nil =>
    intro s hs x l hm
    cases List.mem_singleton.mp hs
    cases hm
  | token ht _ ih =>
    rw [List.forall_mem_cons] at ih ⊢
    refine ⟨isProper_cons_iff.mpr ⟨fun x l h => ?_, ih.1⟩, ih.2⟩
    cases h
    exact ht x l rfl
  | text _ _ ih =>
    rw [List.forall_mem_cons] at ih ⊢
    exact ⟨ih.1.cons_text _, ih.2⟩
  | comma _ _ ih =>
    refine List.forall_mem_cons.mpr ⟨fun x l hm => ?_, ih⟩
    cases List.mem_singleton.mp hm

end Setting

end LatexTokens
