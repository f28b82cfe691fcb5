import LatexTokens.Proofs.Comment.Relation
import LatexTokens.Proofs.Setting.Segments

/-!
# Settings with a comment

A comment cuts no segment and has no equals sign, so bodies of optional arguments that differ in
one comment have the same settings, or settings that differ in that comment.
-/

set_option autoImplicit false

namespace LatexTokens

namespace Token.Differs
variable {t u : Token}

theorem isEquation_eq (h : Differs t u) : t.isEquation = u.isEquation := by
  cases h <;> rfl

theorem isSwitch_eq (h : Differs t u) : t.isSwitch = u.isSwitch := by
  cases h <;> rfl

theorem ne_content (h : Differs t u) :
    (∀ x l, t ≠ .content x l) ∧ ∀ x l, u ≠ .content x l := by
  cases h <;> exact ⟨by simp, by simp⟩

end Token.Differs

namespace Setting

inductive Piece.Differs : Piece → Piece → Prop where
  | token {t u : Token} : Token.Differs t u → Differs (.token t) (.token u)

/-- Whether two segments differ in one comment. -/
abbrev SegmentDiffers : Segment → Segment → Prop := OneDiffers Piece.Differs

variable {ps qs : Segment}

theorem addPiece_differs (p : Piece) {ss rs : List Segment} (h : OneDiffers SegmentDiffers ss rs) :
    OneDiffers SegmentDiffers (addPiece p ss) (addPiece p rs) := by
  cases h with
  | here ss hs => exact .here ss (hs.there p)
  | there s h => exact h.there (p :: s)

theorem addTexts_differs (texts : List Text) {ss rs : List Segment}
    (h : OneDiffers SegmentDiffers ss rs) :
    OneDiffers SegmentDiffers (addTexts texts ss) (addTexts texts rs) := by
  induction texts with
  | nil => exact h
  | cons t texts ih =>
    cases texts with
    | nil => exact addPiece_differs _ h
    | cons => exact ih.there _

theorem segments_differ {ts us : List Token} (h : OneDiffers Token.Differs ts us) :
    OneDiffers SegmentDiffers (segments ts) (segments us) := by
  induction h with
  | here ts hd =>
    rw [segments_of_not_content hd.ne_content.1,
      segments_of_not_content hd.ne_content.2]
    unfold addPiece
    split
    · exact .here [] (.here [] (.token hd))
    · exact .here _ (.here _ (.token hd))
  | there t _ ih =>
    by_cases hc : ∃ x l, t = .content x l
    · obtain ⟨x, l, rfl⟩ := hc
      exact addTexts_differs _ ih
    · have hne : ∀ x l, t ≠ .content x l := fun x l h => hc ⟨x, l, h⟩
      rw [segments_of_not_content hne, segments_of_not_content hne]
      exact addPiece_differs _ ih

theorem findSome?_equation_eq (h : SegmentDiffers ps qs) :
    ps.findSome? Piece.equation? = qs.findSome? Piece.equation? := by
  induction h with
  | here ps hd =>
    cases hd
    rfl
  | there p _ ih => rw [List.findSome?_cons, List.findSome?_cons, ih]

theorem filterMap_token_differs (h : SegmentDiffers ps qs) :
    OneDiffers Token.Differs (ps.filterMap Piece.token?) (qs.filterMap Piece.token?) := by
  induction h with
  | here ps hd =>
    cases hd with
    | token hd => exact .here _ hd
  | there p _ ih =>
    rw [List.filterMap_cons, List.filterMap_cons]
    split
    · exact ih
    · exact ih.there _

theorem trimmedStart_differs (h : SegmentDiffers ps qs) :
    OneDiffers Token.Differs (trimmedStart ps) (trimmedStart qs) := by
  induction h with
  | here ps hd =>
    cases hd with
    | token hd => exact .here _ hd
  | there p hp ih =>
    cases p with
    | text t =>
      unfold trimmedStart
      split
      · exact ih
      · exact (filterMap_token_differs hp).there _
    | token t => exact (filterMap_token_differs hp).there t

theorem trimmedEnd_of_not_content {t : Token} (h : ∀ x l, t ≠ .content x l) (ts : List Token) :
    trimmedEnd (t :: ts) = t :: ts := by
  cases t with
  | content x l => exact absurd rfl (h x l)
  | _ => rfl

theorem trimmedEnd_differs {ts us : List Token} (h : OneDiffers Token.Differs ts us) :
    OneDiffers Token.Differs (trimmedEnd ts) (trimmedEnd us) := by
  induction h with
  | here ts hd =>
    rw [trimmedEnd_of_not_content hd.ne_content.1,
      trimmedEnd_of_not_content hd.ne_content.2]
    exact .here ts hd
  | there t hts ih =>
    cases t with
    | content x l =>
      unfold trimmedEnd
      split
      · exact ih
      · exact hts.there _
    | _ => exact hts.there _

theorem value_differs (h : SegmentDiffers ps qs) :
    OneDiffers Token.Differs (value ps) (value qs) :=
  (trimmedEnd_differs (trimmedStart_differs h).reverse).reverse

/-- Whether two results are related, or both a fault. -/
def Alike {α : Type} (R : α → α → Prop) : Except Cause α → Except Cause α → Prop
  | .ok a, .ok b => R a b
  | .error _, .error _ => True
  | _, _ => False

namespace Alike
variable {α β : Type} {R : α → α → Prop} {S : β → β → Prop}

theorem refl (r : Except Cause α) : Alike Eq r r := by
  cases r with
  | error => trivial
  | ok => rfl

theorem mono {T : α → α → Prop} {r s : Except Cause α} (h : Alike R r s)
    (hT : ∀ a b, R a b → T a b) : Alike T r s := by
  cases r <;> cases s
  · trivial
  · exact h
  · exact h
  · exact hT _ _ h

theorem map {f : α → β} {r s : Except Cause α} (h : Alike R r s)
    (hf : ∀ a b, R a b → S (f a) (f b)) : Alike S (r.map f) (s.map f) := by
  cases r <;> cases s
  · trivial
  · exact h
  · exact h
  · exact hf _ _ h

theorem bind {r s : Except Cause α} {k l : α → Except Cause β} (h : Alike R r s)
    (hk : ∀ a b, R a b → Alike S (k a) (l b)) : Alike S (r >>= k) (s >>= l) := by
  cases r <;> cases s
  · trivial
  · exact h.elim
  · exact h.elim
  · exact hk _ _ h

end Alike

/-- Whether two settings are the same, the comment being in front of an equals sign, or differ in
one comment. -/
def SettingAlike (p q : KeyValue Token) : Prop := p = q ∨ KeyValue.Differs Token.Differs p q

theorem ofValue_alike (key : Text) (h : SegmentDiffers ps qs) :
    Alike SettingAlike (ofValue key ps) (ofValue key qs) := by
  have hvalue := value_differs h
  unfold ofValue
  rw [findSome?_equation_eq h]
  cases qs.findSome? Piece.equation? with
  | some => trivial
  | none =>
    simp only
    obtain ⟨hp, hq⟩ := hvalue.ne_nil
    split
    · contradiction
    · exact .inr (.value key hvalue)

theorem read_alike (pending : Text) (h : SegmentDiffers ps qs) :
    Alike SettingAlike (read pending ps) (read pending qs) := by
  induction h generalizing pending with
  | here ps hd =>
    cases hd with
    | token hd =>
      cases hd with
      | comment x y l m =>
        change Alike SettingAlike (read pending ps) (read pending ps)
        exact (Alike.refl _).mono fun _ _ => .inl
      | _ => trivial
  | there p hp ih =>
    cases p with
    | token t =>
      cases t with
      | comment => exact ih pending
      | _ => trivial
    | text t =>
      unfold read
      simp only
      split
      · exact ih _
      · split
        · trivial
        · exact ofValue_alike _ (hp.there _)

theorem mapM_read_alike {ss rs : List Segment} (h : OneDiffers SegmentDiffers ss rs) :
    Alike (fun ps qs => ps = qs ∨ OneDiffers (KeyValue.Differs Token.Differs) ps qs)
      (ss.mapM (read [])) (rs.mapM (read [])) := by
  induction h with
  | here ss hd =>
    rw [List.mapM_cons, List.mapM_cons]
    apply (read_alike [] hd).bind
    intro p q hpq
    apply (Alike.refl (ss.mapM (read []))).bind
    rintro ps _ rfl
    rcases hpq with rfl | hpq
    · exact .inl rfl
    · exact .inr (.here ps hpq)
  | there s _ ih =>
    rw [List.mapM_cons, List.mapM_cons]
    apply (Alike.refl (read [] s)).bind
    rintro p _ rfl
    apply ih.bind
    intro ps qs hpq
    rcases hpq with rfl | hpq
    · exact .inl rfl
    · exact .inr (hpq.there p)

end Setting

theorem OptionValue.ofTokens_alike {ts us : List Token} (h : OneDiffers Token.Differs ts us) :
    Setting.Alike (OptionValue.Differs Token.Differs) (ofTokens ts) (ofTokens us) := by
  have hany := h.any_eq (p := Token.isEquation) fun _ _ hd => hd.isEquation_eq
  unfold ofTokens
  rw [hany]
  split
  · apply (Setting.mapM_read_alike (Setting.segments_differ h)).map
    intro ps qs hpq
    rcases hpq with rfl | hpq
    · exact .skipped _
    · exact .pairs hpq
  · cases h with
    | here as hd =>
      cases as with
      | nil =>
        simp only [hd.isSwitch_eq]
        split
        · exact .single hd
        · exact .tokens (.here [] hd)
      | cons => exact .tokens (.here _ hd)
    | there t h =>
      cases h with
      | here as hd => exact .tokens (.there t (.here as hd))
      | there u h => exact .tokens (.there t (.there u h))

end LatexTokens
