import LatexTokens.Proofs.Setting.Outcome

/-!
# What reading settings keeps

Reading settings drops commas, equals signs, blanks, and the comments in keys. Every other token
of the body is in the value of one of the settings (`OptionValue.exists_mem_value`): a token that
is neither text nor a comment cannot stand in a key.
-/

set_option autoImplicit false

namespace LatexTokens

/-- Whether reading settings can drop the token. -/
def Token.isDroppable : Token → Bool
  | content .. | comment .. => true
  | _ => false

namespace Setting

/-- Whether a token is among the pieces of some segment. -/
def Among (t : Token) (ss : List Segment) : Prop := ∃ s ∈ ss, Piece.token t ∈ s

theorem Among.addPiece {t : Token} {ss : List Segment} (h : Among t ss) (p : Piece) :
    Among t (addPiece p ss) := by
  obtain ⟨s, hs, ht⟩ := h
  cases ss with
  | nil => cases hs
  | cons s' ss =>
    rcases List.mem_cons.mp hs with rfl | hs
    · exact ⟨p :: s, List.mem_cons_self, List.mem_cons_of_mem p ht⟩
    · exact ⟨s, List.mem_cons_of_mem _ hs, ht⟩

theorem among_addPiece (t : Token) (ss : List Segment) : Among t (addPiece (.token t) ss) := by
  cases ss with
  | nil => exact ⟨[.token t], List.mem_cons_self, List.mem_cons_self⟩
  | cons s ss => exact ⟨.token t :: s, List.mem_cons_self, List.mem_cons_self⟩

theorem Among.addTexts {t : Token} {ss : List Segment} (h : Among t ss) (texts : List Text) :
    Among t (addTexts texts ss) := by
  induction texts with
  | nil => exact h
  | cons u texts ih =>
    cases texts with
    | nil => exact h.addPiece _
    | cons v texts =>
      obtain ⟨s, hs, ht⟩ := ih
      exact ⟨s, List.mem_cons_of_mem _ hs, ht⟩

theorem among_segments {t : Token} {ts : List Token} (ht : t ∈ ts)
    (hd : t.isDroppable = false) : Among t (segments ts) := by
  induction ts with
  | nil => cases ht
  | cons u ts ih =>
    unfold segments
    split
    · next h => cases h
    · next h =>
      cases h
      rcases List.mem_cons.mp ht with rfl | ht
      · cases hd
      · exact (ih ht).addTexts _
    · next h =>
      cases h
      rcases List.mem_cons.mp ht with rfl | ht
      · exact among_addPiece t _
      · exact (ih ht).addPiece _

theorem mem_filterMap_token? {t : Token} {ps : Segment} (h : Piece.token t ∈ ps) :
    t ∈ ps.filterMap Piece.token? := List.mem_filterMap.mpr ⟨_, h, rfl⟩

theorem mem_trimmedStart {t : Token} {ps : Segment} (h : Piece.token t ∈ ps) :
    t ∈ trimmedStart ps := by
  induction ps with
  | nil => cases h
  | cons p ps ih =>
    cases p with
    | text l =>
      have hps : Piece.token t ∈ ps := (List.mem_cons.mp h).resolve_left (by simp)
      unfold trimmedStart
      split
      · exact ih hps
      · exact List.mem_cons_of_mem _ (mem_filterMap_token? hps)
    | token u =>
      rcases List.mem_cons.mp h with h | h
      · cases h
        exact List.mem_cons_self
      · exact List.mem_cons_of_mem u (mem_filterMap_token? h)

theorem mem_trimmedEnd {t : Token} {us : List Token} (h : t ∈ us) (hd : t.isDroppable = false) :
    t ∈ trimmedEnd us := by
  fun_induction trimmedEnd us with
  | case1 text literal us htrim ih =>
    rcases List.mem_cons.mp h with rfl | h
    · cases hd
    · exact ih h
  | case2 text literal us hne =>
    rcases List.mem_cons.mp h with rfl | h
    · cases hd
    · exact List.mem_cons_of_mem _ h
  | case3 => exact h

theorem mem_value {t : Token} {ps : Segment} (h : Piece.token t ∈ ps)
    (hd : t.isDroppable = false) : t ∈ value ps :=
  List.mem_reverse.mpr (mem_trimmedEnd (List.mem_reverse.mpr (mem_trimmedStart h)) hd)

theorem mem_value_of_read {t : Token} {pending : Text} {ps : Segment} {kv : KeyValue Token}
    (h : read pending ps = .ok kv) (ht : Piece.token t ∈ ps) (hd : t.isDroppable = false) :
    t ∈ kv.value := by
  fun_induction read pending ps with
  | case1 => cases h
  | case2 pending ps text literal ih =>
    rcases List.mem_cons.mp ht with ht | ht
    · cases ht
      cases hd
    · exact ih h ht
  | case3 => cases h
  | case4 pending u ps segment hrest ih =>
    exact ih h ((List.mem_cons.mp ht).resolve_left (by simp))
  | case5 => cases h
  | case6 pending u ps segment key c rest hrest hkey =>
    rw [value_eq_of_ofValue h]
    apply mem_value _ hd
    exact List.mem_cons_of_mem _ ((List.mem_cons.mp ht).resolve_left (by simp))

end Setting

namespace OptionValue

theorem exists_eq_ok_of_mapM_eq_ok {α β ε : Type} {f : α → Except ε β} {as : List α}
    {bs : List β} (h : as.mapM f = .ok bs) : ∀ a ∈ as, ∃ b ∈ bs, f a = .ok b := by
  induction as generalizing bs with
  | nil =>
    intro a ha
    cases ha
  | cons a as ih =>
    obtain ⟨b, bs', hf, hm, rfl⟩ := exists_of_mapM_cons_eq_ok h
    intro c hc
    rcases List.mem_cons.mp hc with rfl | hc
    · exact ⟨b, List.mem_cons_self, hf⟩
    · obtain ⟨b', hb', hf'⟩ := ih hm c hc
      exact ⟨b', List.mem_cons_of_mem b hb', hf'⟩

/-- Every token of a body of settings, text and comments aside, is in one of the values. -/
theorem exists_mem_value {ts : List Token} {kvs : List (KeyValue Token)}
    (h : (Setting.segments ts).mapM (Setting.read []) = .ok kvs) {t : Token} (ht : t ∈ ts)
    (hd : t.isDroppable = false) : ∃ kv ∈ kvs, t ∈ kv.value := by
  obtain ⟨s, hs, hpiece⟩ := Setting.among_segments ht hd
  obtain ⟨kv, hkv, hread⟩ := exists_eq_ok_of_mapM_eq_ok h s hs
  exact ⟨kv, hkv, Setting.mem_value_of_read hread hpiece hd⟩

end OptionValue

end LatexTokens
