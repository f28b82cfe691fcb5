import LatexTokens.Setting

/-!
# What reading settings can give

Text in the body of an optional argument can be cut at commas and equals signs and trimmed, but
every other token of a value is a token of the body, unchanged. Where the body is not of the form
of settings, the cause is one of two.
-/

set_option autoImplicit false

namespace LatexTokens

/-- Whether a cause is one that the body of an optional argument can have as a whole. -/
def Cause.IsOfSettings : Cause → Prop
  | .missingEquals _ | .valueWithoutKey => True
  | _ => False

namespace Setting

/-- Whether a token is one of some tokens or a text. -/
def ComesFrom (ts : List Token) (t : Token) : Prop := t ∈ ts ∨ ∃ l, t = .ofText l

/-- Whether all tokens among some pieces are of the given ones. -/
def Draws (ts : List Token) (ps : Segment) : Prop := ∀ t, Piece.token t ∈ ps → t ∈ ts

theorem Draws.tail {ts : List Token} {p : Piece} {ps : Segment} (h : Draws ts (p :: ps)) :
    Draws ts ps := fun t ht => h t (List.mem_cons_of_mem p ht)

theorem draws_addPiece {ts : List Token} {p : Piece} {ss : List Segment}
    (hp : ∀ t, p = .token t → t ∈ ts) (h : ∀ s ∈ ss, Draws ts s) :
    ∀ s ∈ addPiece p ss, Draws ts s := by
  intro s hs t ht
  cases ss with
  | nil =>
    cases List.mem_singleton.mp hs
    exact hp t (List.mem_singleton.mp ht).symm
  | cons s' ss =>
    rcases List.mem_cons.mp hs with rfl | hs
    · rcases List.mem_cons.mp ht with ht | ht
      · exact hp t ht.symm
      · exact h s' List.mem_cons_self t ht
    · exact h s (List.mem_cons_of_mem s' hs) t ht

theorem draws_addTexts {ts : List Token} {texts : List Text} {ss : List Segment}
    (h : ∀ s ∈ ss, Draws ts s) : ∀ s ∈ addTexts texts ss, Draws ts s := by
  induction texts with
  | nil => exact h
  | cons t texts ih =>
    cases texts with
    | nil =>
      apply draws_addPiece _ h
      intro t ht
      cases ht
    | cons u texts =>
      intro s hs
      rcases List.mem_cons.mp hs with rfl | hs
      · intro t ht
        cases List.mem_singleton.mp ht
      · exact ih s hs

theorem draws_segments (ts : List Token) : ∀ s ∈ segments ts, Draws ts s := by
  induction ts with
  | nil =>
    intro s hs t ht
    cases List.mem_singleton.mp hs
    cases ht
  | cons t ts ih =>
    have hrest : ∀ s ∈ segments ts, Draws (t :: ts) s := by
      intro s hs u hu
      exact List.mem_cons_of_mem t (ih s hs u hu)
    unfold segments
    split
    · next h => cases h
    · next h =>
      cases h
      exact draws_addTexts hrest
    · next h =>
      cases h
      apply draws_addPiece _ hrest
      intro u hu
      cases hu
      exact List.mem_cons_self

theorem comesFrom_of_mem_filterMap {ts : List Token} {ps : Segment} (h : Draws ts ps) :
    ∀ t ∈ ps.filterMap Piece.token?, ComesFrom ts t := by
  intro t ht
  obtain ⟨p, hp, htoken⟩ := List.mem_filterMap.mp ht
  unfold Piece.token? at htoken
  split at htoken <;> cases htoken
  · exact .inr ⟨_, rfl⟩
  · exact .inl (h t hp)

theorem comesFrom_of_mem_trimmedStart {ts : List Token} {ps : Segment} (h : Draws ts ps) :
    ∀ t ∈ trimmedStart ps, ComesFrom ts t := by
  induction ps with
  | nil =>
    intro t ht
    cases ht
  | cons p ps ih =>
    intro t ht
    cases p with
    | text l =>
      unfold trimmedStart at ht
      split at ht
      · exact ih h.tail t ht
      · rcases List.mem_cons.mp ht with rfl | ht
        · exact .inr ⟨_, rfl⟩
        · exact comesFrom_of_mem_filterMap h.tail t ht
    | token u =>
      rcases List.mem_cons.mp ht with rfl | ht
      · exact .inl (h t List.mem_cons_self)
      · exact comesFrom_of_mem_filterMap h.tail t ht

theorem comesFrom_of_mem_trimmedEnd {ts us : List Token} (h : ∀ t ∈ us, ComesFrom ts t) :
    ∀ t ∈ trimmedEnd us, ComesFrom ts t := by
  fun_induction trimmedEnd us with
  | case1 text literal us htrim ih =>
    exact ih fun t ht => h t (List.mem_cons_of_mem _ ht)
  | case2 text literal us hne =>
    intro t ht
    rcases List.mem_cons.mp ht with rfl | ht
    · exact .inr ⟨_, rfl⟩
    · exact h t (List.mem_cons_of_mem _ ht)
  | case3 => exact h

theorem comesFrom_of_mem_value {ts : List Token} {ps : Segment} (h : Draws ts ps) :
    ∀ t ∈ value ps, ComesFrom ts t := by
  intro t ht
  refine comesFrom_of_mem_trimmedEnd ?_ t (List.mem_reverse.mp ht)
  intro u hu
  exact comesFrom_of_mem_trimmedStart h u (List.mem_reverse.mp hu)

theorem value_eq_of_ofValue {key : Text} {ps : Segment} {kv : KeyValue Token}
    (h : ofValue key ps = .ok kv) : kv.value = value ps := by
  unfold ofValue at h
  split at h
  · cases h
  · split at h
    · cases h
    · cases h
      rfl

theorem comesFrom_of_read {ts : List Token} {pending : Text} {ps : Segment} {kv : KeyValue Token}
    (hps : Draws ts ps) (h : read pending ps = .ok kv) : ∀ t ∈ kv.value, ComesFrom ts t := by
  fun_induction read pending ps with
  | case1 => cases h
  | case2 pending ps _ _ ih => exact ih hps.tail h
  | case3 => cases h
  | case4 pending t ps segment hrest ih => exact ih hps.tail h
  | case5 => cases h
  | case6 pending t ps segment key c rest hrest hkey =>
    rw [value_eq_of_ofValue h]
    apply comesFrom_of_mem_value
    intro u hu
    exact hps.tail u ((List.mem_cons.mp hu).resolve_left (by simp))

theorem isOfSettings_of_ofValue {key : Text} {ps : Segment} {c : Cause}
    (h : ofValue key ps = .error c) : c.IsOfSettings := by
  unfold ofValue at h
  split at h
  · cases h
    trivial
  · split at h
    · cases h
      trivial
    · cases h

theorem isOfSettings_of_read {pending : Text} {ps : Segment} {c : Cause}
    (h : read pending ps = .error c) : c.IsOfSettings := by
  fun_induction read pending ps with
  | case1 =>
    cases h
    trivial
  | case2 pending ps _ _ ih => exact ih h
  | case3 =>
    cases h
    trivial
  | case4 pending t ps segment hrest ih => exact ih h
  | case5 =>
    cases h
    trivial
  | case6 => exact isOfSettings_of_ofValue h

end Setting

namespace OptionValue

theorem exists_of_mapM_cons_eq_ok {α β ε : Type} {f : α → Except ε β} {a : α} {as : List α}
    {bs : List β} (h : (a :: as).mapM f = .ok bs) :
    ∃ b bs', f a = .ok b ∧ as.mapM f = .ok bs' ∧ bs = b :: bs' := by
  rw [List.mapM_cons] at h
  rcases hf : f a with e | b
  · rw [hf] at h
    cases h
  · rcases hm : as.mapM f with e | bs'
    · rw [hf, hm] at h
      cases h
    · rw [hf, hm] at h
      cases h
      exact ⟨b, bs', rfl, rfl, rfl⟩

theorem exists_mem_of_mapM_eq_ok {α β ε : Type} {f : α → Except ε β} {as : List α} {bs : List β}
    (h : as.mapM f = .ok bs) : ∀ b ∈ bs, ∃ a ∈ as, f a = .ok b := by
  induction as generalizing bs with
  | nil =>
    cases h
    intro b hb
    cases hb
  | cons a as ih =>
    obtain ⟨b, bs', hf, hm, rfl⟩ := exists_of_mapM_cons_eq_ok h
    intro c hc
    rcases List.mem_cons.mp hc with rfl | hc
    · exact ⟨a, List.mem_cons_self, hf⟩
    · obtain ⟨a', ha', hb⟩ := ih hm c hc
      exact ⟨a', List.mem_cons_of_mem a ha', hb⟩

/-- The three forms of a body. -/
theorem cases_of_ofTokens {ts : List Token} {value : OptionValue Token}
    (h : ofTokens ts = .ok value) :
    (∃ kvs, (Setting.segments ts).mapM (Setting.read []) = .ok kvs ∧ value = .pairs kvs) ∨
      (∃ t, ts = [t] ∧ t.isSwitch ∧ value = .single t) ∨ value = .tokens ts := by
  unfold ofTokens at h
  split at h
  · rcases hm : (Setting.segments ts).mapM (Setting.read []) with cause | kvs
    · rw [hm] at h
      cases h
    · rw [hm] at h
      cases h
      exact .inl ⟨kvs, rfl, rfl⟩
  · split at h
    · next t _ =>
      split at h
      · next hs =>
        cases h
        exact .inr (.inl ⟨t, rfl, hs, rfl⟩)
      · cases h
        exact .inr (.inr rfl)
    · cases h
      exact .inr (.inr rfl)

theorem comesFrom_of_mapM_read {ts : List Token} {kvs : List (KeyValue Token)}
    (h : (Setting.segments ts).mapM (Setting.read []) = .ok kvs) :
    ∀ kv ∈ kvs, ∀ t ∈ kv.value, Setting.ComesFrom ts t := by
  intro kv hkv
  obtain ⟨s, hs, hread⟩ := exists_mem_of_mapM_eq_ok h kv hkv
  exact Setting.comesFrom_of_read (Setting.draws_segments ts s hs) hread

theorem exists_mem_of_mapM_eq_error {α β ε : Type} {f : α → Except ε β} {as : List α}
    {e : ε} (h : as.mapM f = .error e) : ∃ a ∈ as, f a = .error e := by
  induction as with
  | nil => cases h
  | cons a as ih =>
    rw [List.mapM_cons] at h
    rcases hf : f a with e' | b
    · rw [hf] at h
      cases h
      exact ⟨a, List.mem_cons_self, hf⟩
    · rcases hm : as.mapM f with e' | bs
      · rw [hf, hm] at h
        cases h
        obtain ⟨a', ha', he⟩ := ih hm
        exact ⟨a', List.mem_cons_of_mem a ha', he⟩
      · rw [hf, hm] at h
        cases h

theorem isOfSettings_of_ofTokens {ts : List Token} {c : Cause}
    (h : ofTokens ts = .error c) : c.IsOfSettings := by
  unfold ofTokens at h
  split at h
  · rcases hm : (Setting.segments ts).mapM (Setting.read []) with c' | kvs
    · rw [hm] at h
      cases h
      obtain ⟨s, _, hread⟩ := exists_mem_of_mapM_eq_error hm
      exact Setting.isOfSettings_of_read hread
    · rw [hm] at h
      cases h
  · split at h <;> cases h

end OptionValue

end LatexTokens
