import LatexTokens.Proofs.Setting.Grammar

/-!
# Settings without their comments

A comment in front of an equals sign is passed over. One in a value is a token of it, and where it
stands first or last the blanks next to it are inside the value and are kept, and the comment may
be all there is. Without its comments a body therefore has the same settings, but with the values
trimmed once more, and none where a value is empty then (`read_uncommentedPieces`). So comments make
no other difference exactly if every value without its comments is there and has no blanks at its
ends (`OptionValue.ofTokens_uncommented_iff`).
-/

set_option autoImplicit false

namespace LatexTokens

def Token.isComment : Token → Bool
  | comment .. => true
  | _ => false

namespace Setting

/-- The tokens that are not comments. -/
def uncommented (ts : List Token) : List Token := ts.filter fun t => !t.isComment

def Piece.isComment : Piece → Bool
  | .text _ => false
  | .token t => t.isComment

/-- The pieces that are not comments. -/
def uncommentedPieces (ps : Segment) : Segment := ps.filter fun p => !p.isComment

/-- The setting with the comments of its value left out. -/
def withoutComments (kv : KeyValue Token) : KeyValue Token := ⟨kv.key, uncommented kv.value⟩

/-- The setting with the comments of its value left out and the value trimmed. -/
def tidied (kv : KeyValue Token) : KeyValue Token := ⟨kv.key, trimmed (uncommented kv.value)⟩

/-- The setting tidied, if that leaves a value. -/
def tidy (kv : KeyValue Token) : Except Cause (KeyValue Token) :=
  if (tidied kv).value = [] then .error (missingEquals (kv.key ++ ['='])) else .ok (tidied kv)

/-- Whether there are tokens, without blanks at the ends. -/
def IsTight (ts : List Token) : Prop := ts ≠ [] ∧ trimmed ts = ts

theorem uncommented_cons (t : Token) (ts : List Token) :
    uncommented (t :: ts) = if t.isComment then uncommented ts else t :: uncommented ts := by
  rw [uncommented, List.filter_cons]
  cases t.isComment <;> rfl

theorem uncommentedPieces_cons (p : Piece) (ps : Segment) :
    uncommentedPieces (p :: ps) =
      if p.isComment then uncommentedPieces ps else p :: uncommentedPieces ps := by
  rw [uncommentedPieces, List.filter_cons]
  cases p.isComment <;> rfl

/-! ## Segments -/

theorem map_addPiece (p : Piece) {ss : List Segment} (h : ss ≠ []) :
    (addPiece p ss).map uncommentedPieces =
      if p.isComment then ss.map uncommentedPieces else addPiece p (ss.map uncommentedPieces) := by
  obtain ⟨s, ss, rfl⟩ := List.exists_cons_of_ne_nil h
  simp only [addPiece, List.map_cons, uncommentedPieces_cons]
  split <;> rfl

theorem map_addTexts (texts : List Text) {ss : List Segment} (h : ss ≠ []) :
    (addTexts texts ss).map uncommentedPieces = addTexts texts (ss.map uncommentedPieces) := by
  induction texts with
  | nil => rfl
  | cons t texts ih =>
    cases texts with
    | nil => exact map_addPiece (.text t) h
    | cons u texts =>
      rw [addTexts_cons t (by simp), addTexts_cons t (by simp), List.map_cons, ih]
      rfl

theorem segments_uncommented (ts : List Token) :
    segments (uncommented ts) = (segments ts).map uncommentedPieces := by
  induction ts with
  | nil => rfl
  | cons t ts ih =>
    have hne := segments_ne_nil ts
    by_cases hc : ∃ x l, t = .content x l
    · obtain ⟨x, l, rfl⟩ := hc
      change addTexts _ (segments (uncommented ts)) = _
      rw [ih, segments, map_addTexts _ hne]
    · have ht : ∀ x l, t ≠ .content x l := fun x l h => hc ⟨x, l, h⟩
      rw [segments_of_not_content ht, map_addPiece _ hne, uncommented_cons, Piece.isComment]
      split
      · exact ih
      · rw [segments_of_not_content ht, ih]

/-! ## Values -/

theorem filterMap_uncommentedPieces (ps : Segment) :
    (uncommentedPieces ps).filterMap Piece.token? = uncommented (ps.filterMap Piece.token?) := by
  induction ps with
  | nil => rfl
  | cons p ps ih =>
    cases p with
    | text t => cases t with
      | nil => exact ih
      | cons c t => exact congrArg (Token.ofText (c :: t) :: ·) ih
    | token t =>
      rw [uncommentedPieces_cons, Piece.isComment, List.filterMap_cons, Piece.token?,
        uncommented_cons]
      split
      · exact ih
      · exact congrArg (t :: ·) ih

theorem value_uncommentedPieces {ps : Segment} (h : IsProper ps) :
    value (uncommentedPieces ps) = trimmed (uncommented (value ps)) := by
  have hfilter : IsProper (uncommentedPieces ps) :=
    fun x l hm => h x l (List.mem_of_mem_filter hm)
  rw [value_eq_trimmed h, value_eq_trimmed hfilter, filterMap_uncommentedPieces]
  exact (trimmed_filter_trimmed (fun _ _ => rfl) _).symm

theorem findSome?_equation_uncommentedPieces (ps : Segment) :
    (uncommentedPieces ps).findSome? Piece.equation? = ps.findSome? Piece.equation? := by
  induction ps with
  | nil => rfl
  | cons p ps ih =>
    cases p with
    | text t =>
      change List.findSome? _ (.text t :: uncommentedPieces ps) = _
      rw [List.findSome?_cons, List.findSome?_cons, ih]
    | token t =>
      rw [uncommentedPieces_cons, List.findSome?_cons]
      split <;> exact ih

theorem ofValue_uncommentedPieces (key : Text) {ps : Segment} (h : IsProper ps) :
    ofValue key (uncommentedPieces ps) = ofValue key ps >>= tidy := by
  rw [ofValue, ofValue, findSome?_equation_uncommentedPieces, value_uncommentedPieces h]
  cases ps.findSome? Piece.equation? with
  | some t => rfl
  | none =>
    cases hvalue : value ps with
    | nil => rfl
    | cons t ts =>
      change _ = tidy ⟨key, t :: ts⟩
      rw [tidy, tidied]
      simp only
      split
      · next hnil => rw [if_pos hnil]
      · next hne => rw [if_neg hne]

/-- A segment without its comments is the setting that it is with them, tidied. -/
theorem read_uncommentedPieces (pending : Text) {ps : Segment} (h : IsProper ps) :
    read pending (uncommentedPieces ps) = read pending ps >>= tidy := by
  induction ps generalizing pending with
  | nil => rfl
  | cons p ps ih =>
    obtain ⟨_, hps⟩ := isProper_cons_iff.mp h
    cases p with
    | token t =>
      cases t with
      | comment x l => exact ih pending hps
      | _ => rfl
    | text t =>
      have hfilter : uncommentedPieces (.text t :: ps) = .text t :: uncommentedPieces ps := rfl
      rw [hfilter, read, read]
      cases (pending ++ t).dropWhile (· ≠ '=') with
      | nil => exact ih _ hps
      | cons c rest =>
        simp only
        split
        · rfl
        · exact ofValue_uncommentedPieces _ (hps.cons_text rest)

theorem tidy_eq_ok_iff {kv kv' : KeyValue Token} :
    tidy kv = .ok kv' ↔ (tidied kv).value ≠ [] ∧ kv' = tidied kv := by
  rw [tidy]
  split
  · next h => simp [h]
  · next h => simp [h, eq_comm]

theorem read_uncommentedPieces_eq_ok_iff {ps : Segment} (h : IsProper ps) {kv' : KeyValue Token} :
    read [] (uncommentedPieces ps) = .ok kv' ↔
      ∃ kv, read [] ps = .ok kv ∧ (tidied kv).value ≠ [] ∧ kv' = tidied kv := by
  rw [read_uncommentedPieces [] h]
  cases read [] ps with
  | error c => simp [bind, Except.bind]
  | ok kv => simp [bind, Except.bind, tidy_eq_ok_iff]

theorem mapM_read_uncommentedPieces {ss : List Segment} (h : ∀ s ∈ ss, IsProper s)
    {kvs' : List (KeyValue Token)} :
    (ss.map uncommentedPieces).mapM (read []) = .ok kvs' ↔
      ∃ kvs, ss.mapM (read []) = .ok kvs ∧ (∀ kv ∈ kvs, (tidied kv).value ≠ []) ∧
        kvs' = kvs.map tidied := by
  simp only [OptionValue.mapM_eq_ok_iff_forall₂, List.forall₂_map_left_iff]
  induction ss generalizing kvs' with
  | nil => simp
  | cons s ss ih =>
    obtain ⟨hs, hss⟩ := List.forall_mem_cons.mp h
    simp only [List.forall₂_cons_left_iff, read_uncommentedPieces_eq_ok_iff hs, ih hss]
    constructor
    · rintro ⟨_, _, ⟨kv, hkv, hne, rfl⟩, ⟨kvs, hkvs, hall, rfl⟩, rfl⟩
      exact ⟨kv :: kvs, ⟨kv, kvs, hkv, hkvs, rfl⟩, List.forall_mem_cons.mpr ⟨hne, hall⟩, rfl⟩
    · rintro ⟨_, ⟨kv, kvs, hkv, hkvs, rfl⟩, hall, rfl⟩
      obtain ⟨hne, hall⟩ := List.forall_mem_cons.mp hall
      exact ⟨_, _, ⟨kv, hkv, hne, rfl⟩, ⟨kvs, hkvs, hall, rfl⟩, rfl⟩

/-! ## Tokens that are left -/

theorem not_isComment_of_mem_trimFirst {trim : Text → Text} {ts : List Token}
    (h : ∀ t ∈ ts, !t.isComment) : ∀ t ∈ trimFirst trim ts, !t.isComment := by
  fun_induction trimFirst trim ts with
  | case1 x l ts hnil ih => exact ih (List.forall_mem_cons.mp h).2
  | case2 x l ts hne => exact List.forall_mem_cons.mpr ⟨rfl, (List.forall_mem_cons.mp h).2⟩
  | case3 => exact h

theorem uncommented_trimmed_uncommented (ts : List Token) :
    uncommented (trimmed (uncommented ts)) = trimmed (uncommented ts) := by
  have hall : ∀ t ∈ uncommented ts, !t.isComment := fun t ht => (List.mem_filter.mp ht).2
  refine List.filter_eq_self.mpr fun t ht => ?_
  refine not_isComment_of_mem_trimFirst (fun u hu => ?_) t (List.mem_reverse.mp ht)
  exact not_isComment_of_mem_trimFirst hall u (List.mem_reverse.mp hu)

theorem withoutComments_tidied_eq_iff (kv : KeyValue Token) :
    withoutComments kv = withoutComments (tidied kv) ↔
      trimmed (uncommented kv.value) = uncommented kv.value := by
  rw [withoutComments, withoutComments, tidied, uncommented_trimmed_uncommented,
    KeyValue.mk.injEq, eq_comm (a := uncommented kv.value)]
  exact and_iff_right rfl

end Setting

namespace OptionValue
open Setting

theorem ofTokens_uncommented_eq_ok_iff {ts : List Token}
    (h : ∃ x l, Token.content x l ∈ ts ∧ '=' ∈ l) {v : OptionValue Token} :
    ofTokens (uncommented ts) = .ok v ↔ ∃ kvs, ofTokens ts = .ok (.pairs kvs) ∧
      (∀ kv ∈ kvs, (tidied kv).value ≠ []) ∧ v = .pairs (kvs.map tidied) := by
  have h' : ∃ x l, Token.content x l ∈ uncommented ts ∧ '=' ∈ l := by
    obtain ⟨x, l, hmem, hl⟩ := h
    exact ⟨x, l, List.mem_filter.mpr ⟨hmem, rfl⟩, hl⟩
  have hproper := (cutsInto_iff.mpr (Eq.refl (segments ts))).isProper
  simp only [ofTokens_eq_ok_iff_mapM h, ofTokens_eq_ok_iff_mapM h', segments_uncommented,
    mapM_read_uncommentedPieces hproper]
  constructor
  · rintro ⟨_, rfl, kvs, hkvs, hall, rfl⟩
    exact ⟨kvs, ⟨kvs, rfl, hkvs⟩, hall, rfl⟩
  · rintro ⟨kvs, ⟨_, heq, hkvs⟩, hall, rfl⟩
    cases heq
    exact ⟨_, rfl, kvs, hkvs, hall, rfl⟩

/-- Whether a body is read the same way with its comments and without them, apart from the comments
in the values. -/
def IgnoresComments (ts : List Token) : Prop :=
  ((∃ v, ofTokens ts = .ok v) ↔ ∃ v, ofTokens (uncommented ts) = .ok v) ∧
    ∀ kvs kvs', ofTokens ts = .ok (.pairs kvs) → ofTokens (uncommented ts) = .ok (.pairs kvs') →
      kvs.map withoutComments = kvs'.map withoutComments

/-- Without its comments a body of settings has the same settings, with values that are trimmed
once more, unless that leaves nothing of a value. So its comments are ignored exactly if no value
without its comments is empty or has a blank at an end. -/
theorem ofTokens_uncommented_iff {ts : List Token}
    (h : ∃ x l, Token.content x l ∈ ts ∧ '=' ∈ l) :
    (∀ v, ofTokens (uncommented ts) = .ok v ↔ ∃ kvs, ofTokens ts = .ok (.pairs kvs) ∧
      (∀ kv ∈ kvs, (tidied kv).value ≠ []) ∧ v = .pairs (kvs.map tidied)) ∧
    (IgnoresComments ts ↔ ∀ kvs, ofTokens ts = .ok (.pairs kvs) →
      ∀ kv ∈ kvs, IsTight (uncommented kv.value)) := by
  refine ⟨fun v => ofTokens_uncommented_eq_ok_iff h, ?_, ?_⟩
  · rintro ⟨hok, hsame⟩ kvs hkvs kv hkv
    obtain ⟨v, hv⟩ := hok.mp ⟨_, hkvs⟩
    obtain ⟨_, hkvs', hne, rfl⟩ := (ofTokens_uncommented_eq_ok_iff h).mp hv
    cases hkvs.symm.trans hkvs'
    have hmap := hsame kvs _ hkvs hv
    rw [List.map_map] at hmap
    have htrim := (withoutComments_tidied_eq_iff kv).mp (List.map_inj_left.mp hmap kv hkv)
    refine ⟨fun hnil => hne kv hkv ?_, htrim⟩
    rw [tidied, htrim, hnil]
  · intro htight
    have hne {kvs : List (KeyValue Token)} (hkvs : ofTokens ts = .ok (.pairs kvs)) :
        ∀ kv ∈ kvs, (tidied kv).value ≠ [] := by
      intro kv hkv
      obtain ⟨hne, htrim⟩ := htight kvs hkvs kv hkv
      rwa [tidied, htrim]
    refine ⟨⟨?_, ?_⟩, ?_⟩
    · rintro ⟨v, hv⟩
      obtain ⟨kvs, rfl, _⟩ := (ofTokens_eq_ok_iff_mapM h).mp hv
      exact ⟨_, (ofTokens_uncommented_eq_ok_iff h).mpr ⟨kvs, hv, hne hv, rfl⟩⟩
    · rintro ⟨v, hv⟩
      obtain ⟨kvs, hkvs, _⟩ := (ofTokens_uncommented_eq_ok_iff h).mp hv
      exact ⟨_, hkvs⟩
    · intro kvs kvs' hkvs hkvs'
      obtain ⟨_, hkvs₂, _, heq⟩ := (ofTokens_uncommented_eq_ok_iff h).mp hkvs'
      cases hkvs.symm.trans hkvs₂
      cases heq
      rw [List.map_map]
      refine List.map_congr_left fun kv hkv => ?_
      exact (withoutComments_tidied_eq_iff kv).mpr (htight kvs hkvs kv hkv).2

/-- Comments in a key, and in front of a value that does not start with a blank. -/
theorem ofTokens_uncommented_iff_key :
    let ts : List Token := [.ofText ['a'], .comment ['n'] ['%', 'n', '\n'], .ofText ['=', ' '],
      .comment ['m'] ['%', 'm', '\n'], .ofText ['b', ' ', ',', 'c', '=', '1']]
    (∃ x l, Token.content x l ∈ ts ∧ '=' ∈ l) ∧
      ofTokens (uncommented ts) =
        .ok (.pairs [⟨['a'], [.ofText ['b']]⟩, ⟨['c'], [.ofText ['1']]⟩]) ∧
      IgnoresComments ts := by
  intro ts
  have h : ∃ x l, Token.content x l ∈ ts ∧ '=' ∈ l :=
    ⟨_, ['=', ' '], List.mem_cons_of_mem _ (List.mem_cons_of_mem _ List.mem_cons_self), by decide⟩
  have hts : ofTokens ts = .ok (.pairs [⟨['a'], [.comment ['m'] ['%', 'm', '\n'], .ofText ['b']]⟩,
      ⟨['c'], [.ofText ['1']]⟩]) := by cbv
  obtain ⟨hread, hignores⟩ := ofTokens_uncommented_iff h
  refine ⟨h, (hread _).mpr ⟨_, hts, ?_, by cbv⟩, hignores.mpr fun kvs hkvs => ?_⟩
  · rw [List.forall_mem_cons, List.forall_mem_singleton]
    exact ⟨List.cons_ne_nil _ _, List.cons_ne_nil _ _⟩
  · cases hkvs.symm.trans hts
    rw [List.forall_mem_cons, List.forall_mem_singleton]
    exact ⟨⟨List.cons_ne_nil _ _, by cbv⟩, List.cons_ne_nil _ _, by cbv⟩

/-- A comment between an equals sign and a blank: with it the value starts with the blank. -/
theorem not_forall_ignoresComments :
    ¬ ∀ ts : List Token, (∃ x l, Token.content x l ∈ ts ∧ '=' ∈ l) → IgnoresComments ts := by
  intro h
  let ts : List Token :=
    [.ofText ['a', '='], .comment ['n'] ['%', 'n', '\n'], .ofText [' ', 'b']]
  have hts : ofTokens ts = .ok (.pairs [⟨['a'],
      [.comment ['n'] ['%', 'n', '\n'], .ofText [' ', 'b']]⟩]) := by cbv
  have hwithout : ofTokens (uncommented ts) = .ok (.pairs [⟨['a'], [.ofText ['b']]⟩]) := by cbv
  have hsame := (h ts ⟨_, ['a', '='], List.mem_cons_self, by decide⟩).2 _ _ hts hwithout
  simp [withoutComments, uncommented, Token.isComment, Token.ofText] at hsame

end OptionValue

end LatexTokens
