import Mathlib.Data.List.Forall2
import LatexTokens.Proofs.Setting.Collecting

/-!
# The grammar of settings

A segment is a setting if its text has one equals sign, with nothing but text and comments in
front of it, a key there that is not blank, and a value behind it (`IsSetting`). A body with an
equals sign in its text has settings exactly if all of its segments are settings, and then it has
these, in their order (`OptionValue.ofTokens_eq_ok_iff_isSetting`).
-/

set_option autoImplicit false

namespace LatexTokens

namespace Setting

def Piece.chars : Piece → Text
  | .text t => t
  | .token _ => []

/-- The text among some pieces. -/
def textOf (ps : Segment) : Text := ps.flatMap Piece.chars

/-- Whether a piece can stand in front of the equals sign. -/
def Piece.isKeyPart : Piece → Bool
  | .text _ | .token (.comment ..) => true
  | .token _ => false

/-- Whether a segment has the form of a setting. -/
inductive IsSetting : Segment → KeyValue Token → Prop where
  | intro {front : Segment} {left right : Text} {back : Segment} {value : List Token} :
      (∀ p ∈ front, p.isKeyPart) →
      (textOf (front ++ .text (left ++ '=' :: right) :: back)).count '=' = 1 →
      (∃ c ∈ textOf front ++ left, ¬ isBlank c) →
      TrimsTo ((Piece.text right :: back).filterMap Piece.token?) value → value ≠ [] →
      IsSetting (front ++ .text (left ++ '=' :: right) :: back)
        ⟨(textOf front ++ left).trim.typeset, value⟩

theorem textOf_cons (p : Piece) (ps : Segment) : textOf (p :: ps) = p.chars ++ textOf ps := rfl

theorem findSome?_equation_eq_none_iff {ps : Segment} :
    ps.findSome? Piece.equation? = none ↔ '=' ∉ textOf ps := by
  rw [List.findSome?_eq_none_iff]
  induction ps with
  | nil => simp [textOf]
  | cons p ps ih =>
    rw [List.forall_mem_cons, ih, textOf_cons, List.mem_append, not_or]
    cases p <;> simp [Piece.equation?, Piece.chars]

theorem ofValue_eq_ok_iff {key : Text} {ps : Segment} (h : IsProper ps) {kv : KeyValue Token} :
    ofValue key ps = .ok kv ↔ '=' ∉ textOf ps ∧
      ∃ vs, TrimsTo (ps.filterMap Piece.token?) vs ∧ vs ≠ [] ∧ kv = ⟨key, vs⟩ := by
  have hvalue {vs : List Token} : TrimsTo (ps.filterMap Piece.token?) vs ↔ vs = value ps := by
    rw [value_eq_trimmed h]
    exact trimsTo_iff
  simp only [hvalue, exists_eq_left]
  rw [← findSome?_equation_eq_none_iff, ofValue]
  cases ps.findSome? Piece.equation? with
  | some => simp
  | none => cases value ps <;> simp [eq_comm]

theorem takeWhile_ne_append_cons {l : Text} (h : '=' ∉ l) (r : Text) :
    (l ++ '=' :: r).takeWhile (· ≠ '=') = l ∧ (l ++ '=' :: r).dropWhile (· ≠ '=') = '=' :: r := by
  have hl : ∀ c ∈ l, decide (c ≠ '=') := by
    intro c hc
    exact decide_eq_true fun heq => h (heq ▸ hc)
  rw [List.takeWhile_append_of_pos hl, List.dropWhile_append_of_pos hl,
    List.takeWhile_cons_of_neg (by simp), List.dropWhile_cons_of_neg (by simp), List.append_nil]
  exact ⟨rfl, rfl⟩

theorem dropWhile_ne_of_not_mem {l : Text} (h : '=' ∉ l) : l.dropWhile (· ≠ '=') = [] := by
  rw [List.dropWhile_eq_nil_iff]
  intro c hc
  exact decide_eq_true fun heq => h (heq ▸ hc)

theorem read_text_of_not_mem {pending t : Text} (h : '=' ∉ pending ++ t) (ps : Segment) :
    read pending (.text t :: ps) = read (pending ++ t) ps := by
  rw [read, dropWhile_ne_of_not_mem h]

/-- Reading goes through text and comments to the first equals sign. -/
theorem read_append_cons {front : Segment} (hfront : ∀ p ∈ front, p.isKeyPart) {left : Text}
    (pending : Text) (h : '=' ∉ pending ++ (textOf front ++ left)) (right : Text) (back : Segment) :
    read pending (front ++ .text (left ++ '=' :: right) :: back) =
      if (pending ++ (textOf front ++ left)).trim.isEmpty || right.contains '=' then
        .error (missingEquals (pending ++ (textOf front ++ left) ++ '=' :: right))
      else ofValue (pending ++ (textOf front ++ left)).trim.typeset (.text right :: back) := by
  induction front generalizing pending with
  | nil =>
    have hnil : textOf [] ++ left = left := rfl
    rw [hnil] at h ⊢
    obtain ⟨htake, hdrop⟩ := takeWhile_ne_append_cons h right
    rw [List.nil_append, read, ← List.append_assoc, htake, hdrop]
  | cons p front ih =>
    obtain ⟨hp, hrest⟩ := List.forall_mem_cons.mp hfront
    cases p with
    | text t =>
      rw [textOf_cons, Piece.chars, List.append_assoc, ← List.append_assoc] at h ⊢
      have ht : '=' ∉ pending ++ t := fun hm => h (List.mem_append_left _ hm)
      rw [List.cons_append, read_text_of_not_mem ht, ih hrest _ h]
    | token t =>
      cases t with
      | comment x l => exact ih hrest pending h
      | _ => cases hp

theorem exists_key_of_read {pending : Text} {ps : Segment} {kv : KeyValue Token}
    (h : read pending ps = .ok kv) (hpending : '=' ∉ pending) :
    ∃ front left right back, ps = front ++ .text (left ++ '=' :: right) :: back ∧
      (∀ p ∈ front, p.isKeyPart) ∧ '=' ∉ pending ++ (textOf front ++ left) := by
  induction ps generalizing pending with
  | nil => cases h
  | cons p ps ih =>
    cases p with
    | text t =>
      by_cases ht : '=' ∈ t
      · obtain ⟨left, right, rfl, hleft⟩ := List.eq_append_cons_of_mem ht
        refine ⟨[], left, right, ps, rfl, by simp, fun hm => ?_⟩
        exact (List.mem_append.mp hm).elim hpending hleft
      · have hnot : '=' ∉ pending ++ t := fun hm => (List.mem_append.mp hm).elim hpending ht
        rw [read_text_of_not_mem hnot] at h
        obtain ⟨front, left, right, back, rfl, hfront, hkey⟩ := ih h hnot
        refine ⟨.text t :: front, left, right, back, rfl,
          List.forall_mem_cons.mpr ⟨rfl, hfront⟩, ?_⟩
        rwa [textOf_cons, Piece.chars, List.append_assoc, ← List.append_assoc]
    | token t =>
      cases t with
      | comment x l =>
        obtain ⟨front, left, right, back, rfl, hfront, hkey⟩ := ih h hpending
        exact ⟨.token (.comment x l) :: front, left, right, back, rfl,
          List.forall_mem_cons.mpr ⟨rfl, hfront⟩, hkey⟩
      | _ => cases h

theorem textOf_append_cons (front : Segment) (left right : Text) (back : Segment) :
    textOf (front ++ .text (left ++ '=' :: right) :: back) =
      (textOf front ++ left) ++ '=' :: textOf (.text right :: back) := by
  simp [textOf, Piece.chars]

theorem count_textOf_eq_one_iff {front : Segment} {left right : Text} {back : Segment} :
    (textOf (front ++ .text (left ++ '=' :: right) :: back)).count '=' = 1 ↔
      '=' ∉ textOf front ++ left ∧ '=' ∉ textOf (.text right :: back) := by
  rw [textOf_append_cons, List.count_append, List.count_cons_self, ← List.count_eq_zero,
    ← List.count_eq_zero]
  omega

/-- A whole segment is read as a setting exactly if it has the form of one. -/
theorem read_eq_ok_iff {ps : Segment} (hps : IsProper ps) {kv : KeyValue Token} :
    read [] ps = .ok kv ↔ IsSetting ps kv := by
  have hvalue {front : Segment} {left right : Text} {back : Segment}
      (h : IsProper (front ++ .text (left ++ '=' :: right) :: back)) :
      IsProper (.text right :: back) :=
    IsProper.cons_text (fun x l hm =>
      h x l (List.mem_append_right _ (List.mem_cons_of_mem _ hm))) right
  constructor
  · intro h
    obtain ⟨front, left, right, back, rfl, hfront, hkey⟩ := exists_key_of_read h (by simp)
    rw [List.nil_append] at hkey
    rw [read_append_cons hfront [] hkey] at h
    split at h
    · cases h
    · next hne =>
      rw [Bool.or_eq_true, not_or, List.nil_append, List.isEmpty_iff, Text.trim_eq_nil] at hne
      obtain ⟨hback, vs, hvs, hvsne, rfl⟩ := (ofValue_eq_ok_iff (hvalue hps)).mp h
      refine .intro hfront (count_textOf_eq_one_iff.mpr ⟨hkey, hback⟩) ?_ hvs hvsne
      simpa using hne.1
  · rintro ⟨hfront, hcount, hblank, hvs, hvsne⟩
    obtain ⟨hkey, hback⟩ := count_textOf_eq_one_iff.mp hcount
    obtain ⟨c, hc, hcblank⟩ := hblank
    have hne := mt Text.trim_eq_nil.mp fun hall => hcblank (hall c hc)
    rw [read_append_cons hfront [] hkey, if_neg]
    · exact (ofValue_eq_ok_iff (hvalue hps)).mpr ⟨hback, _, hvs, hvsne, rfl⟩
    · rw [Bool.or_eq_true, not_or, List.nil_append, List.isEmpty_iff]
      refine ⟨hne, fun hm => hback ?_⟩
      exact List.mem_append_left _ (List.contains_iff_mem.mp hm)

end Setting

namespace OptionValue

theorem mapM_eq_ok_iff_forall₂ {α β ε : Type} {f : α → Except ε β} {as : List α} {bs : List β} :
    as.mapM f = .ok bs ↔ List.Forall₂ (fun a b => f a = .ok b) as bs := by
  constructor
  · intro h
    induction as generalizing bs with
    | nil =>
      cases h
      exact .nil
    | cons a as ih =>
      obtain ⟨b, bs', hf, hm, rfl⟩ := exists_of_mapM_cons_eq_ok h
      exact .cons hf (ih hm)
  · intro h
    induction h with
    | nil => rfl
    | cons hf _ ih =>
      rw [List.mapM_cons, hf, ih]
      rfl

theorem exists_forall₂_iff {α β : Type} {R : α → β → Prop} {as : List α} :
    (∃ bs, List.Forall₂ R as bs) ↔ ∀ a ∈ as, ∃ b, R a b := by
  induction as with
  | nil => exact ⟨fun _ => by simp, fun _ => ⟨[], .nil⟩⟩
  | cons a as ih =>
    rw [List.forall_mem_cons, ← ih]
    constructor
    · rintro ⟨_, _ | ⟨hb, hbs⟩⟩
      exact ⟨⟨_, hb⟩, _, hbs⟩
    · rintro ⟨⟨b, hb⟩, bs, hbs⟩
      exact ⟨b :: bs, .cons hb hbs⟩

theorem mapM_read_eq_ok_iff {ts : List Token} {kvs : List (KeyValue Token)} :
    (Setting.segments ts).mapM (Setting.read []) = .ok kvs ↔
      List.Forall₂ Setting.IsSetting (Setting.segments ts) kvs := by
  have hproper := (Setting.cutsInto_iff.mpr (Eq.refl (Setting.segments ts))).isProper
  rw [mapM_eq_ok_iff_forall₂]
  constructor <;> intro h
  · refine ((List.forall₂_and_left _ _).mpr ⟨hproper, h⟩).imp ?_
    exact fun s kv hs => (Setting.read_eq_ok_iff hs.1).mp hs.2
  · refine ((List.forall₂_and_left _ _).mpr ⟨hproper, h⟩).imp ?_
    exact fun s kv hs => (Setting.read_eq_ok_iff hs.1).mpr hs.2

theorem ofTokens_of_isEquation {ts : List Token} (h : ∃ x l, Token.content x l ∈ ts ∧ '=' ∈ l) :
    ofTokens ts = ((Setting.segments ts).mapM (Setting.read [])).map .pairs := by
  obtain ⟨x, l, hmem, hl⟩ := h
  have hany : ts.any Token.isEquation :=
    List.any_eq_true.mpr ⟨_, hmem, List.contains_iff_mem.mpr hl⟩
  unfold ofTokens
  rw [if_pos hany]

theorem ofTokens_eq_ok_iff_mapM {ts : List Token} (h : ∃ x l, Token.content x l ∈ ts ∧ '=' ∈ l)
    {v : OptionValue Token} : ofTokens ts = .ok v ↔
      ∃ kvs, v = .pairs kvs ∧ (Setting.segments ts).mapM (Setting.read []) = .ok kvs := by
  rw [ofTokens_of_isEquation h]
  cases (Setting.segments ts).mapM (Setting.read []) with
  | error => simp [Except.map]
  | ok kvs => simp [Except.map, eq_comm]

open Setting in
/-- A body with an equals sign in its text falls into segments at the commas of its text, in one
way. It is read, in one pass, exactly if each segment has the form of a setting, and gives the
settings of the segments, in order. -/
theorem ofTokens_eq_ok_iff_isSetting {ts : List Token}
    (h : ∃ x l, Token.content x l ∈ ts ∧ '=' ∈ l) :
    ofTokens ts = collect ts ∧
      ∃ ss, (∀ rs, CutsInto ts rs ↔ rs = ss) ∧
        ((∃ v, ofTokens ts = .ok v) ↔ ∀ s ∈ ss, ∃ kv, IsSetting s kv) ∧
        ∀ v, ofTokens ts = .ok v ↔ ∃ kvs, v = .pairs kvs ∧ List.Forall₂ IsSetting ss kvs := by
  have hread (v : OptionValue Token) : ofTokens ts = .ok v ↔
      ∃ kvs, v = .pairs kvs ∧ List.Forall₂ IsSetting (segments ts) kvs := by
    simp only [ofTokens_eq_ok_iff_mapM h, mapM_read_eq_ok_iff]
  refine ⟨(ofTokens_of_isEquation h).trans (collect_eq ts).symm, segments ts,
    fun rs => cutsInto_iff, ?_, hread⟩
  rw [← exists_forall₂_iff]
  constructor
  · rintro ⟨v, hv⟩
    obtain ⟨kvs, _, hkvs⟩ := (hread v).mp hv
    exact ⟨kvs, hkvs⟩
  · rintro ⟨kvs, hkvs⟩
    exact ⟨.pairs kvs, (hread _).mpr ⟨kvs, rfl, hkvs⟩⟩

/-- A key with a comment in it, and a value whose blanks are kept inside and dropped at the ends. -/
theorem ofTokens_eq_ok_iff_isSetting_comment :
    let ts : List Token := [.ofText ['a'], .comment ['n'] ['%', 'n', '\n'],
      .ofText ['b', '=', ' '], .command ['x'] [] ['\\', 'x'],
      .ofText [' ', 'c', ' ', ',', 'd', '=', '1']]
    let kvs : List (KeyValue Token) :=
      [⟨['a', 'b'], [.command ['x'] [] ['\\', 'x'], .ofText [' ', 'c']]⟩,
        ⟨['d'], [.ofText ['1']]⟩]
    (∃ x l, Token.content x l ∈ ts ∧ '=' ∈ l) ∧ ofTokens ts = .ok (.pairs kvs) ∧
      ∃ ss, Setting.CutsInto ts ss ∧ List.Forall₂ Setting.IsSetting ss kvs := by
  intro ts kvs
  have h : ∃ x l, Token.content x l ∈ ts ∧ '=' ∈ l :=
    ⟨_, ['b', '=', ' '], List.mem_cons_of_mem _ (List.mem_cons_of_mem _ List.mem_cons_self),
      by decide⟩
  obtain ⟨hpass, ss, hcut, _, hread⟩ := ofTokens_eq_ok_iff_isSetting h
  have hok : ofTokens ts = .ok (.pairs kvs) := by
    rw [hpass]
    cbv
  obtain ⟨_, heq, hss⟩ := (hread _).mp hok
  cases heq
  exact ⟨h, hok, ss, (hcut ss).mpr rfl, hss⟩

end OptionValue

end LatexTokens
