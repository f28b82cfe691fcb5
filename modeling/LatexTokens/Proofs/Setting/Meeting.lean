import Mathlib.Data.List.Chain
import LatexTokens.Proofs.Lexing.Standing
import LatexTokens.Proofs.Setting.Grammar

/-!
# Where texts meet

A text directly behind a text would be a part of it, unless it starts with a bracket. Settings are
cut from the texts of their body at commas and equals signs and are trimmed, but a value has texts
next to each other only where the body has (`OptionValue.textsMeetAtBrackets`).
-/

set_option autoImplicit false

namespace LatexTokens

/-- Whether the second of two adjacent tokens starts with a bracket if both are text. -/
def Token.MeetsAtBracket (a b : Token) : Prop :=
  a.isContent → b.isContent → b.literal.head? = some '['

/-- Whether adjacent texts meet at opening brackets only. -/
def TextsMeetAtBrackets (ts : List Token) : Prop := ts.IsChain Token.MeetsAtBracket

theorem Token.isContent_iff {t : Token} : t.isContent ↔ ∃ x l, t = content x l := by
  cases t <;> simp [isContent]

namespace TextsMeetAtBrackets
variable {a b : Token} {ts us : List Token}

/-- What stands first matters only as a text or no text. -/
theorem replace_head (h : TextsMeetAtBrackets (a :: ts)) (hb : b.isContent → a.isContent) :
    TextsMeetAtBrackets (b :: ts) := h.imp_head fun hmeets hcontent => hmeets (hb hcontent)

theorem replace_last (h : TextsMeetAtBrackets (ts ++ [a])) (hb : b.isContent → a.isContent)
    (hhead : a.literal.head? = some '[' → b.literal.head? = some '[') :
    TextsMeetAtBrackets (ts ++ [b]) := by
  obtain ⟨hts, -, hmeets⟩ := List.isChain_append.mp h
  refine List.isChain_append.mpr ⟨hts, List.isChain_singleton b, ?_⟩
  rintro t ht _ ⟨⟩ hcontent hlast
  exact hhead (hmeets t ht a rfl hcontent (hb hlast))

end TextsMeetAtBrackets

/-- A bracket is not blank, so it stays in front. -/
theorem Token.head?_literal_trimEnd {t : Token} (h : t.literal.head? = some '[') :
    t.trimEnd.literal.head? = some '[' := by
  cases t with
  | content x l =>
    obtain ⟨l, rfl⟩ := List.head?_eq_some_iff.mp h
    rw [trimEnd, literal_ofText, Text.trimEnd_cons]
    split <;> rfl
  | _ => exact h

namespace Setting

/-- What meets the first of some tokens at a bracket meets the first segment there. -/
theorem CutsInto.meets_first {a : Token} {ts : List Token} {s : Segment} {ss : List Segment}
    (h : CutsInto ts (s :: ss)) (ha : ∀ t ∈ ts.head?, a.MeetsAtBracket t) :
    ∀ t ∈ (s.filterMap Piece.token?).head?, a.MeetsAtBracket t := by
  intro t ht hcontent
  cases h with
  | nil => cases ht
  | token =>
    cases ht
    exact ha _ rfl hcontent
  | @text x l =>
    cases l with
    | nil => cases ha _ rfl hcontent rfl
    | cons c l =>
      cases ht
      exact fun _ => ha (.content x (c :: l)) rfl hcontent rfl
  | @comma x l r =>
    cases l with
    | nil => cases ha _ rfl hcontent rfl
    | cons c l =>
      cases ht
      exact fun _ => ha (.content x (c :: l ++ ',' :: r)) rfl hcontent rfl

theorem CutsInto.textsMeetAtBrackets {ts : List Token} {ss : List Segment} (h : CutsInto ts ss)
    (hts : TextsMeetAtBrackets ts) :
    ∀ s ∈ ss, TextsMeetAtBrackets (s.filterMap Piece.token?) := by
  induction h with
  | nil =>
    rw [List.forall_mem_singleton]
    exact List.isChain_nil
  | @token t ts s ss ht h ih =>
    obtain ⟨-, hts⟩ := List.isChain_cons.mp hts
    obtain ⟨hs, hss⟩ := List.forall_mem_cons.mp (ih hts)
    refine List.forall_mem_cons.mpr ⟨List.isChain_cons.mpr ⟨fun u _ hcontent => ?_, hs⟩, hss⟩
    obtain ⟨x, l, rfl⟩ := Token.isContent_iff.mp hcontent
    exact absurd rfl (ht x l)
  | @text x l ts s ss _ h ih =>
    obtain ⟨hmeets, hts⟩ := List.isChain_cons.mp hts
    obtain ⟨hs, hss⟩ := List.forall_mem_cons.mp (ih hts)
    refine List.forall_mem_cons.mpr ⟨?_, hss⟩
    cases l with
    | nil => exact hs
    | cons c l => exact List.isChain_cons.mpr ⟨h.meets_first hmeets, hs⟩
  | @comma x l r ts ss _ _ ih =>
    refine List.forall_mem_cons.mpr ⟨?_, ih (hts.replace_head fun _ => rfl)⟩
    cases l with
    | nil => exact List.isChain_nil
    | cons c l => exact List.isChain_singleton _

theorem TrimsTo.textsMeetAtBrackets {ts us : List Token} (h : TrimsTo ts us)
    (hts : TextsMeetAtBrackets ts) : TextsMeetAtBrackets us := by
  cases h with
  | none => exact List.isChain_nil
  | one => exact List.isChain_singleton _
  | @several lead first inner last trail _ _ hlast _ =>
    have hinner : TextsMeetAtBrackets ((first :: inner) ++ [last]) := by
      refine hts.infix ⟨lead, trail, ?_⟩
      simp
    have hinner : TextsMeetAtBrackets ((first.trimStart :: inner) ++ [last]) := by
      refine hinner.replace_head ?_
      cases first <;> exact id
    refine hinner.replace_last ?_ ?_
    · cases last <;> exact id
    · exact Token.head?_literal_trimEnd

theorem IsSetting.textsMeetAtBrackets {ps : Segment} {kv : KeyValue Token} (h : IsSetting ps kv)
    (hps : TextsMeetAtBrackets (ps.filterMap Piece.token?)) : TextsMeetAtBrackets kv.value := by
  obtain @⟨front, left, right, back, value, -, -, -, htrims, -⟩ := h
  apply htrims.textsMeetAtBrackets
  rw [List.filterMap_append] at hps
  have htext : Piece.token? (.text (left ++ '=' :: right)) =
      some (.ofText (left ++ '=' :: right)) := by cases left <;> rfl
  have hback := hps.right_of_append
  rw [List.filterMap_cons, htext] at hback
  cases right with
  | nil => exact (List.isChain_cons.mp hback).2
  | cons c right => exact TextsMeetAtBrackets.replace_head hback fun _ => rfl

end Setting

theorem OptionValue.textsMeetAtBrackets {ts : List Token} {kvs : List (KeyValue Token)}
    (h : (Setting.segments ts).mapM (Setting.read []) = .ok kvs) (hts : TextsMeetAtBrackets ts) :
    ∀ kv ∈ kvs, TextsMeetAtBrackets kv.value := by
  intro kv hkv
  obtain ⟨s, hs, hread⟩ := exists_mem_of_mapM_eq_ok h kv hkv
  have hcuts := Setting.cutsInto_iff.mpr (Eq.refl (Setting.segments ts))
  have hsetting := (Setting.read_eq_ok_iff (hcuts.isProper s hs)).mp hread
  exact hsetting.textsMeetAtBrackets (hcuts.textsMeetAtBrackets hts s hs)

end LatexTokens
