import LatexTokens.Proofs.Comment.Relation
import LatexTokens.Proofs.Lexing.Reading

/-!
# First parts of texts that differ in one comment

Two texts that differ in one comment start alike: what is read of them is the same and ends in
front of the comment, or has the comment in it. Text, parameter references and the names of commands
always end in front of it, for they have no percent sign.
-/

set_option autoImplicit false

namespace LatexTokens

namespace Lexing

section
variable (c₁ c₂ : Text)

/-- How the first parts of two texts that differ in a comment can be alike: they are the same and
end in front of the comment, or the comment is in them. -/
inductive FirstAlike {α : Type} (literal : α → Text) (R : α → α → Prop) (u v : Text) :
    α → α → Prop where
  | before {a : α} (u' : Text) : u = literal a ++ u' → FirstAlike literal R u v a a
  | around {a b : α} (x w : Text) : v = x ++ w → literal a = u.withComment c₁ x →
      literal b = u.withComment c₂ x → R a b → FirstAlike literal R u v a b

end

variable {c₁ c₂ : Text}

theorem FirstAlike.map {α β : Type} {l : α → Text} {m : β → Text} {R : α → α → Prop}
    {S : β → β → Prop} {u v : Text} {a b : α} (h : FirstAlike c₁ c₂ l R u v a b) (g : α → β)
    (lead : Text) (hm : ∀ a, m (g a) = lead ++ l a) (hg : ∀ a b, R a b → S (g a) (g b)) :
    FirstAlike c₁ c₂ m S (lead ++ u) v (g a) (g b) := by
  cases h with
  | before u' hu =>
    refine .before u' ?_
    rw [hm, hu, List.append_assoc]
  | around x w hv ha hb hr =>
    refine .around x w hv ?_ ?_ (hg _ _ hr)
    · rw [hm, ha, Text.withComment_append]
    · rw [hm, hb, Text.withComment_append]

/-- What is left of two texts behind first parts that are alike. -/
theorem FirstAlike.rests {α : Type} {l : α → Text} {R : α → α → Prop} {d : Char}
    {u v t₁ t₂ : Text} {a b : α} (h : FirstAlike c₁ c₂ l R u v a b)
    (ht₁ : u.withComment c₁ v = d :: t₁) (ht₂ : u.withComment c₂ v = d :: t₂)
    (ha : l a ≠ []) (hb : l b ≠ []) :
    (a = b ∧ ∃ u', u = l a ++ u' ∧ u'.length < u.length ∧
      t₁.drop (l a).tail.length = Text.withComment u' c₁ v ∧
      t₂.drop (l a).tail.length = Text.withComment u' c₂ v) ∨
    (R a b ∧ ∃ x w, v = x ++ w ∧ l a = u.withComment c₁ x ∧ l b = u.withComment c₂ x ∧
      t₁.drop (l a).tail.length = w ∧ t₂.drop (l b).tail.length = w) := by
  cases h with
  | before u' hu =>
    refine .inl ⟨rfl, u', hu, ?_, ?_, ?_⟩
    · have hlength := congrArg List.length hu
      rw [List.length_append] at hlength
      have := List.length_pos_iff.mpr ha
      omega
    · apply Text.drop_length_tail ha
      rw [← ht₁, hu, Text.withComment_append]
    · apply Text.drop_length_tail ha
      rw [← ht₂, hu, Text.withComment_append]
  | around x w hv hl hm hr =>
    refine .inr ⟨hr, x, w, hv, hl, hm, ?_, ?_⟩
    · apply Text.drop_length_tail ha
      rw [← ht₁, hl, ← Text.append_withComment, hv]
    · apply Text.drop_length_tail hb
      rw [← ht₂, hm, ← Text.append_withComment, hv]

theorem takeWhile_withComment {p : Char → Bool} (hp : p '%' = false) (u c v : Text) :
    (u.withComment c v).takeWhile p = u.takeWhile p := by
  induction u with
  | nil => simp [Text.withComment, hp]
  | cons a u ih => rw [Text.withComment_cons, List.takeWhile_cons, List.takeWhile_cons, ih]

theorem plainRun_withComment (depth : Nat) (u c v : Text) :
    plainRun depth (u.withComment c v) = plainRun depth u := by
  induction u generalizing depth with
  | nil =>
    change plainRun depth ('%' :: (c ++ '\n' :: v)) = []
    rfl
  | cons a u ih =>
    simp only [Text.withComment_cons, plainRun, ih]

theorem plainRun_isPrefix (depth : Nat) (u : Text) : plainRun depth u <+: u := by
  induction u generalizing depth with
  | nil => exact List.nil_prefix
  | cons a u ih =>
    unfold plainRun
    split
    · split
      · exact List.nil_prefix
      · exact List.cons_prefix_cons.mpr ⟨rfl, ih _⟩
    · split
      · split
        · exact List.nil_prefix
        · exact List.cons_prefix_cons.mpr ⟨rfl, ih _⟩
      · split
        · exact List.nil_prefix
        · exact List.cons_prefix_cons.mpr ⟨rfl, ih _⟩

theorem content_withComment (math : Bool) (a : Char) (u c v : Text) :
    content math a (u.withComment c v) = content math a u := by
  have hmath : mathRun (u.withComment c v) = mathRun u := takeWhile_withComment (by decide) u c v
  rw [content, content, hmath, plainRun_withComment]

theorem exists_eq_content (math : Bool) (a : Char) (u : Text) :
    ∃ u', a :: u = (content math a u).literal ++ u' := by
  have key : ∃ u',
      u = (if math then mathRun u else plainRun (if a = '[' then 1 else 0) u) ++ u' := by
    split
    · exact ⟨_, List.takeWhile_append_dropWhile.symm⟩
    · obtain ⟨u', hu⟩ := plainRun_isPrefix (if a = '[' then 1 else 0) u
      exact ⟨u', hu.symm⟩
  obtain ⟨u', hu⟩ := key
  exact ⟨u', congrArg (a :: ·) hu⟩

theorem content_agree (X : Prop) (R : Token → Token → Prop) (math : Bool) (a : Char) (u v : Text) :
    Agree X (FirstAlike c₁ c₂ Token.literal R (a :: u) v)
      (.ok (content math a (u.withComment c₁ v))) (.ok (content math a (u.withComment c₂ v))) := by
  rw [content_withComment, content_withComment]
  obtain ⟨u', hu⟩ := exists_eq_content math a u
  exact .before u' hu

theorem commandName_withComment (u c v : Text) :
    commandName (u.withComment c v) = commandName u := by
  obtain ⟨rest, hu⟩ := List.takeWhile_prefix (p := Char.isAlphanum) (l := u)
  have hdrop : u.drop (u.takeWhile Char.isAlphanum).length = rest :=
    Text.drop_length_of_eq_append hu.symm
  have hdrop' : (u.withComment c v).drop (u.takeWhile Char.isAlphanum).length =
      Text.withComment rest c v := by
    apply Text.drop_length_of_eq_append
    rw [← Text.withComment_append, hu]
  simp only [commandName, takeWhile_withComment (p := Char.isAlphanum) (by decide), hdrop, hdrop']
  cases rest with
  | nil => rfl
  | cons a rest => rfl

theorem commandName_isPrefix (u : Text) : commandName u <+: u := by
  obtain ⟨rest, hu⟩ := List.takeWhile_prefix (p := Char.isAlphanum) (l := u)
  have hdrop : u.drop (u.takeWhile Char.isAlphanum).length = rest :=
    Text.drop_length_of_eq_append hu.symm
  simp only [commandName, hdrop]
  cases rest with
  | nil => exact ⟨[], by simpa using hu⟩
  | cons a rest =>
    by_cases ha : a = '*'
    · exact ⟨rest, by simpa [ha] using hu⟩
    · exact ⟨a :: rest, by simpa [ha] using hu⟩

theorem placeholder_agree (X : Prop) (u v : Text) :
    Agree X (FirstAlike c₁ c₂ Token.literal Token.Differs ('#' :: u) v)
      (placeholder (u.withComment c₁ v)) (placeholder (u.withComment c₂ v)) := by
  have heq (c : Text) : placeholder (u.withComment c v) = placeholder u := by
    simp only [placeholder, takeWhile_withComment (p := Char.isDigit) (by decide)]
  rw [heq, heq]
  apply Agree.of_eq
  intro token h
  obtain ⟨digits, u', rfl, _, _, _, rfl⟩ := placeholder_eq_ok_iff.mp h
  exact .before u' rfl

/-- A comment in front of the place where two texts differ ends there, or the place is in it. -/
theorem comment_agree (h₁ : '\n' ∉ c₁) (h₂ : '\n' ∉ c₂) (X : Prop) (u v : Text) :
    Agree X (FirstAlike c₁ c₂ Token.literal Token.Differs ('%' :: u) v)
      (.ok (comment (u.withComment c₁ v))) (.ok (comment (u.withComment c₂ v))) := by
  by_cases hu : '\n' ∈ u
  · obtain ⟨body, u', rfl, hbody⟩ := List.eq_append_cons_of_mem hu
    have heq (c : Text) : comment (Text.withComment (body ++ '\n' :: u') c v) =
        .comment (withoutReturn body).asWritten ('%' :: (body ++ ['\n'])) := by
      rw [Text.withComment_append]
      exact comment_append hbody (.inl rfl)
    rw [heq, heq]
    refine .before u' ?_
    simp [Token.literal]
  · have heq {c : Text} (hc : '\n' ∉ c) : comment (u.withComment c v) =
        .comment (withoutReturn (u ++ '%' :: c)).asWritten
          ('%' :: ((u ++ '%' :: c) ++ ['\n'])) := by
      have hbody : '\n' ∉ u ++ '%' :: c := by
        simp [hu, hc]
      have h : comment ((u ++ '%' :: c) ++ (['\n'] ++ v)) = _ := comment_append hbody (.inl rfl)
      simpa [Text.withComment] using h
    rw [heq h₁, heq h₂]
    refine .around [] v rfl ?_ ?_ (.comment _ _ _ _)
    · simp [Text.withComment, Token.literal]
    · simp [Text.withComment, Token.literal]

theorem applyTo_agree {X : Prop} {lead u v t₁ t₂ : Text} {construct : String}
    {make : Token → Token} {r s : Except Fault (Option Token)}
    (h : Agree X (Option.Rel (FirstAlike c₁ c₂ Token.literal Token.Differs u v)) r s)
    (hl : ∀ body, (make body).literal = lead ++ body.literal)
    (hd : ∀ t u, Token.Differs t u → Token.Differs (make t) (make u)) :
    Agree X (FirstAlike c₁ c₂ Token.literal Token.Differs (lead ++ u) v)
      (applyTo lead construct make t₁ r) (applyTo lead construct make t₂ s) := by
  unfold applyTo
  refine h.elim ?_ (fun _ _ => trivial) (fun _ _ hX hf => .left hX (hf.shift _) _)
    (fun _ _ hX hg => .right hX (hg.shift _) _)
  intro a b _ _ hab
  cases hab with
  | none => trivial
  | some hab => exact hab.map make lead hl hd

theorem asUnit_alike {u v : Text} {a b : Token}
    (h : FirstAlike c₁ c₂ Token.literal Token.Differs u v a b) :
    Option.Rel (FirstAlike c₁ c₂ Token.literal Token.Differs u v) (asUnit a) (asUnit b) := by
  cases h with
  | before u' hu =>
    cases a with
    | command => exact .some (.before u' hu)
    | accent => exact .some (.before u' hu)
    | _ => exact .none
  | around x w hv ha hb hd =>
    cases hd with
    | command _ _ _ hd => exact .some (.around x w hv ha hb (.command _ _ _ hd))
    | accent _ _ _ _ hd => exact .some (.around x w hv ha hb (.accent _ _ _ _ hd))
    | _ => exact .none

end Lexing

end LatexTokens
