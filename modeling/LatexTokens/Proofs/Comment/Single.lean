import LatexTokens.Proofs.Comment.Leaf
import LatexTokens.Proofs.Comment.Scanning
import LatexTokens.Proofs.Comment.Settings

/-!
# Reading one token passes over comments

Each reader reads two texts alike that differ in one comment, if regions are read so. The one
exception is a fault of a stray bracket in a formula: whether a closing bracket is text there hangs
on the number of brackets that are open, and those in comments are counted.
-/

set_option autoImplicit false

namespace LatexTokens

namespace Lexing

section
variable (c₁ c₂ : Text)

/-- Whether a formula can be around a comment between two texts: what stands from an opening in
front of the comment up to a closing behind it is what these delimiters enclose. -/
def InFormula (c u v : Text) : Prop := ∃ (f : Fence) (y z : Text),
  (Enclosure.formula f).opening ++ y <:+ u ∧ z ++ (Enclosure.formula f).closing <+: v ∧
    (Enclosure.formula f).Encloses (y.withComment c z)

/-- Whether the brackets in two comments differ, and the comments are in a formula. -/
def Exposed (math : Bool) (u v : Text) : Prop :=
  (∃ n, openBrackets n c₁ ≠ openBrackets n c₂) ∧ (math = true ∨ InFormula c₁ u v)

/-- Whether a reader of regions reads texts alike that differ in the comment. -/
def Respects (nested : RegionLexer) : Prop := ∀ math u v,
  Agree (Exposed c₁ c₂ math u v) (OneDiffers Token.Differs) (nested math (u.withComment c₁ v))
    (nested math (u.withComment c₂ v))

end

variable {c₁ c₂ : Text}

theorem Exposed.append {math : Bool} {u v : Text} (h : Exposed c₁ c₂ math u v) (lead : Text) :
    Exposed c₁ c₂ math (lead ++ u) v := by
  obtain ⟨hb, hm | ⟨f, y, z, hy, hz, he⟩⟩ := h
  · exact ⟨hb, .inl hm⟩
  · exact ⟨hb, .inr ⟨f, y, z, hy.trans (List.suffix_append lead u), hz, he⟩⟩

theorem Exposed.around {math : Bool} {e : Enclosure} {u x w : Text}
    (he : e.Encloses (u.withComment c₁ x)) (h : Exposed c₁ c₂ (math || e.isFormula) u x) :
    Exposed c₁ c₂ math (e.opening ++ u) (x ++ (e.closing ++ w)) := by
  obtain ⟨hb, hm | ⟨f, y, z, hy, hz, hf⟩⟩ := h
  · rcases Bool.or_eq_true_iff.mp hm with hm | hm
    · exact ⟨hb, .inl hm⟩
    · cases e with
      | group => cases hm
      | formula f =>
        refine ⟨hb, .inr ⟨f, u, x, List.suffix_rfl, ?_, he⟩⟩
        rw [← List.append_assoc]
        exact List.prefix_append _ _
  · refine ⟨hb, .inr ⟨f, y, z, hy.trans (List.suffix_append _ u), ?_, hf⟩⟩
    exact hz.trans (List.prefix_append x _)

section
variable {nested : RegionLexer} {math : Bool} (h₁ : '\n' ∉ c₁) (h₂ : '\n' ∉ c₂)
variable (hn : Respects c₁ c₂ nested)
include h₁ h₂ hn

theorem region_agree (e : Enclosure) (u v : Text) :
    Agree (Exposed c₁ c₂ math (e.opening ++ u) v)
      (FirstAlike c₁ c₂ Prod.fst (fun a b => OneDiffers Token.Differs a.2 b.2) (e.opening ++ u) v)
      (region nested math e (u.withComment c₁ v)) (region nested math e (u.withComment c₂ v)) := by
  unfold region
  rcases (e.split_withComment h₁ h₂ u v).cases_of_false with ⟨a, b, ha, hb, hr⟩ | ⟨f, g, hf, hg⟩
  · rw [ha, hb]
    cases hr with
    | before inner u' hu =>
      apply Agree.of_eq
      intro r hr
      simp only at hr
      split at hr
      · cases hr
      · cases hr
        refine .before u' ?_
        rw [hu]
        simp only [List.append_assoc]
    | around x w hv =>
      simp only
      have hX (h : Exposed c₁ c₂ (math || e.isFormula) u x) :
          Exposed c₁ c₂ math (e.opening ++ u) v :=
        hv ▸ h.around (Enclosure.encloses_of_split ha)
      refine ((hn (math || e.isFormula) u x).mono hX).elim ?_ (fun _ _ => trivial)
        (fun _ _ hX hf => .left hX (hf.shift _) _) (fun _ _ hX hg => .right hX (hg.shift _) _)
      intro ts us _ _ hts
      refine .around (x ++ e.closing) w ?_ ?_ ?_ hts
      · rw [hv, List.append_assoc]
      · simp only [Text.withComment_append, Text.append_withComment, List.append_assoc]
      · simp only [Text.withComment_append, Text.append_withComment, List.append_assoc]
  · rw [hf, hg]
    trivial

theorem block_agree (u v : Text) :
    Agree (Exposed c₁ c₂ math ('{' :: u) v)
      (FirstAlike c₁ c₂ Token.literal Token.Differs ('{' :: u) v)
      (block nested math (u.withComment c₁ v)) (block nested math (u.withComment c₂ v)) := by
  unfold block
  refine (region_agree h₁ h₂ hn (.group .brace) u v).elim ?_ (fun _ _ => trivial)
    (fun _ _ hX hf => .left hX hf _) (fun _ _ hX hg => .right hX hg _)
  intro a b _ _ h
  exact h.map (fun r => Token.block r.2 r.1) [] (fun _ => rfl) fun _ _ hd => .block _ _ hd

theorem formula_agree (f : Fence) (u v : Text) :
    Agree (Exposed c₁ c₂ math ((Enclosure.formula f).opening ++ u) v)
      (FirstAlike c₁ c₂ Token.literal Token.Differs ((Enclosure.formula f).opening ++ u) v)
      (formula nested math f (u.withComment c₁ v))
      (formula nested math f (u.withComment c₂ v)) := by
  unfold formula
  refine (region_agree h₁ h₂ hn (.formula f) u v).elim ?_ (fun _ _ => trivial)
    (fun _ _ hX hf => .left hX hf _) (fun _ _ hX hg => .right hX hg _)
  intro a b _ _ h
  exact h.map (fun r => Token.math f.position r.2 r.1) [] (fun _ => rfl)
    fun _ _ hd => .math _ _ _ hd

theorem dollar_agree (u v : Text) :
    Agree (Exposed c₁ c₂ math ('$' :: u) v)
      (FirstAlike c₁ c₂ Token.literal Token.Differs ('$' :: u) v)
      (dollar nested math (u.withComment c₁ v)) (dollar nested math (u.withComment c₂ v)) := by
  by_cases hd : u.head? = some '$'
  · obtain ⟨u, rfl⟩ := List.head?_eq_some_iff.mp hd
    exact formula_agree h₁ h₂ hn .doubleDollar u v
  · have hhead (c : Text) : (u.withComment c v).head? ≠ some '$' := by
      cases u with
      | nil => simp [Text.withComment]
      | cons a u => exact hd
    rw [dollar_eq_formula (hhead c₁), dollar_eq_formula (hhead c₂)]
    exact formula_agree h₁ h₂ hn .dollar u v

theorem bracket_agree (u v : Text) :
    Agree (Exposed c₁ c₂ math ('[' :: u) v)
      (FirstAlike c₁ c₂ Token.literal Token.Differs ('[' :: u) v)
      (bracket nested math (u.withComment c₁ v)) (bracket nested math (u.withComment c₂ v)) := by
  have hsplit := (Enclosure.group .bracket).split_withComment h₁ h₂ u v
  unfold bracket
  rcases hsplit.cases_of_false with ⟨a, b, ha, hb, hr⟩ | ⟨f, g, hf, hg⟩
  · have hany : a.1.any isSignificant = b.1.any isSignificant := by
      cases hr with
      | before => rfl
      | around x w =>
        have hsig (c : Text) : (u.withComment c x).any isSignificant = true :=
          List.any_eq_true.mpr ⟨'%', by simp [Text.withComment], rfl⟩
        rw [hsig, hsig]
    rw [ha, hb]
    simp only [hany]
    split
    · refine (region_agree h₁ h₂ hn (.group .bracket) u v).elim ?_ (fun _ _ => trivial)
        (fun _ _ hX hf => .left hX hf _) (fun _ _ hX hg => .right hX hg _)
      intro a b _ _ h
      exact h.map (fun r => Token.bracket r.2 r.1) [] (fun _ => rfl) fun _ _ hd => .bracket _ _ hd
    · exact content_agree _ _ math '[' u v
  · rw [hf, hg]
    trivial

theorem argument_agree (d : Delimiter) (u v : Text) :
    Agree (Exposed c₁ c₂ math (d.opening :: u) v)
      (FirstAlike c₁ c₂ Argument.literal (Argument.Differs Token.Differs) (d.opening :: u) v)
      (argument nested math d (u.withComment c₁ v))
      (argument nested math d (u.withComment c₂ v)) := by
  unfold argument
  refine (region_agree h₁ h₂ hn (.group d) u v).elim ?_ (fun _ _ => trivial)
    (fun _ _ hX hf => .left hX hf _) (fun _ _ hX hg => .right hX hg _)
  rintro ⟨l, ts⟩ ⟨m, us⟩ - - h
  cases d with
  | brace =>
    exact h.map (fun r => Argument.required r.2 r.1) [] (fun _ => rfl)
      fun _ _ hd => .required _ _ hd
  | bracket =>
    simp only
    cases h with
    | before u' hu =>
      apply Agree.of_eq
      intro a ha
      split at ha <;> cases ha
      exact .before u' hu
    | around x w hv hl hm hd =>
      have hvalue := OptionValue.ofTokens_alike hd
      cases hts : OptionValue.ofTokens ts <;> cases hus : OptionValue.ofTokens us <;>
        rw [hts, hus] at hvalue
      · trivial
      · exact hvalue.elim
      · exact hvalue.elim
      · exact .around x w hv hl hm (.optional _ _ hvalue)

theorem arguments_agree (u v : Text) :
    Agree (Exposed c₁ c₂ math u v)
      (FirstAlike c₁ c₂ (List.flatMap Argument.literal)
        (OneDiffers (Argument.Differs Token.Differs)) u v)
      (arguments nested math (u.withComment c₁ v))
      (arguments nested math (u.withComment c₂ v)) := by
  cases u with
  | nil =>
    have hnone (c : Text) : arguments nested math (Text.withComment [] c v) = .ok [] := by
      rw [Text.withComment, List.nil_append, arguments]
      rfl
    rw [hnone, hnone]
    exact .before [] rfl
  | cons a u =>
    rw [Text.withComment_cons, Text.withComment_cons, arguments, arguments]
    cases hd : Delimiter.ofOpening? a with
    | none => exact .before (a :: u) rfl
    | some d =>
      obtain rfl := eq_opening_of_ofOpening? hd
      simp only
      refine (argument_agree h₁ h₂ hn d u v).elim ?_ (fun _ _ => trivial)
        (fun _ _ hX hf => .left hX hf _) (fun _ _ hX hg => .right hX hg _)
      intro b b' hb hb' h
      obtain ⟨l, hl⟩ := literal_eq_cons_of_argument nested math hb
      obtain ⟨l', hl'⟩ := literal_eq_cons_of_argument nested math hb'
      simp only
      have hne : b.literal ≠ [] := hl ▸ List.cons_ne_nil _ _
      have hne' : b'.literal ≠ [] := hl' ▸ List.cons_ne_nil _ _
      rcases h.rests (Text.withComment_cons ..) (Text.withComment_cons ..) hne hne' with
        ⟨rfl, u', hu, hlt, hrest, hrest'⟩ | ⟨hd, x, w, rfl, hx, hx', hrest, hrest'⟩
      · rw [hrest, hrest']
        have hX (h : Exposed c₁ c₂ math u' v) : Exposed c₁ c₂ math (d.opening :: u) v :=
          hu ▸ h.append b.literal
        refine ((arguments_agree u' v).mono hX).elim ?_ (fun _ _ => trivial)
          (fun _ _ hX hf => .left hX (hf.shift _) _) (fun _ _ hX hg => .right hX (hg.shift _) _)
        intro as bs _ _ h
        rw [hu]
        exact h.map (b :: ·) b.literal (fun _ => List.flatMap_cons) fun _ _ hd => hd.there b
      · rw [hrest, hrest']
        cases has : arguments nested math w with
        | error => trivial
        | ok as =>
          obtain ⟨rest, rfl, _⟩ := arguments_eq_ok_iff.mp has
          refine .around (x ++ as.flatMap Argument.literal) rest ?_ ?_ ?_ (.here as hd)
          · rw [List.append_assoc]
          · rw [List.flatMap_cons, hx, Text.append_withComment]
          · rw [List.flatMap_cons, hx', Text.append_withComment]
termination_by u.length
decreasing_by
  simp only [List.length_cons] at hlt ⊢
  omega

theorem command_agree (u v : Text) :
    Agree (Exposed c₁ c₂ math ('\\' :: u) v)
      (FirstAlike c₁ c₂ Token.literal Token.Differs ('\\' :: u) v)
      (command nested math (u.withComment c₁ v)) (command nested math (u.withComment c₂ v)) := by
  obtain ⟨u', hu⟩ := commandName_isPrefix u
  have hdrop (c : Text) : (u.withComment c v).drop (commandName u).length =
      Text.withComment u' c v := by
    apply Text.drop_length_of_eq_append
    rw [← Text.withComment_append, hu]
  have hX (h : Exposed c₁ c₂ math u' v) : Exposed c₁ c₂ math ('\\' :: u) v := by
    rw [← hu]
    exact h.append ('\\' :: commandName u)
  simp only [command, ← commandName.eq_def, commandName_withComment, hdrop]
  refine ((arguments_agree h₁ h₂ hn u' v).mono hX).elim ?_ (fun _ _ => trivial)
    (fun _ _ hX hf => .left hX (hf.shift _) _) (fun _ _ hX hg => .right hX (hg.shift _) _)
  intro as bs _ _ h
  let make (as : List (Argument Token)) :=
    Token.command (commandName u) as ('\\' :: (commandName u ++ as.flatMap Argument.literal))
  have hcommand : FirstAlike c₁ c₂ Token.literal Token.Differs ('\\' :: (commandName u ++ u')) v
      (make as) (make bs) :=
    h.map make ('\\' :: commandName u) (fun _ => rfl) fun _ _ hd => .command _ _ _ hd
  rwa [hu] at hcommand

theorem letterAccent_agree (mark : Char) (u v : Text) :
    Agree (Exposed c₁ c₂ math ('\\' :: mark :: '{' :: u) v)
      (FirstAlike c₁ c₂ Token.literal Token.Differs ('\\' :: mark :: '{' :: u) v)
      (letterAccent nested math mark (u.withComment c₁ v))
      (letterAccent nested math mark (u.withComment c₂ v)) := by
  unfold letterAccent
  refine ((block_agree h₁ h₂ hn u v).mono fun h => h.append ['\\', mark]).elim ?_
    (fun _ _ => trivial) (fun _ _ hX hf => .left hX (hf.shift _) _)
    (fun _ _ hX hg => .right hX (hg.shift _) _)
  intro a b _ _ h
  exact h.map (fun body => Token.accent .letter mark body ('\\' :: mark :: body.literal))
    ['\\', mark] (fun _ => rfl) fun _ _ hd => .accent _ _ _ _ hd

theorem control_agree (a : Char) (u v : Text) :
    Agree (Exposed c₁ c₂ math ('\\' :: a :: u) v)
      (FirstAlike c₁ c₂ Token.literal Token.Differs ('\\' :: a :: u) v)
      (control nested math a (u.withComment c₁ v))
      (control nested math a (u.withComment c₂ v)) := by
  have hhead (c : Text) : (u.withComment c v).head? = some '{' ↔ u.head? = some '{' := by
    cases u <;> simp [Text.withComment]
  unfold control
  simp only [hhead]
  split
  · next ha =>
    subst ha
    exact formula_agree h₁ h₂ hn .square u v
  · split
    · next ha =>
      subst ha
      exact formula_agree h₁ h₂ hn .parenthesis u v
    · split
      · trivial
      · split
        · next ha =>
          obtain ⟨u, rfl⟩ := List.head?_eq_some_iff.mp
            (of_decide_eq_true (Bool.and_eq_true_iff.mp ha).2)
          exact letterAccent_agree h₁ h₂ hn a u v
        · split
          · exact command_agree h₁ h₂ hn (a :: u) v
          · split
            · exact .before u rfl
            · trivial

mutual

theorem unit_agree (u v : Text) :
    Agree (Exposed c₁ c₂ math u v)
      (Option.Rel (FirstAlike c₁ c₂ Token.literal Token.Differs u v))
      (unit nested math (u.withComment c₁ v)) (unit nested math (u.withComment c₂ v)) := by
  cases u with
  | nil =>
    have hnone (c : Text) : unit nested math (Text.withComment [] c v) = .ok none := by
      rw [Text.withComment, List.nil_append, unit, if_neg (by decide), if_neg (by decide),
        if_neg (by decide +kernel)]
    rw [hnone, hnone]
    exact .none
  | cons a u =>
    rw [Text.withComment_cons, Text.withComment_cons, unit, unit]
    split
    · next ha =>
      subst ha
      apply (block_agree h₁ h₂ hn u v).map
      intro a b _ _ h
      exact .some h
    · split
      · next ha =>
        subst ha
        apply (backslash_agree u v).map
        intro a b _ _ h
        exact asUnit_alike h
      · split
        · exact .some (.before u (by rw [Token.literal_ofText]; rfl))
        · exact .none

theorem backslash_agree (u v : Text) :
    Agree (Exposed c₁ c₂ math ('\\' :: u) v)
      (FirstAlike c₁ c₂ Token.literal Token.Differs ('\\' :: u) v)
      (backslash nested math (u.withComment c₁ v))
      (backslash nested math (u.withComment c₂ v)) := by
  cases u with
  | nil =>
    have herror (c : Text) : backslash nested math (Text.withComment [] c v) =
        .error (.point 0 .emptyControlSequence) := by
      rw [Text.withComment, List.nil_append, backslash, if_neg (by decide), control,
        if_neg (by decide), if_neg (by decide), if_neg (by decide),
        if_neg (by simp [isLetterAccent]), if_neg (by decide), if_neg (by decide)]
    rw [herror, herror]
    trivial
  | cons a u =>
    rw [Text.withComment_cons, Text.withComment_cons, backslash, backslash]
    split
    · apply applyTo_agree ((unit_agree u v).mono fun h => h.append ['\\', a])
      · exact fun _ => rfl
      · exact fun _ _ hd => .accent _ _ _ _ hd
    · exact control_agree h₁ h₂ hn a u v

end

theorem script_agree (kind : ScriptKind) (u v : Text) :
    Agree (Exposed c₁ c₂ math (kind.mark :: u) v)
      (FirstAlike c₁ c₂ Token.literal Token.Differs (kind.mark :: u) v)
      (script nested math kind (u.withComment c₁ v))
      (script nested math kind (u.withComment c₂ v)) := by
  unfold script
  apply applyTo_agree ((unit_agree h₁ h₂ hn u v).mono fun h => h.append [kind.mark])
  · exact fun _ => rfl
  · exact fun _ _ hd => .script _ _ _ hd

theorem read_agree (opened : Nat) (a : Char) (u v : Text) :
    Agree (Exposed c₁ c₂ math (a :: u) v)
      (FirstAlike c₁ c₂ Token.literal Token.Differs (a :: u) v)
      (read nested math opened a (u.withComment c₁ v))
      (read nested math opened a (u.withComment c₂ v)) := by
  unfold read
  split
  · exact block_agree h₁ h₂ hn u v
  · exact backslash_agree h₁ h₂ hn u v
  · exact script_agree h₁ h₂ hn .superscript u v
  · exact script_agree h₁ h₂ hn .subscript u v
  · exact .before u rfl
  · exact comment_agree h₁ h₂ _ u v
  · exact placeholder_agree _ u v
  · exact dollar_agree h₁ h₂ hn u v
  · trivial
  · split
    · exact content_agree _ _ math '[' u v
    · exact bracket_agree h₁ h₂ hn u v
  · split
    · exact content_agree _ _ math ']' u v
    · trivial
  · exact content_agree _ _ math _ u v

end

end Lexing

end LatexTokens
