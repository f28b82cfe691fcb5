import LatexTokens.Lexing.Region

/-!
# What the limit of nesting changes

With fewer levels left a region is read to the same result, tokens or fault, or the fault is that
regions nest too deep. Each reader keeps this of the reader of regions that it is given
(`Limited`), and `lexRegion` has it by induction on the levels.
-/

set_option autoImplicit false

namespace LatexTokens

/-- Whether the fault is that regions nest too deep. -/
def Fault.IsTooDeep (f : Fault) : Prop := f.cause = .nestingTooDeep maxNesting

theorem Fault.IsTooDeep.shift {f : Fault} (h : f.IsTooDeep) (n : Nat) : (f.shift n).IsTooDeep :=
  congrArg (Cause.shift n) h

/-- Whether a result is a second one, or the limit of nesting stands in its way. -/
def Limited {α : Type} (r s : Except Fault α) : Prop := r = s ∨ ∃ f, r = .error f ∧ f.IsTooDeep

namespace Limited
variable {α β : Type} {r s : Except Fault α}

theorem refl (r : Except Fault α) : Limited r r := .inl rfl

theorem tooDeep {f : Fault} (h : f.IsTooDeep) (s : Except Fault α) : Limited (.error f) s :=
  .inr ⟨f, rfl, h⟩

@[elab_as_elim]
theorem elim {C : Except Fault α → Except Fault α → Prop} (h : Limited r s) (same : C s s)
    (tooDeep : ∀ f, f.IsTooDeep → C (.error f) s) : C r s := by
  rcases h with rfl | ⟨f, rfl, hf⟩
  · exact same
  · exact tooDeep f hf

theorem map (h : Limited r s) (g : α → β) : Limited (r.map g) (s.map g) :=
  h.elim (.refl _) fun _ hf => .tooDeep hf _

theorem eq_of_ok {a : α} (h : Limited (.ok a) s) : s = .ok a := by
  rcases h with rfl | ⟨f, hf, _⟩
  · rfl
  · cases hf

end Limited

namespace Lexing

theorem applyTo_limited {r s : Except Fault (Option Token)} (h : Limited r s) (lead : Text)
    (construct : String) (make : Token → Token) (t : Text) :
    Limited (applyTo lead construct make t r) (applyTo lead construct make t s) :=
  h.elim (.refl _) fun _ hf => .tooDeep (hf.shift _) _

section
variable {nested nested' : RegionLexer} {math : Bool}
variable (hn : ∀ math t, Limited (nested math t) (nested' math t))
include hn

theorem region_limited (e : Enclosure) (t : Text) :
    Limited (region nested math e t) (region nested' math e t) := by
  unfold region
  split
  · exact .refl _
  · next inner rest _ =>
    exact (hn (math || e.isFormula) inner).elim (.refl _) fun _ hf => .tooDeep (hf.shift _) _

theorem block_limited (t : Text) : Limited (block nested math t) (block nested' math t) := by
  unfold block
  exact (region_limited hn (.group .brace) t).elim (.refl _) fun _ hf => .tooDeep hf _

theorem formula_limited (f : Fence) (t : Text) :
    Limited (formula nested math f t) (formula nested' math f t) := by
  unfold formula
  exact (region_limited hn (.formula f) t).elim (.refl _) fun _ hf => .tooDeep hf _

theorem dollar_limited (t : Text) : Limited (dollar nested math t) (dollar nested' math t) := by
  unfold dollar
  split
  · exact formula_limited hn .doubleDollar _
  · exact formula_limited hn .dollar t

theorem bracket_limited (t : Text) : Limited (bracket nested math t) (bracket nested' math t) := by
  unfold bracket
  split
  · exact .refl _
  · split
    · exact (region_limited hn (.group .bracket) t).elim (.refl _) fun _ hf => .tooDeep hf _
    · exact .refl _

theorem argument_limited (d : Delimiter) (t : Text) :
    Limited (argument nested math d t) (argument nested' math d t) := by
  unfold argument
  exact (region_limited hn (.group d) t).elim (.refl _) fun _ hf => .tooDeep hf _

theorem arguments_limited (t : Text) :
    Limited (arguments nested math t) (arguments nested' math t) := by
  cases t with
  | nil =>
    rw [arguments, arguments]
    exact .refl _
  | cons c t =>
    rw [arguments, arguments]
    split
    · exact .refl _
    · next d _ =>
      refine (argument_limited hn d t).elim ?_ fun _ hf => .tooDeep hf _
      split
      · exact .refl _
      · next a _ =>
        exact (arguments_limited (t.drop a.literal.tail.length)).elim (.refl _)
          fun _ hf => .tooDeep (hf.shift _) _
termination_by t.length
decreasing_by simp only [List.length_drop, List.length_cons]; omega

theorem command_limited (t : Text) :
    Limited (command nested math t) (command nested' math t) := by
  simp only [command]
  exact (arguments_limited hn _).elim (.refl _) fun _ hf => .tooDeep (hf.shift _) _

theorem letterAccent_limited (mark : Char) (t : Text) :
    Limited (letterAccent nested math mark t) (letterAccent nested' math mark t) := by
  unfold letterAccent
  exact (block_limited hn t).elim (.refl _) fun _ hf => .tooDeep (hf.shift _) _

theorem control_limited (c : Char) (t : Text) :
    Limited (control nested math c t) (control nested' math c t) := by
  unfold control
  split
  · exact formula_limited hn .square t
  · split
    · exact formula_limited hn .parenthesis t
    · split
      · exact .refl _
      · split
        · exact letterAccent_limited hn c t.tail
        · split
          · exact command_limited hn (c :: t)
          · exact .refl _

mutual

theorem unit_limited (t : Text) : Limited (unit nested math t) (unit nested' math t) := by
  cases t with
  | nil => exact .refl _
  | cons c t =>
    rw [unit, unit]
    split
    · exact (block_limited hn t).map some
    · split
      · exact (backslash_limited t).map asUnit
      · exact .refl _

theorem backslash_limited (t : Text) :
    Limited (backslash nested math t) (backslash nested' math t) := by
  cases t with
  | nil => exact .refl _
  | cons c t =>
    rw [backslash, backslash]
    split
    · exact applyTo_limited (unit_limited t) _ _ _ _
    · exact control_limited hn c t

end

theorem script_limited (kind : ScriptKind) (t : Text) :
    Limited (script nested math kind t) (script nested' math kind t) :=
  applyTo_limited (unit_limited hn t) _ _ _ _

theorem read_limited (opened : Nat) (c : Char) (t : Text) :
    Limited (read nested math opened c t) (read nested' math opened c t) := by
  unfold read
  split
  · exact block_limited hn t
  · exact backslash_limited hn t
  · exact script_limited hn .superscript t
  · exact script_limited hn .subscript t
  · exact .refl _
  · exact .refl _
  · exact .refl _
  · exact dollar_limited hn t
  · exact .refl _
  · split
    · exact .refl _
    · exact bracket_limited hn t
  · exact .refl _
  · exact .refl _

theorem tokens_limited (opened : Nat) (t : Text) :
    Limited (tokens nested math opened t) (tokens nested' math opened t) := by
  cases t with
  | nil =>
    rw [tokens, tokens]
    exact .refl _
  | cons c t =>
    rw [tokens, tokens]
    refine (read_limited hn opened c t).elim ?_ fun _ hf => .tooDeep hf _
    split
    · exact .refl _
    · next token _ =>
      exact (tokens_limited (openBrackets opened token.literal)
        (t.drop token.literal.tail.length)).elim (.refl _) fun _ hf => .tooDeep (hf.shift _) _
termination_by t.length
decreasing_by simp only [List.length_drop, List.length_cons]; omega

end

end Lexing

/-- Fewer levels give the same result, or the fault that regions nest too deep. -/
theorem lexRegion_limited {levels levels' : Nat} (h : levels ≤ levels') (math : Bool) (t : Text) :
    Limited (lexRegion levels math t) (lexRegion levels' math t) := by
  induction levels generalizing levels' math t with
  | zero => exact .inr ⟨_, rfl, rfl⟩
  | succ levels ih =>
    obtain ⟨levels', rfl⟩ := Nat.exists_eq_succ_of_ne_zero (Nat.ne_zero_of_lt h)
    exact Lexing.tokens_limited (ih (Nat.le_of_succ_le_succ h)) 0 t

end LatexTokens
