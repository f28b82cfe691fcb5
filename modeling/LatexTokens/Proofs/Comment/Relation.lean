import LatexTokens.Lexing.Region

/-!
# Tokens that differ in one comment

`Token.Differs` relates two trees of tokens that are the same up to one comment in them: the text
and the literal of that comment, and the literals of the tokens around it. `Agree` relates two
results of reading that give such trees, or both a fault.
-/

set_option autoImplicit false

namespace LatexTokens

/-- Whether two lists have related elements at one place and are the same elsewhere. -/
inductive OneDiffers {α : Type} (R : α → α → Prop) : List α → List α → Prop where
  | here {a b : α} (as : List α) : R a b → OneDiffers R (a :: as) (b :: as)
  | there (a : α) {as bs : List α} : OneDiffers R as bs → OneDiffers R (a :: as) (a :: bs)

namespace OneDiffers
variable {α β : Type} {R : α → α → Prop} {as bs : List α}

theorem append_left (cs : List α) (h : OneDiffers R as bs) :
    OneDiffers R (cs ++ as) (cs ++ bs) := by
  induction cs with
  | nil => exact h
  | cons c cs ih => exact ih.there c

theorem append_right (h : OneDiffers R as bs) (cs : List α) :
    OneDiffers R (as ++ cs) (bs ++ cs) := by
  induction h with
  | here as hr => exact .here (as ++ cs) hr
  | there a _ ih => exact ih.there a

theorem reverse (h : OneDiffers R as bs) : OneDiffers R as.reverse bs.reverse := by
  induction h with
  | here as hr =>
    rw [List.reverse_cons, List.reverse_cons]
    exact (OneDiffers.here [] hr).append_left _
  | there a _ ih =>
    rw [List.reverse_cons, List.reverse_cons]
    exact ih.append_right [a]

theorem any_eq {p : α → Bool} (hp : ∀ a b, R a b → p a = p b) (h : OneDiffers R as bs) :
    as.any p = bs.any p := by
  induction h with
  | here as hr => rw [List.any_cons, List.any_cons, hp _ _ hr]
  | there a _ ih => rw [List.any_cons, List.any_cons, ih]

theorem ne_nil (h : OneDiffers R as bs) : as ≠ [] ∧ bs ≠ [] := by
  cases h <;> exact ⟨List.cons_ne_nil _ _, List.cons_ne_nil _ _⟩

end OneDiffers

section
variable {τ : Type} (R : τ → τ → Prop)

inductive KeyValue.Differs : KeyValue τ → KeyValue τ → Prop where
  | value {ts us : List τ} (key : Text) : OneDiffers R ts us → Differs ⟨key, ts⟩ ⟨key, us⟩

inductive OptionValue.Differs : OptionValue τ → OptionValue τ → Prop where
  | single {t u : τ} : R t u → Differs (.single t) (.single u)
  | pairs {ps qs : List (KeyValue τ)} : OneDiffers (KeyValue.Differs R) ps qs →
      Differs (.pairs ps) (.pairs qs)
  | tokens {ts us : List τ} : OneDiffers R ts us → Differs (.tokens ts) (.tokens us)
  /-- A comment in front of an equals sign is in no token of the settings. -/
  | skipped (value : OptionValue τ) : Differs value value

/-- The literals of the arguments can differ in any way. -/
inductive Argument.Differs : Argument τ → Argument τ → Prop where
  | required {ts us : List τ} (l m : Text) : OneDiffers R ts us →
      Differs (.required ts l) (.required us m)
  | optional {v w : OptionValue τ} (l m : Text) : OptionValue.Differs R v w →
      Differs (.optional v l) (.optional w m)

end

/-- Whether two tokens are the same up to one comment, which is the token or in it, and up to the
literals of the tokens around the comment. -/
inductive Token.Differs : Token → Token → Prop where
  | comment (x y l m : Text) : Differs (.comment x l) (.comment y m)
  | command {as bs : List (Argument Token)} (name l m : Text) :
      OneDiffers (Argument.Differs Differs) as bs →
      Differs (.command name as l) (.command name bs m)
  | math {ts us : List Token} (position : MathPosition) (l m : Text) : OneDiffers Differs ts us →
      Differs (.math position ts l) (.math position us m)
  | block {ts us : List Token} (l m : Text) : OneDiffers Differs ts us →
      Differs (.block ts l) (.block us m)
  | bracket {ts us : List Token} (l m : Text) : OneDiffers Differs ts us →
      Differs (.bracket ts l) (.bracket us m)
  | accent {t u : Token} (form : AccentForm) (mark : Char) (l m : Text) : Differs t u →
      Differs (.accent form mark t l) (.accent form mark u m)
  | script {t u : Token} (kind : ScriptKind) (l m : Text) : Differs t u →
      Differs (.script kind t l) (.script kind u m)

/-- Whether a fault says that a closing bracket stands where no bracket is open. -/
def Fault.IsStrayBracket (f : Fault) : Prop := f.cause = .noMatchingOpener ']'

theorem Fault.IsStrayBracket.shift {f : Fault} (h : f.IsStrayBracket) (n : Nat) :
    (f.shift n).IsStrayBracket := congrArg (Cause.shift n) h

/-- Whether two results are related, or both a fault. On a condition, one of them alone can also be
the fault of a stray bracket. -/
def Agree {α : Type} (X : Prop) (R : α → α → Prop) : Except Fault α → Except Fault α → Prop
  | .ok a, .ok b => R a b
  | .error _, .error _ => True
  | .ok _, .error f | .error f, .ok _ => X ∧ f.IsStrayBracket

namespace Agree
variable {α β : Type} {X Y : Prop} {R : α → α → Prop} {S : β → β → Prop} {r s : Except Fault α}

theorem of_eq (hr : ∀ a, r = .ok a → R a a) : Agree X R r r := by
  cases r with
  | error f => trivial
  | ok a => exact hr a rfl

theorem mono (h : Agree X R r s) (hX : X → Y) : Agree Y R r s := by
  cases r <;> cases s
  · trivial
  · exact ⟨hX h.1, h.2⟩
  · exact ⟨hX h.1, h.2⟩
  · exact h

theorem map {f g : α → β} (h : Agree X R r s)
    (hf : ∀ a b, r = .ok a → s = .ok b → R a b → S (f a) (g b)) :
    Agree X S (r.map f) (s.map g) := by
  cases r <;> cases s
  · trivial
  · exact h
  · exact h
  · exact hf _ _ rfl rfl h

@[elab_as_elim]
theorem elim {C : Except Fault α → Except Fault α → Prop} (h : Agree X R r s)
    (ok : ∀ a b, r = .ok a → s = .ok b → R a b → C (.ok a) (.ok b))
    (faults : ∀ f g, C (.error f) (.error g))
    (left : ∀ f b, X → f.IsStrayBracket → C (.error f) (.ok b))
    (right : ∀ a g, X → g.IsStrayBracket → C (.ok a) (.error g)) : C r s := by
  cases r <;> cases s
  · exact faults _ _
  · exact left _ _ h.1 h.2
  · exact right _ _ h.1 h.2
  · exact ok _ _ rfl rfl h

theorem left {f : Fault} (hX : X) (hf : f.IsStrayBracket) (s : Except Fault α) :
    Agree X R (.error f) s := by
  cases s with
  | error => trivial
  | ok => exact ⟨hX, hf⟩

theorem right {g : Fault} (hX : X) (hg : g.IsStrayBracket) (r : Except Fault α) :
    Agree X R r (.error g) := by
  cases r with
  | error => trivial
  | ok => exact ⟨hX, hg⟩

/-- Without the exception both results are related, or both are faults. -/
theorem cases_of_false (h : Agree False R r s) :
    (∃ a b, r = .ok a ∧ s = .ok b ∧ R a b) ∨ ∃ f g, r = .error f ∧ s = .error g := by
  cases r <;> cases s
  · exact .inr ⟨_, _, rfl, rfl⟩
  · exact h.1.elim
  · exact h.1.elim
  · exact .inl ⟨_, _, rfl, rfl, h⟩

end Agree

namespace Text

/-- A text with a comment in it, which ends at its line feed. -/
def withComment (u c v : Text) : Text := u ++ '%' :: (c ++ '\n' :: v)

@[simp] theorem withComment_cons (a : Char) (u c v : Text) :
    withComment (a :: u) c v = a :: withComment u c v := rfl

theorem withComment_append (x u c v : Text) :
    withComment (x ++ u) c v = x ++ withComment u c v := by
  rw [withComment, withComment, List.append_assoc]

theorem append_withComment (u c v w : Text) :
    withComment u c (v ++ w) = withComment u c v ++ w := by
  simp only [withComment, List.append_assoc, List.cons_append]

end Text

end LatexTokens
