import LatexTokens.Proofs.Lexing.Reading

/-!
# What may follow a token

Whether a token stands somewhere depends on one character behind it. At the end of a text each
token stands that stands anywhere outside math (`Stands.last`). Before a character it stands
unless the character continues it: `Token.IsContinuedBy` lists the continuations, and
`Stands.before_iff` says that these are all.
-/

set_option autoImplicit false

namespace LatexTokens

namespace Token

/-- The unit that a chain of scripts and symbol accents applies to; any other token is its own. -/
def innermost : Token → Token
  | script _ body _ => body.innermost
  | accent .symbol _ body _ => body.innermost
  | t => t

/-- Whether a named command takes in the next character: as the start of an argument or, while it
has no arguments, as a part of its name. -/
def IsCommandContinuedBy (c : Char) : Token → Prop
  | command name as _ => (∃ a ∈ name.head?, a.isAlphanum) ∧
    (c = '{' ∨ c = '[' ∨ as = [] ∧ name.getLast? ≠ some '*' ∧ (c = '*' ∨ c.isAlphanum))
  | _ => False

/-- Whether a token that ends a text would take in the next character. -/
def IsContinuedBy (c : Char) : Token → Prop
  | content _ _ => isSignificant c = false ∧ c ≠ '[' ∧ c ≠ ']'
  | comment _ literal => literal.getLast? ≠ some '\n'
  | placeholder _ _ => c.isDigit
  | t => t.innermost.IsCommandContinuedBy c

end Token

namespace Lexing

/-- At the end of a text a name goes no further than where another character ends it. -/
theorem IsName.last {name : Text} {next : Option Char} (h : IsName next name) :
    IsName none name := by
  cases h with
  | plain hne hrun _ _ => exact .plain hne ⟨hrun.all, by simp⟩ (by simp) (by simp)
  | starred hne hall => exact .starred hne hall

theorem IsName.last_or {name : Text} {after next : Option Char} (h : IsName (after.or next) name) :
    IsName (after.or none) name := by
  cases after with
  | none => exact h.last
  | some c => exact h

theorem isRun_none {p : Char → Bool} {run : Text} {next : Option Char}
    (h : Text.IsRun p run next) : Text.IsRun p run none := ⟨h.all, by simp⟩

section
variable {nested : RegionLexer} {math : Bool} {next : Option Char}

theorem IsUnit.last {token : Token} (h : IsUnit nested math next token) :
    IsUnit nested math none token := by
  induction h with
  | block hi => exact .block hi
  | command hname has _ => exact .command hname.last_or has (by simp)
  | symbol hc => exact .symbol hc
  | letterAccent hm hi => exact .letterAccent hm hi
  | symbolAccent hm _ ih => exact .symbolAccent hm ih
  | character hc => exact .character hc

/-- A token that stands before some character stands at the end of a text as well. -/
theorem Stands.last {opened : Nat} {token : Token} (h : Stands nested math next opened token) :
    Stands nested math none opened token := by
  cases h with
  | unit hu hc => exact .unit hu.last hc
  | script hu => exact .script hu.last
  | formula hi hne => exact .formula hi hne
  | columnAlign => exact .columnAlign
  | comment hbody hstop =>
    exact .comment hbody (hstop.imp_right fun h => ⟨h.1, rfl⟩)
  | placeholder hne hrun hd => exact .placeholder hne (isRun_none hrun) hd
  | text hp hrun => exact .text hp (isRun_none hrun)
  | closingText hm ho hrun => exact .closingText hm ho (isRun_none hrun)
  | bracketText hm he htext hrun => exact .bracketText hm he htext (isRun_none hrun)
  | bracket hm hi hsig => exact .bracket hm hi hsig

end

theorem getLast?_ne_of_isAlphanum {letters : Text} (h : ∀ c ∈ letters, c.isAlphanum) :
    letters.getLast? ≠ some '*' := by
  intro hl
  cases h '*' (List.mem_of_getLast? hl)

theorem IsName.before_iff {name : Text} {c : Char} (h : IsName none name) (hc : c ≠ '{') :
    IsName (some c) name ↔ ¬ (name.getLast? ≠ some '*' ∧ (c = '*' ∨ c.isAlphanum)) := by
  cases h with
  | plain hne hrun _ _ =>
    have hlast := getLast?_ne_of_isAlphanum hrun.all
    constructor
    · intro h
      rintro ⟨_, hstar | halpha⟩
      · cases h with
        | plain _ _ hs _ => exact hs (congrArg some hstar)
        | starred => exact hlast List.getLast?_concat
      · cases h with
        | plain _ hrun _ _ => cases (hrun.stop c rfl).symm.trans halpha
        | starred => exact hlast List.getLast?_concat
    · intro h
      refine .plain hne ⟨hrun.all, ?_⟩ ?_ ?_
      · rintro d ⟨⟩
        exact Bool.eq_false_iff.mpr fun halpha => h ⟨hlast, .inr halpha⟩
      · intro hstar
        exact h ⟨hlast, .inl (Option.some.inj hstar)⟩
      · intro _ _ _ hbrace
        exact hc (Option.some.inj hbrace)
  | starred hne hall =>
    constructor
    · intro _ h₀
      exact h₀.1 List.getLast?_concat
    · intro _
      exact .starred hne hall

theorem ofOpening?_eq_none_iff {c : Char} :
    Delimiter.ofOpening? c = none ↔ c ≠ '{' ∧ c ≠ '[' := by
  unfold Delimiter.ofOpening?
  split <;> simp_all

theorem IsName.exists_head? {name : Text} {after : Option Char} (h : IsName after name) :
    ∃ a ∈ name.head?, a.isAlphanum := by
  obtain ⟨a, l, rfl, ha⟩ := h.exists_cons
  exact ⟨a, rfl, ha⟩

theorem not_isAlphanum_of_isControlSymbol {c : Char} (h : isControlSymbol c) :
    c.isAlphanum = false := by
  have key : ∀ d ∈ [',', ';', ':', '!', '>', '<', '|', '/', '-', '@', ' '],
      d.isAlphanum = false := by
    simp only [List.forall_mem_cons, List.not_mem_nil, false_implies, implies_true]
    and_intros <;> decide
  exact key c (by simpa [isControlSymbol] using h)

section
variable {nested : RegionLexer} {math : Bool} {c : Char}

/-- Only a command without arguments has its name at its end. -/
theorem IsName.before_arguments_iff {name : Text} {as : List (Argument Token)}
    (has : ∀ a ∈ as, IsArgument nested math a)
    (h : IsName ((as.flatMap Argument.literal).head?.or none) name) (hc : c ≠ '{') :
    IsName ((as.flatMap Argument.literal).head?.or (some c)) name ↔
      ¬ (as = [] ∧ name.getLast? ≠ some '*' ∧ (c = '*' ∨ c.isAlphanum)) := by
  cases as with
  | nil =>
    rw [and_iff_right rfl]
    exact IsName.before_iff h hc
  | cons a as =>
    obtain ⟨d, l, hl⟩ := (has a List.mem_cons_self).exists_cons
    rw [List.flatMap_cons, hl] at h ⊢
    exact iff_of_true h (by simp)

theorem IsUnit.before_command_iff {name : Text} {as : List (Argument Token)} {literal : Text}
    (h : IsUnit nested math none (.command name as literal)) :
    IsUnit nested math (some c) (.command name as literal) ↔
      ¬ (Token.command name as literal).IsCommandContinuedBy c := by
  rw [Token.IsCommandContinuedBy]
  cases h with
  | command hname has _ =>
    have hhead := hname.exists_head?
    constructor
    · intro h
      rintro ⟨_, hc⟩
      generalize hl : '\\' :: (name ++ as.flatMap Argument.literal) = literal at h
      cases h with
      | command hname' _ hnext =>
        obtain ⟨hbrace, hbracket⟩ := ofOpening?_eq_none_iff.mp (hnext c rfl)
        rcases hc with hc | hc | hc
        · exact hbrace hc
        · exact hbracket hc
        · exact (hname.before_arguments_iff has hbrace).mp hname' hc
      | symbol hd =>
        obtain ⟨a, ha, halpha⟩ := hhead
        cases ha
        cases (not_isAlphanum_of_isControlSymbol hd).symm.trans halpha
    · intro h
      have hbrace : c ≠ '{' := fun hc => h ⟨hhead, .inl hc⟩
      have hbracket : c ≠ '[' := fun hc => h ⟨hhead, .inr (.inl hc)⟩
      refine .command ?_ has ?_
      · exact (hname.before_arguments_iff has hbrace).mpr fun hc => h ⟨hhead, .inr (.inr hc)⟩
      · rintro d ⟨⟩
        exact ofOpening?_eq_none_iff.mpr ⟨hbrace, hbracket⟩
  | symbol hd =>
    refine iff_of_true (.symbol hd) ?_
    rintro ⟨⟨a, ha, halpha⟩, _⟩
    cases ha
    cases (not_isAlphanum_of_isControlSymbol hd).symm.trans halpha

theorem IsUnit.before_iff {token : Token} (h : IsUnit nested math none token) :
    IsUnit nested math (some c) token ↔ ¬ token.innermost.IsCommandContinuedBy c := by
  induction h with
  | block hi => exact iff_of_true (.block hi) id
  | command hname has hnext => exact IsUnit.before_command_iff (.command hname has hnext)
  | symbol hd => exact IsUnit.before_command_iff (.symbol hd)
  | letterAccent hm hi => exact iff_of_true (.letterAccent hm hi) id
  | symbolAccent hm hu ih =>
    rw [Token.innermost, ← ih]
    constructor
    · intro h
      cases h with
      | symbolAccent _ hu => exact hu
    · intro hu
      exact .symbolAccent hm hu
  | character hd => exact iff_of_true (.character hd) id

theorem Stands.of_false {next : Option Char} {opened opened' : Nat} {token : Token}
    (h : Stands nested false next opened token) : Stands nested false next opened' token := by
  cases h with
  | unit hu hc => exact .unit hu hc
  | script hu => exact .script hu
  | formula hi hne => exact .formula hi hne
  | columnAlign => exact .columnAlign
  | comment hbody hstop => exact .comment hbody hstop
  | placeholder hne hrun hd => exact .placeholder hne hrun hd
  | text hp hrun => exact .text hp hrun
  | closingText hm => cases hm
  | bracketText hm he htext hrun => exact .bracketText hm he htext hrun
  | bracket hm hi hsig => exact .bracket hm hi hsig

theorem isPlain_false_iff :
    isPlain false c = true ↔ isSignificant c = false ∧ c ≠ '[' ∧ c ≠ ']' := by
  simp [isPlain, and_assoc, and_comm (a := c ≠ '[')]

variable {opened : Nat}

theorem Stands.isPlain_of_content {text literal : Text}
    (h : Stands nested false (some c) opened (.content text literal)) :
    isPlain false c = false := by
  cases h with
  | unit _ hc => cases hc
  | text _ hrun => exact hrun.stop c rfl
  | closingText hm => cases hm
  | bracketText _ _ _ hrun => exact hrun.stop c rfl

/-- Only a comment that has its line feed stands before a character. -/
theorem Stands.getLast?_of_comment {text literal : Text}
    (h : Stands nested math (some c) opened (.comment text literal)) :
    literal.getLast? = some '\n' := by
  cases h with
  | unit hu => cases hu
  | @comment body stop _ hstop =>
    rcases hstop with rfl | ⟨_, hn⟩
    · exact List.getLast?_concat (l := '%' :: body)
    · cases hn

theorem Stands.isDigit_of_placeholder {index : Nat} {literal : Text}
    (h : Stands nested math (some c) opened (.placeholder index literal)) : c.isDigit = false := by
  cases h with
  | unit hu => cases hu
  | placeholder _ hrun _ => exact hrun.stop c rfl

theorem isRun_some {run : Text} {p : Char → Bool} (h : Text.IsRun p run none) (hc : ¬ p c = true) :
    Text.IsRun p run (some c) := by
  refine ⟨h.all, ?_⟩
  rintro d ⟨⟩
  exact Bool.eq_false_iff.mpr hc

/-- A token that stands at the end of a text outside math stands before a character precisely if
that does not continue it. -/
theorem Stands.before_iff {token : Token} (h : Stands nested false none opened token) :
    Stands nested false (some c) opened token ↔ ¬ token.IsContinuedBy c := by
  have content {text literal : Text}
      (h : Stands nested false (some c) opened (.content text literal)) :
      ¬ (Token.content text literal).IsContinuedBy c := by
    intro hc
    cases h.isPlain_of_content.symm.trans (isPlain_false_iff.mpr hc)
  cases h with
  | @unit token hu hcontent =>
    have hsame : token.IsContinuedBy c ↔ token.innermost.IsCommandContinuedBy c := by
      cases hu with
      | character => cases hcontent
      | _ => exact .rfl
    rw [hsame, ← hu.before_iff]
    constructor
    · intro h
      cases h with
      | unit hu => exact hu
      | text | closingText | bracketText => cases hcontent
      | _ => cases hu
    · intro hu
      exact .unit hu hcontent
  | @script kind body hu =>
    change _ ↔ ¬ body.innermost.IsCommandContinuedBy c
    rw [← hu.before_iff]
    constructor
    · intro h
      cases h with
      | unit hu => cases hu
      | script hu => exact hu
    · exact .script
  | formula hi hne => exact iff_of_true (.formula hi hne) id
  | columnAlign => exact iff_of_true .columnAlign id
  | @comment body stop hbody hstop =>
    have hlast : ('%' :: (body ++ stop)).getLast? = some '\n' → stop = ['\n'] := by
      intro hlast
      refine hstop.resolve_right fun hnil => ?_
      have hmem := List.mem_of_getLast? hlast
      rw [hnil.1, List.append_nil] at hmem
      exact hbody (List.mem_of_ne_of_mem (by decide) hmem)
    constructor
    · intro h hc
      exact hc h.getLast?_of_comment
    · intro hc
      exact .comment hbody (.inl (hlast (Decidable.not_not.mp hc)))
  | @placeholder digits hne hrun hd =>
    constructor
    · intro h hc
      cases h.isDigit_of_placeholder.symm.trans hc
    · intro hc
      exact .placeholder hne (isRun_some hrun hc) hd
  | text hp hrun =>
    refine ⟨content, ?_⟩
    intro hc
    exact .text hp (isRun_some hrun fun h => hc (isPlain_false_iff.mp h))
  | closingText hm => cases hm
  | bracketText hm he htext hrun =>
    refine ⟨content, ?_⟩
    intro hc
    exact .bracketText hm he htext (isRun_some hrun fun h => hc (isPlain_false_iff.mp h))
  | bracket hm hi hsig => exact iff_of_true (.bracket hm hi hsig) id

end

end Lexing

end LatexTokens
