import LatexTokens.Special

/-!
# Tokens

A token is a tree. Each one keeps its literal, the stretch of protected text that it covers;
groups, math, accents, scripts and the arguments of commands also hold the tokens inside them.
`Token.parts` lists the tokens directly inside one, each with its role there. They are smaller than
the token (`Token.sizeOf_lt_of_mem_parts`), so a function on tokens can recur on them.
-/

set_option autoImplicit false

namespace LatexTokens

/-- Whether a formula stands in a line of text or on lines of its own. -/
inductive MathPosition where
  /-- Written `$…$` or `\(…\)`. -/
  | inline
  /-- Written `$$…$$` or `\[…\]`. -/
  | display
  deriving DecidableEq, Repr

inductive AccentForm where
  /-- The mark is a symbol and applies to any unit, as in `\'e` and `\^{o}`. -/
  | symbol
  /-- The mark is a letter, which is an accent only before a brace group, as in `\c{c}`. -/
  | letter
  deriving DecidableEq, Repr

inductive ScriptKind where
  | superscript
  | subscript
  deriving DecidableEq, Repr

namespace ScriptKind

def mark : ScriptKind → Char
  | superscript => '^'
  | subscript => '_'

/-- The name of the construct, for people. -/
def name : ScriptKind → String
  | superscript => "superscript"
  | subscript => "subscript"

end ScriptKind

/-- A key of an optional argument with the tokens after its equals sign. -/
structure KeyValue (τ : Type) where
  /-- The key as typeset, without blank margins. -/
  key : Text
  value : List τ
  deriving DecidableEq, Repr

inductive OptionValue (τ : Type) where
  /-- A switch, such as `[h]` or `[\small]`. -/
  | single (token : τ)
  /-- Settings, such as `[width=3cm, angle=90]`. -/
  | pairs (pairs : List (KeyValue τ))
  /-- Any other body, the empty one included. -/
  | tokens (tokens : List τ)
  deriving DecidableEq, Repr

/-- An argument of a command; its literal includes the delimiters. -/
inductive Argument (τ : Type) where
  | required (tokens : List τ) (literal : Text)
  | optional (value : OptionValue τ) (literal : Text)
  deriving DecidableEq, Repr

inductive Token where
  /-- A named command, such as `\section{Intro}`; the name leaves out the backslash. -/
  | command (name : Text) (arguments : List (Argument Token)) (literal : Text)
  | math (position : MathPosition) (tokens : List Token) (literal : Text)
  /-- A brace group that is not an argument. -/
  | block (tokens : List Token) (literal : Text)
  /-- Brackets in running text around more than text, such as `[\ref{x}]`. -/
  | bracket (tokens : List Token) (literal : Text)
  | accent (form : AccentForm) (mark : Char) (body : Token) (literal : Text)
  /-- A comment; its text leaves out the percent sign and the line break. -/
  | comment (text : Text) (literal : Text)
  /-- The column separator `&`. -/
  | columnAlign
  /-- A parameter reference, such as `#1`. -/
  | placeholder (index : Nat) (literal : Text)
  | script (kind : ScriptKind) (body : Token) (literal : Text)
  | content (text : Text) (literal : Text)
  deriving Repr

/-- What a token is to the token directly around it. -/
inductive Role where
  /-- In a group or a formula, or under an accent or a script. -/
  | child
  | required
  | single
  /-- In an optional argument that is neither a switch nor settings. -/
  | optional
  | setting (key : Text)
  deriving DecidableEq, Repr

namespace Argument
variable {τ : Type}

/-- The stretch of text that the argument covers, delimiters included. -/
def literal : Argument τ → Text
  | required _ l => l
  | optional _ l => l

def isRequired : Argument τ → Bool
  | required .. => true
  | optional .. => false

def parts : Argument τ → List (Role × τ)
  | required ts _ => ts.map (.required, ·)
  | optional (.single t) _ => [(.single, t)]
  | optional (.pairs ps) _ => ps.flatMap fun p => p.value.map (.setting p.key, ·)
  | optional (.tokens ts) _ => ts.map (.optional, ·)

theorem sizeOf_lt_of_mem_parts [SizeOf τ] {a : Argument τ} {p : Role × τ} (h : p ∈ a.parts) :
    sizeOf p.2 < sizeOf a := by
  cases a with
  | required ts l =>
    obtain ⟨t, ht, rfl⟩ := List.mem_map.mp h
    have := List.sizeOf_lt_of_mem ht
    simp only [required.sizeOf_spec]
    omega
  | optional v l =>
    cases v with
    | single t =>
      cases List.mem_singleton.mp h
      simp only [optional.sizeOf_spec, OptionValue.single.sizeOf_spec]
      omega
    | pairs ps =>
      obtain ⟨kv, hkv, hp⟩ := List.mem_flatMap.mp h
      obtain ⟨t, ht, rfl⟩ := List.mem_map.mp hp
      have h₁ := List.sizeOf_lt_of_mem hkv
      have h₂ := List.sizeOf_lt_of_mem ht
      cases kv
      simp only [optional.sizeOf_spec, OptionValue.pairs.sizeOf_spec, KeyValue.mk.sizeOf_spec]
        at h₁ h₂ ⊢
      omega
    | tokens ts =>
      obtain ⟨t, ht, rfl⟩ := List.mem_map.mp h
      have := List.sizeOf_lt_of_mem ht
      simp only [optional.sizeOf_spec, OptionValue.tokens.sizeOf_spec]
      omega

end Argument

namespace Token

/-- A run of text; what is typeset follows from the literal. -/
def ofText (literal : Text) : Token := content literal.typeset literal

/-- The stretch of protected text that the token covers. -/
def literal : Token → Text
  | command _ _ l | math _ _ l | block _ l | bracket _ l | accent _ _ _ l | comment _ l
  | placeholder _ l | script _ _ l | content _ l => l
  | columnAlign => ['&']

def size (t : Token) : Nat := t.literal.size

def asWritten (t : Token) : Text := t.literal.asWritten

def commandName? : Token → Option Text
  | command name _ _ => some name
  | _ => none

def arguments : Token → List (Argument Token)
  | command _ as _ => as
  | _ => []

/-- The `i`-th required argument, not counting optional ones. -/
def required? (t : Token) (i : Nat) : Option (Argument Token) :=
  (t.arguments.filter Argument.isRequired)[i]?

/-- The `i`-th optional argument, not counting required ones. -/
def optional? (t : Token) (i : Nat) : Option (Argument Token) :=
  (t.arguments.filter fun a => !a.isRequired)[i]?

/-- The tokens directly inside, apart from the arguments of a command. -/
def children : Token → List Token
  | math _ ts _ | block ts _ | bracket ts _ => ts
  | accent _ _ b _ | script _ b _ => [b]
  | _ => []

/-- All tokens directly inside, with their roles. -/
def parts (t : Token) : List (Role × Token) :=
  t.children.map (.child, ·) ++ t.arguments.flatMap Argument.parts

def kindName : Token → String
  | command .. => "command"
  | math .. => "math"
  | block .. => "block"
  | bracket .. => "bracket"
  | accent .. => "accent"
  | comment .. => "comment"
  | columnAlign => "column alignment"
  | placeholder .. => "placeholder"
  | script .. => "script"
  | content .. => "content"

@[simp] theorem literal_ofText (l : Text) : (ofText l).literal = l := rfl

theorem sizeOf_lt_of_mem_parts {t : Token} {p : Role × Token} (h : p ∈ t.parts) :
    sizeOf p.2 < sizeOf t := by
  rcases List.mem_append.mp h with h | h
  · obtain ⟨s, hs, rfl⟩ := List.mem_map.mp h
    cases t <;> simp only [children, List.mem_singleton, List.not_mem_nil] at hs
    case math ts _ | block ts _ | bracket ts _ =>
      have := List.sizeOf_lt_of_mem hs
      simp
      omega
    all_goals
      subst hs
      simp
      omega
  · obtain ⟨a, ha, hp⟩ := List.mem_flatMap.mp h
    have h₁ := Argument.sizeOf_lt_of_mem_parts hp
    cases t <;> simp only [arguments, List.not_mem_nil] at ha
    have h₂ := List.sizeOf_lt_of_mem ha
    simp
    omega

end Token

end LatexTokens
