import LatexTokens.Lexing.Region
import LatexTokens.Proofs.Lexing.Closing
import LatexTokens.Proofs.Text.Run

/-!
# Which tokens stand where

`Stands` says of a token whether it can stand in a region, given the one character that follows
it. `read_eq_ok_iff` is the exact relation to reading: a token is read at the start of a text
precisely if its literal starts the text and it stands before the character behind the literal.
So nothing beyond that character takes part in reading a token.

The tokens of inner regions are what the region lexer gives. That lexer stays a parameter.
-/

set_option autoImplicit false

namespace LatexTokens

/-- Whether the token is text. -/
def Token.isContent : Token → Bool
  | content .. => true
  | _ => false

namespace Lexing

/-- Whether a character continues a run of text. -/
def isPlain (math : Bool) (c : Char) : Bool :=
  !isSignificant c && c ≠ ']' && (math || c ≠ '[')

/-- Whether a text is the whole name of a command before the given character. A letter accent is
no name before a brace. -/
inductive IsName (after : Option Char) : Text → Prop where
  | plain {letters : Text} : letters ≠ [] → Text.IsRun Char.isAlphanum letters after →
      after ≠ some '*' → (∀ c, letters = [c] → isLetterAccent c → after ≠ some '{') →
      IsName after letters
  | starred {letters : Text} : letters ≠ [] → (∀ c ∈ letters, c.isAlphanum) →
      IsName after (letters ++ ['*'])

section
variable (nested : RegionLexer) (math : Bool)

/-- A text that an enclosure holds, with its tokens. -/
structure IsRegion (e : Enclosure) (inner : Text) (tokens : List Token) : Prop where
  encloses : e.Encloses inner
  lexed : nested (math || e.isFormula) inner = .ok tokens

inductive IsArgument : Argument Token → Prop where
  | required {inner : Text} {tokens : List Token} :
      IsRegion nested math (.group .brace) inner tokens →
      IsArgument (.required tokens ((Enclosure.group .brace).around inner))
  | optional {inner : Text} {tokens : List Token} {value : OptionValue Token} :
      IsRegion nested math (.group .bracket) inner tokens → OptionValue.ofTokens tokens = .ok value →
      IsArgument (.optional value ((Enclosure.group .bracket).around inner))

variable (next : Option Char)

/-- Whether a token can be what an accent or a script applies to. -/
inductive IsUnit : Token → Prop where
  | block {inner : Text} {tokens : List Token} :
      IsRegion nested math (.group .brace) inner tokens →
      IsUnit (.block tokens ((Enclosure.group .brace).around inner))
  | command {name : Text} {arguments : List (Argument Token)} :
      IsName ((arguments.flatMap Argument.literal).head?.or next) name →
      (∀ a ∈ arguments, IsArgument nested math a) →
      (∀ c ∈ next, Delimiter.ofOpening? c = none) →
      IsUnit (.command name arguments ('\\' :: (name ++ arguments.flatMap Argument.literal)))
  | symbol {c : Char} : isControlSymbol c → IsUnit (.command [c] [] ['\\', c])
  | letterAccent {mark : Char} {inner : Text} {tokens : List Token} : isLetterAccent mark →
      IsRegion nested math (.group .brace) inner tokens →
      IsUnit (.accent .letter mark (.block tokens ((Enclosure.group .brace).around inner))
        ('\\' :: mark :: (Enclosure.group .brace).around inner))
  | symbolAccent {mark : Char} {body : Token} : isSymbolAccent mark → IsUnit body →
      IsUnit (.accent .symbol mark body ('\\' :: mark :: body.literal))
  | character {c : Char} : isAlphanumeric c → IsUnit (.ofText [c])

/-- Whether a token can stand before the next character in a region in which so many brackets
are open before the token. -/
inductive Stands (opened : Nat) : Token → Prop where
  | unit {token : Token} : IsUnit nested math next token → token.isContent = false →
      Stands opened token
  | script {kind : ScriptKind} {body : Token} : IsUnit nested math next body →
      Stands opened (.script kind body (kind.mark :: body.literal))
  | formula {f : Fence} {inner : Text} {tokens : List Token} :
      IsRegion nested math (.formula f) inner tokens → (f = .dollar → inner ≠ []) →
      Stands opened (.math f.position tokens ((Enclosure.formula f).around inner))
  | columnAlign : Stands opened .columnAlign
  | comment {body stop : Text} : '\n' ∉ body → stop = ['\n'] ∨ stop = [] ∧ next = none →
      Stands opened (.comment (withoutReturn body).asWritten ('%' :: (body ++ stop)))
  | placeholder {digits : Text} : digits ≠ [] → Text.IsRun Char.isDigit digits next →
      decimal digits < wordSize →
      Stands opened (.placeholder (decimal digits) ('#' :: digits))
  | text {c : Char} {run : Text} : isPlain math c → Text.IsRun (isPlain math) run next →
      Stands opened (.ofText (c :: run))
  | closingText {run : Text} : math = true → 0 < opened → Text.IsRun (isPlain math) run next →
      Stands opened (.ofText (']' :: run))
  | bracketText {inner run : Text} : math = false → (Enclosure.group .bracket).Encloses inner →
      (∀ c ∈ inner, isSignificant c = false) → Text.IsRun (isPlain math) run next →
      Stands opened (.ofText ((Enclosure.group .bracket).around inner ++ run))
  | bracket {inner : Text} {tokens : List Token} : math = false →
      IsRegion nested math (.group .bracket) inner tokens → (∃ c ∈ inner, isSignificant c) →
      Stands opened (.bracket tokens ((Enclosure.group .bracket).around inner))

end

end Lexing

end LatexTokens
