import LatexTokens.Lexing.Single

/-!
# Reading regions and documents

A region is read token by token up to its end. Regions nest at most `maxNesting` deep;
`lexRegion` reads a region in which so many more levels are allowed, by recursion on that
number. `tokenize` reads a protected document, `readToken?` the one token at its start, and
`tokenAt?` the one token at an offset.
-/

set_option autoImplicit false

namespace LatexTokens

/-- How deep groups, arguments and formulas can be nested. -/
def maxNesting : Nat := 128

namespace Lexing

/-- The number of open brackets after a text, given the number before it. A closing bracket
without a partner is passed over. -/
def openBrackets (opened : Nat) (t : Text) : Nat :=
  t.foldl (fun n c => if c = '[' then n + 1 else if c = ']' then n - 1 else n) opened

/-- Reads the tokens of a text up to its end, given the number of brackets that are open in the
region before it. -/
def tokens (nested : RegionLexer) (math : Bool) (opened : Nat) :
    Text → Except Fault (List Token)
  | [] => .ok []
  | c :: t =>
    match read nested math opened c t with
    | .error f => .error f
    | .ok token =>
      match tokens nested math (openBrackets opened token.literal)
          (t.drop token.literal.tail.length) with
      | .error f => .error (f.shift token.size)
      | .ok ts => .ok (token :: ts)
termination_by t => t.length
decreasing_by simp only [List.length_drop, List.length_cons]; omega

end Lexing

/-- Reads a region inside which so many levels of nesting are left, itself included. -/
def lexRegion : Nat → RegionLexer
  | 0, _, t => .error ⟨⟨0, t.size⟩, .nestingTooDeep maxNesting⟩
  | levels + 1, math, t => Lexing.tokens (lexRegion levels) math 0 t

/-- Reads all tokens of a protected text. -/
def tokenize (t : Text) : Except Fault (List Token) := lexRegion (maxNesting + 1) false t

/-- Reads the token at the start of a protected text, or nothing at its end. -/
def readToken? : Text → Except Fault (Option Token)
  | [] => .ok none
  | c :: t => (Lexing.read (lexRegion maxNesting) false 0 c t).map some

/-- Reads the token at the last character boundary up to an offset of a protected text. -/
def tokenAt? (t : Text) (p : Nat) : Except Fault (Option Token) :=
  match readToken? (t.after p) with
  | .error f => .error (f.shift (t.floor p))
  | .ok r => .ok r

end LatexTokens
