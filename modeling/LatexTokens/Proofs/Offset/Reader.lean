import LatexTokens.Proofs.Offset.Leaf

/-!
# Reading one token at an offset

The reader of one token works on the buffer with the offset of the token. What it needs to read a
region is a parameter, as for the reader of texts, and gets a copy of the region.
-/

set_option autoImplicit false

namespace LatexTokens

namespace Checked

section
variable (nested : Bool → Text → Checked (List Token)) (math : Bool)

/-- Reads the region between an opening and the offset of its closing. Gives the literal and the
tokens of the region. -/
def inside (e : Enclosure) (s : Text) (p close : Nat) : Checked (Text × List Token) := do
  let start ← sum p e.opening.size
  let inner ← slice s start close
  let tokens ← rebase start (nested (math || e.isFormula) inner)
  let stop ← sum close e.closing.size
  let literal ← slice s p stop
  pure (literal, tokens)

def block (s : Text) (p : Nat) : Checked Token := do
  let close ← groupEnd s p
  let (literal, tokens) ← inside nested math (.group .brace) s p close
  pure (.block tokens literal)

def formula (f : Fence) (s : Text) (p : Nat) : Checked Token := do
  let close ← closing (.formula f) s p
  let (literal, tokens) ← inside nested math (.formula f) s p close
  pure (.math f.position tokens literal)

def dollar (s : Text) (p : Nat) : Checked Token := do
  let start ← sum p 1
  let rest ← sliceFrom s start
  formula nested math (if rest.head? = some '$' then .doubleDollar else .dollar) s p

def bracket (s : Text) (p : Nat) : Checked Token := do
  let close ← groupEnd s p
  let start ← sum p 1
  let inner ← slice s start close
  if inner.any isSignificant then
    let (literal, tokens) ← inside nested math (.group .bracket) s p close
    pure (.bracket tokens literal)
  else content math s p

/-- Reads the argument whose closing delimiter is at an offset. -/
def argument (d : Delimiter) (s : Text) (p close : Nat) : Checked (Argument Token) := do
  let (literal, tokens) ← inside nested math (.group d) s p close
  match d with
  | .brace => pure (.required tokens literal)
  | .bracket =>
    match OptionValue.ofTokens tokens with
    | .error cause => fail ⟨⟨← sum p 1, close⟩, cause⟩
    | .ok value => pure (.optional value literal)

/-- Reads the arguments from an offset on, and gives the offset behind them. -/
def arguments (s : Text) (p : Nat) : Checked (List (Argument Token) × Nat) := do
  let c ← charAt s p
  match c.bind Delimiter.ofOpening? with
  | none => pure ([], p)
  | some d =>
    let close ← groupEnd s p
    let a ← argument nested math d s p close
    let next ← sum close 1
    if s.size - next < s.size - p then
      let (as, stop) ← arguments s next
      pure (a :: as, stop)
    else ExceptT.mk none
termination_by s.size - p

/-- The offset behind the name of a command, behind a star that follows it. -/
def nameEnd (s : Text) (p : Nat) : Option Nat := do
  let letters ← runEnd s p Char.isAlphanum
  let c ← charAt s letters
  if c = some '*' then sum letters 1 else some letters

def command (s : Text) (p : Nat) : Checked Token := do
  let start ← sum p 1
  let behind ← nameEnd s start
  let (as, stop) ← arguments nested math s behind
  let name ← slice s start behind
  let literal ← slice s p stop
  pure (.command name as literal)

def letterAccent (mark : Char) (s : Text) (p : Nat) : Checked Token := do
  let start ← sum p 2
  let body ← block nested math s start
  let stop ← sum start body.size
  let literal ← slice s p stop
  pure (.accent .letter mark body literal)

/-- The character behind a backslash and a letter, if the letter can be an accent. -/
def behindLetter (c : Char) (s : Text) (p : Nat) : Option (Option Char) :=
  if Lexing.isLetterAccent c then do charAt s (← sum p 2) else some none

/-- Reads what a backslash at an offset starts, given the character after it, which is no symbol
accent. -/
def control (c : Char) (s : Text) (p : Nat) : Checked Token := do
  if c = '[' then formula nested math .square s p
  else if c = '(' then formula nested math .parenthesis s p
  else if c = ']' || c = ')' then
    let stop ← sum p 2
    let closing ← slice s p stop
    fail ⟨⟨p, stop⟩, .unexpectedMathCloser closing⟩
  else
    let next ← behindLetter c s p
    if next = some '{' then letterAccent nested math c s p
    else if c.isAlphanum then command nested math s p
    else if Lexing.isControlSymbol c then
      let stop ← sum p 2
      let literal ← slice s p stop
      pure (.command [c] [] literal)
    else fail (.point p .emptyControlSequence)

/-- The fault of a construct from an offset on that has no unit at another. -/
def invalidUnit (construct : String) (s : Text) (start p : Nat) : Checked Token := do
  let c ← charAt s p
  let stop ← sum p (c.elim 0 Char.utf8Size)
  fail ⟨⟨start, stop⟩, .invalidUnit construct⟩

mutual

/-- Reads the unit at an offset, for a construct that starts at another. -/
def unit (construct : String) (s : Text) (start p : Nat) : Checked Token := do
  match ← charAt s p with
  | none => invalidUnit construct s start p
  | some c =>
    if c = '{' then block nested math s p
    else if c = '\\' then
      let token ← backslash s p
      match Lexing.asUnit token with
      | some body => pure body
      | none => invalidUnit construct s start p
    else if isAlphanumeric c then
      let stop ← sum p c.utf8Size
      let literal ← slice s p stop
      pure (.ofText literal)
    else invalidUnit construct s start p
termination_by (s.size - p, 1)

def backslash (s : Text) (p : Nat) : Checked Token := do
  match ← charAt s (← sum p 1) with
  | none => fail (.point p .emptyControlSequence)
  | some c =>
    if Lexing.isSymbolAccent c then
      let start ← sum p 2
      if s.size - start < s.size - p then
        let body ← unit "accent" s p start
        let stop ← sum start body.size
        let literal ← slice s p stop
        pure (.accent .symbol c body literal)
      else ExceptT.mk none
    else control nested math c s p
termination_by (s.size - p, 0)

end

def script (kind : ScriptKind) (s : Text) (p : Nat) : Checked Token := do
  let start ← sum p 1
  let body ← unit nested math kind.name s p start
  let stop ← sum start body.size
  let literal ← slice s p stop
  pure (.script kind body literal)

end

/-- The number of brackets that are open behind a text, given the number in front of it. -/
def openBrackets (opened : Nat) : Text → Option Nat
  | [] => some opened
  | c :: t => do
    if c = '[' then openBrackets (← sum opened 1) t
    else if c = ']' then openBrackets (opened - 1) t
    else openBrackets opened t

section
variable (nested : Bool → Text → Checked (List Token)) (math : Bool)

/-- Reads the token that starts with a character at an offset. A closing bracket in math is text
if a bracket is open in front of it. -/
def read (c : Char) (s : Text) (p : Nat) : Checked Token := do
  match c with
  | '{' => block nested math s p
  | '\\' => backslash nested math s p
  | '^' => script nested math .superscript s p
  | '_' => script nested math .subscript s p
  | '&' => pure .columnAlign
  | '%' => comment s p
  | '#' => placeholder s p
  | '$' => dollar nested math s p
  | '}' => fail (.point p (.noMatchingOpener '}'))
  | '[' => if math then content math s p else bracket nested math s p
  | ']' =>
    let opened ← if math then do openBrackets 0 (← slice s 0 p) else pure 0
    if 0 < opened then content math s p else fail (.point p (.noMatchingOpener ']'))
  | _ => content math s p

/-- Reads the token at an offset, or nothing at the end of the buffer. -/
def lexToken (s : Text) (p : Nat) : Checked (Option Token) := do
  match ← charAt s p with
  | none => pure none
  | some c => some <$> read nested math c s p

end

end Checked

end LatexTokens
