import LatexTokens.Fault
import LatexTokens.Text.Blank
import LatexTokens.Token.Basic

/-!
# Settings in optional arguments

The body of an optional argument holds settings, `key=value` pairs with commas between them, if
some text in it has an equals sign. Commas in the text cut the body into segments, and each
segment is one setting: its key is text, perhaps with comments, up to the only equals sign, and
its value is every text and token after that, without blank margins.

`OptionValue.ofTokens` tells settings from a switch and from any other body.
-/

set_option autoImplicit false

namespace LatexTokens

/-- The parts between the separators, at least one. -/
def Text.splitOn (separator : Char) : Text → List Text
  | [] => [[]]
  | c :: t =>
    if c = separator then [] :: splitOn separator t
    else match splitOn separator t with
      | [] => [[c]]
      | part :: parts => (c :: part) :: parts

namespace Setting

inductive Piece where
  /-- Text without commas. -/
  | text (text : Text)
  /-- A token that is not text. -/
  | token (token : Token)
  deriving Repr

/-- The pieces between two commas. -/
abbrev Segment := List Piece

/-- Puts a piece at the start of the first segment. -/
def addPiece (p : Piece) : List Segment → List Segment
  | [] => [[p]]
  | s :: ss => (p :: s) :: ss

/-- Puts texts with commas between them in front of segments; the last text joins the first
segment. -/
def addTexts : List Text → List Segment → List Segment
  | [], ss => ss
  | [t], ss => addPiece (.text t) ss
  | t :: ts, ss => [.text t] :: addTexts ts ss

/-- Cuts tokens into segments at the commas of their text. -/
def segments : List Token → List Segment
  | [] => [[]]
  | .content _ literal :: ts => addTexts (Text.splitOn ',' literal) (segments ts)
  | t :: ts => addPiece (.token t) (segments ts)

/-- The fault of a segment or a part of one that does not have the form of a setting. -/
def missingEquals (t : Text) : Cause := .missingEquals t.trim.asWritten

/-- A piece as a token of a value; an empty text is none. -/
def Piece.token? : Piece → Option Token
  | .text [] => none
  | .text t => some (.ofText t)
  | .token t => some t

/-- The tokens of a value, without the blanks at its start. -/
def trimmedStart : Segment → List Token
  | [] => []
  | .text t :: ps => match t.trimStart with
    | [] => trimmedStart ps
    | t => .ofText t :: ps.filterMap Piece.token?
  | .token t :: ps => t :: ps.filterMap Piece.token?

/-- The tokens of a value, last one first, without the blanks at its end. -/
def trimmedEnd : List Token → List Token
  | .content _ literal :: ts => match literal.trimEnd with
    | [] => trimmedEnd ts
    | t => .ofText t :: ts
  | ts => ts

/-- The tokens of a value without blanks at its start and end. -/
def value (ps : Segment) : List Token := (trimmedEnd (trimmedStart ps).reverse).reverse

/-- The text of a piece, if it has an equals sign. -/
def Piece.equation? : Piece → Option Text
  | .text t => if t.contains '=' then some t else none
  | .token _ => none

/-- The setting of a key. The pieces after the first equals sign have to be a value with no
further equals sign in its text. -/
def ofValue (key : Text) (ps : Segment) : Except Cause (KeyValue Token) :=
  match ps.findSome? Piece.equation? with
  | some t => .error (missingEquals t)
  | none => match value ps with
    | [] => .error (missingEquals (key ++ ['=']))
    | ts => .ok ⟨key, ts⟩

/-- Reads a segment, of which some text before any equals sign is read already. -/
def read (pending : Text) : Segment → Except Cause (KeyValue Token)
  | [] => .error (missingEquals pending)
  | .token (.comment ..) :: ps => read pending ps
  | .token _ :: _ => .error .valueWithoutKey
  | .text t :: ps =>
    let segment := pending ++ t
    let key := Text.trim (segment.takeWhile (· ≠ '='))
    match segment.dropWhile (· ≠ '=') with
    | [] => read segment ps
    | _ :: rest =>
      if key.isEmpty || rest.contains '=' then .error (missingEquals segment)
      else ofValue key.typeset (.text rest :: ps)

end Setting

namespace Token

def isEquation : Token → Bool
  | content _ literal => literal.contains '='
  | _ => false

def isSwitch : Token → Bool
  | command .. | content .. => true
  | _ => false

end Token

/-- The body of an optional argument with these tokens. -/
def OptionValue.ofTokens (ts : List Token) : Except Cause (OptionValue Token) :=
  if ts.any Token.isEquation then ((Setting.segments ts).mapM (Setting.read [])).map .pairs
  else match ts with
    | [t] => .ok (if t.isSwitch then .single t else .tokens [t])
    | ts => .ok (.tokens ts)

end LatexTokens
