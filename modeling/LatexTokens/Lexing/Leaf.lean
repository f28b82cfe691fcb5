import LatexTokens.Fault
import LatexTokens.Token.Basic

/-!
# Tokens without parts

Text, comments and parameter references hold no other tokens. Each function reads one of them
from the character that starts it, or from the text after that character.
-/

set_option autoImplicit false

namespace LatexTokens

/-- The number of values of a 64-bit word. -/
def wordSize : Nat := 0x10000000000000000

/-- The nine characters that are structure wherever they stand. -/
def isSignificant (c : Char) : Bool :=
  ['\\', '{', '}', '$', '&', '%', '#', '^', '_'].contains c

namespace Lexing

/-- The rest of a run of text outside math, of which so many brackets are open. A bracket ends
the run where none of its own is open. -/
def plainRun : Nat → Text → Text
  | _, [] => []
  | depth, c :: t =>
    if c = '[' then
      match depth with
      | 0 => []
      | depth + 1 => c :: plainRun (depth + 2) t
    else if c = ']' then
      match depth with
      | 0 => []
      | depth + 1 => c :: plainRun depth t
    else if isSignificant c then []
    else c :: plainRun depth t

/-- The rest of a run of text in math, where an opening bracket is text. -/
def mathRun (t : Text) : Text := t.takeWhile fun c => c ≠ ']' && !isSignificant c

/-- The text that starts with a character. -/
def content (math : Bool) (c : Char) (t : Text) : Token :=
  .ofText (c :: if math then mathRun t else plainRun (if c = '[' then 1 else 0) t)

/-- The text without a carriage return at its end. -/
def withoutReturn (t : Text) : Text := if t.getLast? = some '\r' then t.dropLast else t

/-- The comment before a text: it goes to the end of the line and takes the line feed along. -/
def comment (t : Text) : Token :=
  let body := t.takeWhile (· ≠ '\n')
  .comment (withoutReturn body).asWritten ('%' :: (body ++ (t.drop body.length).take 1))

def decimal (digits : Text) : Nat := digits.foldl (fun n c => 10 * n + (c.toNat - '0'.toNat)) 0

/-- The parameter reference whose number a text starts with. The number fits a 64-bit word. -/
def placeholder (t : Text) : Except Fault Token :=
  let digits := t.takeWhile Char.isDigit
  if digits.isEmpty then .error (.point 0 .emptyPlaceholder)
  else if decimal digits < wordSize then .ok (.placeholder (decimal digits) ('#' :: digits))
  else .error ⟨⟨0, 1 + Text.size digits⟩, .placeholderTooLarge⟩

theorem literal_eq_cons_of_placeholder {t : Text} {token : Token} (h : placeholder t = .ok token) :
    ∃ l, token.literal = '#' :: l := by
  simp only [placeholder] at h
  split at h
  · cases h
  · split at h <;> cases h
    exact ⟨_, rfl⟩

end Lexing

end LatexTokens
