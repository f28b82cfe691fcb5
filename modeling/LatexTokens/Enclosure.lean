import LatexTokens.Fault
import LatexTokens.Token.Basic

/-!
# What encloses a region

Braces, brackets and the four spellings of math delimiters enclose regions of a document.
`Enclosure.split` finds where a region ends: at the first closing that no group opened inside
the region holds back. Comments are passed over, and brackets count only where they are to nest.
`append_eq_of_split` says that the region, its closing and the rest are the text that was split.
-/

set_option autoImplicit false

namespace LatexTokens

/-- The two kinds of characters that open a group. -/
inductive Delimiter where
  | brace
  | bracket
  deriving DecidableEq, Repr

namespace Delimiter

def opening : Delimiter → Char
  | brace => '{'
  | bracket => '['

def closing : Delimiter → Char
  | brace => '}'
  | bracket => ']'

/-- The delimiter that a character opens a group with. -/
def ofOpening? : Char → Option Delimiter
  | '{' => some brace
  | '[' => some bracket
  | _ => none

end Delimiter

/-- The groups that are open at a point of a region, and whether the point is in a comment. -/
structure Scan where
  /-- Innermost first, each with its offset. -/
  opened : List (Delimiter × Nat) := []
  commented : Bool := false
  deriving DecidableEq, Repr

/-- Which delimiters open groups inside a region. -/
inductive Nesting where
  | braces
  /-- Braces, and brackets that are not directly inside braces. -/
  | bracesAndBrackets
  deriving DecidableEq, Repr

namespace Scan

/-- Whether a closing that stands here ends the region. -/
def isIdle (s : Scan) : Bool := s.opened.isEmpty && !s.commented

/-- Whether brackets open and close groups here. -/
def bracketsNest (s : Scan) : Nesting → Bool
  | .braces => false
  | .bracesAndBrackets => match s.opened with
    | (.brace, _) :: _ => false
    | _ => true

def push (s : Scan) (d : Delimiter) (position : Nat) : Scan :=
  { s with opened := (d, position) :: s.opened }

/-- Closes the innermost group, which has to be one of the same kind. -/
def pop (s : Scan) (d : Delimiter) (position : Nat) : Except Fault Scan :=
  match s.opened with
  | [] => .error (.point position (.noMatchingOpener d.closing))
  | (e, start) :: opened =>
    if e = d then .ok { s with opened }
    else .error (.point position (.mismatchedDelimiter e.opening start d.closing))

def step (n : Nesting) (position : Nat) (c : Char) (s : Scan) : Except Fault Scan :=
  if s.commented then .ok { s with commented := c != '\n' }
  else if c = '%' then .ok { s with commented := true }
  else if c = '{' then .ok (s.push .brace position)
  else if c = '}' then s.pop .brace position
  else if c = '[' && s.bracketsNest n then .ok (s.push .bracket position)
  else if c = ']' && s.bracketsNest n then s.pop .bracket position
  else .ok s

/-- Finds the first closing at which no group and no comment is open. Gives the text before it
and the text after it, or nothing where all groups are closed but the closing is missing. -/
def find (n : Nesting) (closing : Text) :
    Scan → Nat → Text → Except Fault (Option (Text × Text))
  | s, position, [] => match s.opened with
    | [] => .ok none
    | (d, start) :: _ => .error ⟨⟨start, position⟩, .neverTerminated d.opening⟩
  | s, position, c :: t =>
    if s.isIdle && closing.isPrefixOf (c :: t) then
      .ok (some ([], (c :: t).drop closing.length))
    else match s.step n position c with
      | .error f => .error f
      | .ok s => match find n closing s (position + c.utf8Size) t with
        | .error f => .error f
        | .ok none => .ok none
        | .ok (some (inner, rest)) => .ok (some (c :: inner, rest))

theorem append_eq_of_find {n : Nesting} {closing : Text} {s : Scan} {position : Nat}
    {t inner rest : Text} (h : find n closing s position t = .ok (some (inner, rest))) :
    inner ++ (closing ++ rest) = t := by
  induction t generalizing s position inner with
  | nil =>
    rw [find] at h
    split at h <;> cases h
  | cons c t ih =>
    rw [find] at h
    split at h
    · next hc =>
      cases h
      have hp := List.isPrefixOf_iff_prefix.mp (Bool.and_eq_true_iff.mp hc).2
      exact List.prefix_iff_eq_append.mp hp
    · split at h
      · cases h
      · split at h
        · cases h
        · cases h
        · next hf =>
          cases h
          exact congrArg (c :: ·) (ih hf)

end Scan

/-- The four spellings of math delimiters. -/
inductive Fence where
  /-- `$…$` -/
  | dollar
  /-- `$$…$$` -/
  | doubleDollar
  /-- `\(…\)` -/
  | parenthesis
  /-- `\[…\]` -/
  | square
  deriving DecidableEq, Repr

/-- Where a formula with these delimiters stands. -/
def Fence.position : Fence → MathPosition
  | dollar | parenthesis => .inline
  | doubleDollar | square => .display

inductive Enclosure where
  | group (d : Delimiter)
  | formula (f : Fence)
  deriving DecidableEq, Repr

namespace Enclosure

def opening : Enclosure → Text
  | group d => [d.opening]
  | formula .dollar => ['$']
  | formula .doubleDollar => ['$', '$']
  | formula .parenthesis => ['\\', '(']
  | formula .square => ['\\', '[']

def closing : Enclosure → Text
  | group d => [d.closing]
  | formula .dollar => ['$']
  | formula .doubleDollar => ['$', '$']
  | formula .parenthesis => ['\\', ')']
  | formula .square => ['\\', ']']

/-- Brackets nest in brackets alone: braces and math may hold brackets that are not paired. -/
def nesting : Enclosure → Nesting
  | group .bracket => .bracesAndBrackets
  | _ => .braces

def isFormula : Enclosure → Bool
  | group _ => false
  | formula _ => true

/-- What is wrong where the closing is missing. -/
def unclosed : Enclosure → Cause
  | group d => .neverTerminated d.opening
  | formula f => .unterminatedMath (formula f).closing

/-- Splits the text that follows an opening at the closing of the region. Faults are placed
relative to the opening. -/
def split (e : Enclosure) (t : Text) : Except Fault (Text × Text) :=
  match Scan.find e.nesting e.closing {} e.opening.size t with
  | .error f => .error f
  | .ok none => .error ⟨⟨0, e.opening.size + t.size⟩, e.unclosed⟩
  | .ok (some parts) => .ok parts

theorem append_eq_of_split {e : Enclosure} {t inner rest : Text}
    (h : e.split t = .ok (inner, rest)) : inner ++ (e.closing ++ rest) = t := by
  rw [split] at h
  split at h <;> cases h
  next h => exact Scan.append_eq_of_find h

end Enclosure

end LatexTokens
