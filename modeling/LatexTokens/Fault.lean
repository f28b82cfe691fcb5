import LatexTokens.Text.Basic

/-!
# Faults

What can be wrong with a document, where, and how it is said to people. A fault found inside a
region is placed relative to that region; `Fault.shift` places it in the text around it. Shifts
compose (`Fault.shift_shift`), and they change positions only.
-/

set_option autoImplicit false

namespace LatexTokens

/-- A range of byte offsets, the end excluded. -/
structure Span where
  start : Nat
  stop : Nat
  deriving DecidableEq, Repr

namespace Span

def shift (n : Nat) (s : Span) : Span := ⟨s.start + n, s.stop + n⟩

theorem shift_shift (m n : Nat) (s : Span) : (s.shift m).shift n = s.shift (m + n) := by
  simp [shift, Nat.add_assoc]

end Span

inductive Cause where
  | neverTerminated (opening : Char)
  /-- A closing character has no group to close. -/
  | noMatchingOpener (closing : Char)
  /-- A closing character does not fit the innermost open group. -/
  | mismatchedDelimiter (opening : Char) (openingPosition : Nat) (closing : Char)
  | unterminatedMath (closing : Text)
  /-- A formula is closed where none is open. -/
  | unexpectedMathCloser (closing : Text)
  /-- A backslash starts neither a command nor a known symbol. -/
  | emptyControlSequence
  /-- A hash has no parameter number. -/
  | emptyPlaceholder
  /-- A parameter number does not fit a 64-bit word. -/
  | placeholderTooLarge
  /-- A script or an accent has no unit to apply to. -/
  | invalidUnit (construct : String)
  /-- A segment of the settings of an optional argument is not of the form `key=value`. -/
  | missingEquals (segment : Text)
  /-- A token other than text or a comment stands where a key is expected. -/
  | valueWithoutKey
  | nestingTooDeep (limit : Nat)
  deriving DecidableEq, Repr

/-- A cause moved forward: the one position that a cause may hold moves along. -/
def Cause.shift (n : Nat) : Cause → Cause
  | .mismatchedDelimiter opening position closing =>
    .mismatchedDelimiter opening (position + n) closing
  | c => c

structure Fault where
  span : Span
  cause : Cause
  deriving DecidableEq, Repr

/-- A remark on a stretch of the text. -/
structure Label where
  span : Span
  text : String
  deriving DecidableEq, Repr

namespace Fault

/-- A fault on the one-byte character at a position. -/
def point (position : Nat) (cause : Cause) : Fault := ⟨⟨position, position + 1⟩, cause⟩

/-- The fault as seen from a text in which its own text starts that much later. -/
def shift (n : Nat) (f : Fault) : Fault := ⟨f.span.shift n, f.cause.shift n⟩

@[simp] theorem shift_zero (f : Fault) : f.shift 0 = f := by
  obtain ⟨span, cause⟩ := f
  cases cause <;> rfl

theorem shift_shift (m n : Nat) (f : Fault) : (f.shift m).shift n = f.shift (m + n) := by
  obtain ⟨span, cause⟩ := f
  cases cause <;> simp [shift, Cause.shift, Span.shift_shift, Nat.add_assoc]

/-- What is wrong, in a sentence. -/
def message (f : Fault) : String :=
  match f.cause with
  | .neverTerminated opening => s!"The opening character `{opening}` is never terminated"
  | .noMatchingOpener closing =>
    s!"The closing character `{closing}` has no matching opening character"
  | .mismatchedDelimiter opening _ closing =>
    s!"The closing character `{closing}` does not match `{opening}`"
  | .unterminatedMath closing =>
    s!"The math region is never terminated by `{String.ofList closing}`"
  | .unexpectedMathCloser closing =>
    s!"`{String.ofList closing}` appears outside of a math region"
  | .emptyControlSequence => "A backslash is not followed by a command name"
  | .emptyPlaceholder => "A `#` is not followed by a parameter number"
  | .placeholderTooLarge => "The parameter number is too large"
  | .invalidUnit construct =>
    s!"The {construct} is not followed by a character, group or command"
  | .missingEquals _ => "Keys and values must be separated by an equals sign"
  | .valueWithoutKey => "A value appears in an optional argument without a key"
  | .nestingTooDeep limit => s!"Groups are nested more than {limit} levels deep"

def description (f : Fault) : String :=
  s!"{f.message} (bytes {f.span.start}..{f.span.stop})"

/-- Remarks on the text, the first on the fault's own span. -/
def labels (f : Fault) : List Label :=
  match f.cause with
  | .mismatchedDelimiter opening position closing =>
    [⟨f.span, s!"`{closing}` appears here"⟩,
      ⟨⟨position, position + 1⟩, s!"the innermost open group starts with `{opening}` here"⟩]
  | .neverTerminated opening =>
    [⟨f.span, s!"the group opened by `{opening}` continues to the end of the input"⟩]
  | .missingEquals segment =>
    [⟨f.span, s!"the segment `{String.ofList segment}` appears in this argument"⟩]
  | _ => [⟨f.span, "error occurred here"⟩]

/-- Advice on how to mend the document. -/
def notes (f : Fault) : List String :=
  match f.cause with
  | .noMatchingOpener _ => ["to typeset a literal brace use `\\\x7b` or `\\\x7d`"]
  | .emptyPlaceholder => ["to typeset a literal hash use `\\#`"]
  | .invalidUnit _ =>
    ["to apply it to more than one character surround them with braces"]
  | .missingEquals _ =>
    ["key/value pairs are separated by commas, e.g. `[a=1, b=2]`"]
  | _ => []

end Fault

end LatexTokens
