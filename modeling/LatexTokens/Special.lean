import LatexTokens.Text.Basic

/-!
# Special characters written with a backslash

A document writes ten special characters as sequences such as `\%`. Before a document is split
into tokens, `Text.protect` puts one private-use character, a sentinel, in place of each such
sequence, so that every brace, dollar or percent sign left in the text is structure. It also
drops line continuations. `Text.typeset` and `Text.asWritten` read sentinels back, as the
character that is typeset and as the sequence that stood in the document.

The readings go character by character, so they distribute over concatenation.
-/

set_option autoImplicit false

namespace LatexTokens

/-- A special character that a document can write as a sequence with a backslash. -/
inductive Special where
  | hash
  | percent
  | openBrace
  | closeBrace
  | backslash
  | ampersand
  | dollar
  | underscore
  | caret
  | tilde
  deriving DecidableEq, Repr

namespace Special

/-- The private-use character that stands for the sequence in a protected text. -/
def sentinel : Special → Char
  | hash => '\ue000'
  | percent => '\ue001'
  | openBrace => '\ue002'
  | closeBrace => '\ue003'
  | backslash => '\ue004'
  | ampersand => '\ue005'
  | dollar => '\ue006'
  | underscore => '\ue007'
  | caret => '\ue008'
  | tilde => '\ue009'

def symbol : Special → Char
  | hash => '#'
  | percent => '%'
  | openBrace => '{'
  | closeBrace => '}'
  | backslash => '\\'
  | ampersand => '&'
  | dollar => '$'
  | underscore => '_'
  | caret => '^'
  | tilde => '~'

/-- The sequence in the document. The two accents need an empty group after them. -/
def sequence : Special → Text
  | caret => ['\\', '^', '{', '}']
  | tilde => ['\\', '~', '{', '}']
  | s => ['\\', s.symbol]

def ofSentinel? : Char → Option Special
  | '\ue000' => some hash
  | '\ue001' => some percent
  | '\ue002' => some openBrace
  | '\ue003' => some closeBrace
  | '\ue004' => some backslash
  | '\ue005' => some ampersand
  | '\ue006' => some dollar
  | '\ue007' => some underscore
  | '\ue008' => some caret
  | '\ue009' => some tilde
  | _ => none

@[simp] theorem ofSentinel?_sentinel (s : Special) : ofSentinel? s.sentinel = some s := by
  cases s <;> rfl

theorem eq_sentinel_of_ofSentinel? {c : Char} {s : Special} (h : ofSentinel? c = some s) :
    c = s.sentinel := by
  unfold ofSentinel? at h
  split at h <;> cases h <;> rfl

/-- The special character whose sequence a backslash and the text after it start with. -/
def read? : Text → Option Special
  | '#' :: _ => some hash
  | '%' :: _ => some percent
  | '{' :: _ => some openBrace
  | '}' :: _ => some closeBrace
  | '\\' :: _ => some backslash
  | '&' :: _ => some ampersand
  | '$' :: _ => some dollar
  | '_' :: _ => some underscore
  | '^' :: '{' :: '}' :: _ => some caret
  | '~' :: '{' :: '}' :: _ => some tilde
  | _ => none

theorem sequence_append_of_read? {s : Special} {t : Text} (h : read? t = some s) :
    s.sequence ++ t.drop s.sequence.tail.length = '\\' :: t := by
  unfold read? at h
  split at h <;> cases h <;> rfl

end Special

def isSentinel (c : Char) : Bool := (Special.ofSentinel? c).isSome

namespace Text

/-- The spaces and tabs that a text starts with. -/
def indentation (t : Text) : Text := t.takeWhile fun c => c = ' ' || c = '\t'

/-- The rest of a line continuation, given the text after its backslash. The line break and the
spaces and tabs that indent the next line belong to the continuation. -/
def continuation? : Text → Option Text
  | '\r' :: '\n' :: t => some ('\r' :: '\n' :: indentation t)
  | '\n' :: t => some ('\n' :: indentation t)
  | _ => none

/-- Puts a sentinel for each special sequence and drops line continuations, from left to right. -/
def protect : Text → Text
  | [] => []
  | c :: t =>
    if c = '\\' then
      match Special.read? t with
      | some s => s.sentinel :: protect (t.drop s.sequence.tail.length)
      | none =>
        match continuation? t with
        | some line => protect (t.drop line.length)
        | none => '\\' :: protect t
    else c :: protect t
termination_by t => t.length
decreasing_by all_goals simp only [List.length_drop, List.length_cons]; omega

/-- The text with each sentinel replaced by the character that it typesets. -/
def typeset (t : Text) : Text :=
  t.map fun c => ((Special.ofSentinel? c).map Special.symbol).getD c

/-- The text with each sentinel replaced by the sequence that it was written as. -/
def asWritten (t : Text) : Text :=
  t.flatMap fun c => ((Special.ofSentinel? c).map Special.sequence).getD [c]

@[simp] theorem protect_nil : protect [] = [] := by
  rw [protect]

theorem protect_cons_of_ne {c : Char} (h : c ≠ '\\') (t : Text) :
    protect (c :: t) = c :: protect t := by
  rw [protect, if_neg h]

@[simp] theorem asWritten_append (s t : Text) :
    asWritten (s ++ t) = asWritten s ++ asWritten t := by
  simp [asWritten]

end Text

end LatexTokens
