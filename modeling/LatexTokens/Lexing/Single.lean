import LatexTokens.Enclosure
import LatexTokens.Lexing.Leaf
import LatexTokens.Setting
import LatexTokens.Text.Alphanumeric

/-!
# Reading one token

`Lexing.read` reads the token at the start of a text. How the regions inside a token are read is
a parameter, a `RegionLexer`, so that nothing here depends on how deep the token stands. All
faults are placed relative to the start of the token, and the literal of a token starts with the
character that the token starts with (`literal_eq_cons_of_read`).
-/

set_option autoImplicit false

namespace LatexTokens

/-- Reads all tokens of a region; the flag says whether the region is in math. -/
abbrev RegionLexer := Bool → Text → Except Fault (List Token)

namespace Lexing

/-- Symbols that are accents after a backslash, as in `\'e`. -/
def isSymbolAccent (c : Char) : Bool := ['^', '~', '\x60', '\'', '"', '=', '.'].contains c

/-- Letters that are accents between a backslash and a brace group, as in `\c{c}`. -/
def isLetterAccent (c : Char) : Bool := ['H', 'c', 'b', 'd', 'u', 'v', 't'].contains c

/-- Characters that are commands of their own after a backslash, as in `\,`. -/
def isControlSymbol (c : Char) : Bool :=
  [',', ';', ':', '!', '>', '<', '|', '/', '-', '@', ' '].contains c

/-- A token as the unit of an accent or a script, which can be a command or an accent. -/
def asUnit : Token → Option Token
  | t@(.command ..) | t@(.accent ..) => some t
  | _ => none

/-- Builds a token that consists of a lead and the unit in the text after it. -/
def applyTo (lead : Text) (construct : String) (make : Token → Token) (t : Text)
    (unit : Except Fault (Option Token)) : Except Fault Token :=
  match unit with
  | .error f => .error (f.shift lead.size)
  | .ok none => .error ⟨⟨0, lead.size + t.headSize⟩, .invalidUnit construct⟩
  | .ok (some body) => .ok (make body)

section
variable (nested : RegionLexer) (math : Bool)

/-- Reads a region and its closing, given the text after the opening. Gives the literal, with
the delimiters, and the tokens of the region. -/
def region (e : Enclosure) (t : Text) : Except Fault (Text × List Token) :=
  match e.split t with
  | .error f => .error f
  | .ok (inner, _) =>
    match nested (math || e.isFormula) inner with
    | .error f => .error (f.shift e.opening.size)
    | .ok tokens => .ok (e.opening ++ inner ++ e.closing, tokens)

/-- Reads a brace group, given the text after the brace. -/
def block (t : Text) : Except Fault Token :=
  match region nested math (.group .brace) t with
  | .error f => .error f
  | .ok (literal, tokens) => .ok (.block tokens literal)

/-- Reads a formula, given the text after its opening. -/
def formula (f : Fence) (t : Text) : Except Fault Token :=
  match region nested math (.formula f) t with
  | .error f => .error f
  | .ok (literal, tokens) => .ok (.math f.position tokens literal)

/-- Reads a formula that starts with a dollar sign, given the text after the sign. -/
def dollar : Text → Except Fault Token
  | '$' :: t => formula nested math .doubleDollar t
  | t => formula nested math .dollar t

/-- Reads brackets in running text, given the text after the bracket. Around text alone they
are the start of a run of text. -/
def bracket (t : Text) : Except Fault Token :=
  match (Enclosure.group .bracket).split t with
  | .error f => .error f
  | .ok (inner, _) =>
    if inner.any isSignificant then
      match region nested math (.group .bracket) t with
      | .error f => .error f
      | .ok (literal, tokens) => .ok (.bracket tokens literal)
    else .ok (content math '[' t)

/-- Reads an argument, given the text after its delimiter. A fault of settings is placed on the
whole body. -/
def argument (d : Delimiter) (t : Text) : Except Fault (Argument Token) :=
  match region nested math (.group d) t with
  | .error f => .error f
  | .ok (literal, tokens) =>
    match d with
    | .brace => .ok (.required tokens literal)
    | .bracket => match OptionValue.ofTokens tokens with
      | .error cause => .error ⟨⟨1, literal.size - 1⟩, cause⟩
      | .ok value => .ok (.optional value literal)

theorem literal_eq_append_of_region {e : Enclosure} {t literal : Text} {tokens : List Token}
    (h : region nested math e t = .ok (literal, tokens)) :
    ∃ inner, literal = e.opening ++ inner ++ e.closing := by
  rw [region] at h
  split at h
  · cases h
  · split at h <;> cases h
    exact ⟨_, rfl⟩

theorem literal_eq_cons_of_argument {d : Delimiter} {t : Text} {a : Argument Token}
    (h : argument nested math d t = .ok a) : ∃ l, a.literal = d.opening :: l := by
  rw [argument] at h
  split at h
  · cases h
  · next literal tokens hr =>
    obtain ⟨inner, rfl⟩ := literal_eq_append_of_region nested math hr
    cases d with
    | brace =>
      cases h
      exact ⟨_, rfl⟩
    | bracket =>
      simp only at h
      split at h <;> cases h
      exact ⟨_, rfl⟩

def arguments : Text → Except Fault (List (Argument Token))
  | [] => .ok []
  | c :: t =>
    match Delimiter.ofOpening? c with
    | none => .ok []
    | some d =>
      match argument nested math d t with
      | .error f => .error f
      | .ok a =>
        match arguments (t.drop a.literal.tail.length) with
        | .error f => .error (f.shift a.literal.size)
        | .ok as => .ok (a :: as)
termination_by t => t.length
decreasing_by simp only [List.length_drop, List.length_cons]; omega

/-- Reads a named command, given the text after its backslash. A star can follow the name. -/
def command (t : Text) : Except Fault Token :=
  let letters := t.takeWhile Char.isAlphanum
  let star := (t.drop letters.length).take 1 |>.filter (· = '*')
  let name := letters ++ star
  match arguments nested math (t.drop name.length) with
  | .error f => .error (f.shift (1 + Text.size name))
  | .ok as => .ok (.command name as ('\\' :: (name ++ as.flatMap Argument.literal)))

/-- Reads an accent with a letter as its mark, given the text after the brace. -/
def letterAccent (mark : Char) (t : Text) : Except Fault Token :=
  match block nested math t with
  | .error f => .error (f.shift 2)
  | .ok body => .ok (.accent .letter mark body ('\\' :: mark :: body.literal))

/-- Reads what a backslash starts, given the character after it, which is no symbol accent, and
the text after that. -/
def control (c : Char) (t : Text) : Except Fault Token :=
  if c = '[' then formula nested math .square t
  else if c = '(' then formula nested math .parenthesis t
  else if c = ']' || c = ')' then .error ⟨⟨0, 2⟩, .unexpectedMathCloser ['\\', c]⟩
  else if isLetterAccent c && t.head? = some '{' then letterAccent nested math c t.tail
  else if c.isAlphanum then command nested math (c :: t)
  else if isControlSymbol c then .ok (.command [c] [] ['\\', c])
  else .error (.point 0 .emptyControlSequence)

mutual

/-- Reads the unit that an accent or a script applies to: a brace group, a command, an accent or
one alphanumeric character. Gives nothing where there is none. -/
def unit : Text → Except Fault (Option Token)
  | [] => .ok none
  | c :: t =>
    if c = '{' then (block nested math t).map some
    else if c = '\\' then (backslash t).map asUnit
    else if isAlphanumeric c then .ok (some (.ofText [c]))
    else .ok none

/-- Reads what a backslash starts, given the text after it. -/
def backslash : Text → Except Fault Token
  | [] => .error (.point 0 .emptyControlSequence)
  | c :: t =>
    if isSymbolAccent c then
      applyTo ['\\', c] "accent"
        (fun body => .accent .symbol c body ('\\' :: c :: body.literal)) t (unit t)
    else control nested math c t

end

/-- Reads a script, given the text after its character. -/
def script (kind : ScriptKind) (t : Text) : Except Fault Token :=
  applyTo [kind.mark] kind.name
    (fun body => .script kind body (kind.mark :: body.literal)) t (unit nested math t)

/-- Reads the token that starts with a character, given the text after it and the number of
brackets that are open in the region before it. In math a closing bracket is text if one is. -/
def read (opened : Nat) (c : Char) (t : Text) : Except Fault Token :=
  match c with
  | '{' => block nested math t
  | '\\' => backslash nested math t
  | '^' => script nested math .superscript t
  | '_' => script nested math .subscript t
  | '&' => .ok .columnAlign
  | '%' => .ok (comment t)
  | '#' => placeholder t
  | '$' => dollar nested math t
  | '}' => .error (.point 0 (.noMatchingOpener '}'))
  | '[' => if math then .ok (content math '[' t) else bracket nested math t
  | ']' =>
    if math && 0 < opened then .ok (content math ']' t)
    else .error (.point 0 (.noMatchingOpener ']'))
  | c => .ok (content math c t)

theorem literal_eq_cons_of_block {t : Text} {token : Token} (h : block nested math t = .ok token) :
    ∃ l, token.literal = '{' :: l := by
  rw [block] at h
  split at h
  · cases h
  · next hr =>
    cases h
    obtain ⟨inner, rfl⟩ := literal_eq_append_of_region nested math hr
    exact ⟨_, rfl⟩

theorem literal_eq_append_of_formula {f : Fence} {t : Text} {token : Token}
    (h : formula nested math f t = .ok token) :
    ∃ inner, token.literal =
      (Enclosure.formula f).opening ++ inner ++ (Enclosure.formula f).closing := by
  rw [formula] at h
  split at h
  · cases h
  · next hr =>
    cases h
    exact literal_eq_append_of_region nested math hr

theorem literal_eq_cons_of_dollar {t : Text} {token : Token}
    (h : dollar nested math t = .ok token) : ∃ l, token.literal = '$' :: l := by
  unfold dollar at h
  split at h <;>
  · obtain ⟨inner, hl⟩ := literal_eq_append_of_formula nested math h
    exact ⟨_, hl⟩

theorem literal_eq_cons_of_bracket {t : Text} {token : Token}
    (h : bracket nested math t = .ok token) : ∃ l, token.literal = '[' :: l := by
  rw [bracket] at h
  split at h
  · cases h
  · split at h
    · split at h
      · cases h
      · next hr =>
        cases h
        obtain ⟨inner, rfl⟩ := literal_eq_append_of_region nested math hr
        exact ⟨_, rfl⟩
    · cases h
      exact ⟨_, rfl⟩

theorem literal_eq_cons_of_control {c : Char} {t : Text} {token : Token}
    (h : control nested math c t = .ok token) : ∃ l, token.literal = '\\' :: l := by
  rw [control] at h
  split at h
  · obtain ⟨inner, hl⟩ := literal_eq_append_of_formula nested math h
    exact ⟨_, hl⟩
  · split at h
    · obtain ⟨inner, hl⟩ := literal_eq_append_of_formula nested math h
      exact ⟨_, hl⟩
    · split at h
      · cases h
      · split at h
        · rw [letterAccent] at h
          split at h <;> cases h
          exact ⟨_, rfl⟩
        · split at h
          · rw [command] at h
            split at h <;> cases h
            exact ⟨_, rfl⟩
          · split at h <;> cases h
            exact ⟨_, rfl⟩

theorem eq_make_of_applyTo {lead t : Text} {construct : String} {make : Token → Token}
    {unit : Except Fault (Option Token)} {token : Token}
    (h : applyTo lead construct make t unit = .ok token) :
    ∃ body, unit = .ok (some body) ∧ token = make body := by
  unfold applyTo at h
  split at h <;> cases h
  exact ⟨_, rfl, rfl⟩

theorem literal_eq_cons_of_backslash {t : Text} {token : Token}
    (h : backslash nested math t = .ok token) : ∃ l, token.literal = '\\' :: l := by
  cases t with
  | nil => cases h
  | cons c t =>
    rw [backslash] at h
    split at h
    · obtain ⟨body, _, rfl⟩ := eq_make_of_applyTo h
      exact ⟨_, rfl⟩
    · exact literal_eq_cons_of_control nested math h

theorem literal_eq_cons_of_read {opened : Nat} {c : Char} {t : Text} {token : Token}
    (h : read nested math opened c t = .ok token) : ∃ l, token.literal = c :: l := by
  unfold read at h
  split at h
  · exact literal_eq_cons_of_block nested math h
  · exact literal_eq_cons_of_backslash nested math h
  · obtain ⟨body, _, rfl⟩ := eq_make_of_applyTo h
    exact ⟨_, rfl⟩
  · obtain ⟨body, _, rfl⟩ := eq_make_of_applyTo h
    exact ⟨_, rfl⟩
  · cases h
    exact ⟨_, rfl⟩
  · cases h
    exact ⟨_, rfl⟩
  · exact literal_eq_cons_of_placeholder h
  · exact literal_eq_cons_of_dollar nested math h
  · cases h
  · split at h
    · cases h
      exact ⟨_, rfl⟩
    · exact literal_eq_cons_of_bracket nested math h
  · split at h <;> cases h
    exact ⟨_, rfl⟩
  · cases h
    exact ⟨_, rfl⟩

end

end Lexing

end LatexTokens
