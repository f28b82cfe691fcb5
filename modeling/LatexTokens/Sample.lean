import LatexTokens.Text.Basic

/-!
# Sample documents

Documents of a wanted size for trying things out: a preamble, equal paragraphs with blank lines
after them, and an ending.
-/

set_option autoImplicit false

namespace LatexTokens

/-- What the paragraphs of a sample repeat. -/
inductive Filler where
  | space
  /-- A comment line, in which a brace has no meaning. -/
  | comment
  /-- A column separator between spaces. -/
  | alignment
  deriving DecidableEq, Repr

namespace Sample

def item : Filler → Text
  | .space => [' ']
  | .comment => "% a comment \x7bwith a brace\n".toList
  | .alignment => [' ', '&', ' ']

def preamble : Text :=
  ("% This LaTeX document was randomly generated.\n" ++
    "\\documentclass[12pt]\x7barticle\x7d\n\\begin\x7bdocument\x7d\n").toList

def ending : Text := "\\end\x7bdocument\x7d\n".toList

/-- A paragraph of some fillers, with the blank line after it. -/
def paragraph (fillers : Nat) (f : Filler) : Text :=
  (List.replicate fillers (item f)).flatten ++ ['\n', '\n']

/-- The least number of paragraphs that brings the text before the ending to a size. -/
def paragraphCount (wanted fillers : Nat) (f : Filler) : Nat :=
  (wanted - preamble.size + ((paragraph fillers f).size - 1)) / (paragraph fillers f).size

/-- The sample with just enough paragraphs for a size, without counting the ending. -/
def document (wanted fillers : Nat) (f : Filler) : Text :=
  preamble ++ (List.replicate (paragraphCount wanted fillers f) (paragraph fillers f)).flatten ++
    ending

end Sample

end LatexTokens
