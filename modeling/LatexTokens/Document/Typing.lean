import LatexTokens.Document.Stream

/-!
# Typing in a document

A simulation of typing: a word is inserted, the document is read from there to its end, and the
word is removed again. The work done is the number of tokens read. A fault stops the simulation
at once, with the word still in the document.
-/

set_option autoImplicit false

namespace LatexTokens

def typedWord : Text := ['w', 'o', 'r', 'd', ' ']

/-- The position that an offset means when its 64-bit word is read as signed. -/
def signedPosition (n : Nat) : Int := Int.bmod n wordSize

namespace Document
variable {κ : Type} [TokenCache κ]

/-- Types the word at an offset and takes it back. Gives the number of tokens read. -/
def typeWord (offset : Nat) (d : Document κ) : Except Fault Nat × Document κ :=
  let start := signedPosition offset
  let r := ((d.insert start typedWord).seek start).drain
  match r.result with
  | .error f => (.error f, r.document)
  | .ok ts =>
    (.ok ts.length, r.document.remove start (signedPosition (offset + typedWord.size)))

/-- Types the word at one offset after the other, when so many tokens are read already. -/
def typeWordsFrom (count : Nat) : List Nat → Document κ → Except Fault Nat × Document κ
  | [], d => (.ok count, d)
  | p :: ps, d =>
    match d.typeWord p with
    | (.error f, d) => (.error f, d)
    | (.ok n, d) => typeWordsFrom (count + n) ps d

/-- Types the word at one offset after the other. Gives the number of tokens read. -/
def typeWords (offsets : List Nat) (d : Document κ) : Except Fault Nat × Document κ :=
  typeWordsFrom 0 offsets d

end Document

end LatexTokens
