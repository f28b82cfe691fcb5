import LatexTokens.Document.Stream

/-!
# Sessions

A session is a list of steps on a document, and what can be seen of it after each step: the
answer, the cursor and the text. The cache cannot be seen.
-/

set_option autoImplicit false

namespace LatexTokens

inductive Step where
  | seek (position : Int)
  | insert (position : Int) (text : Text)
  | remove (one other : Int)
  | next
  | peekAhead (bytes : Nat)
  /-- Asks one stream of the tokens from the cursor on so many times. -/
  | stream (times : Nat)
  | readToEnd
  deriving DecidableEq, Repr

inductive Answer where
  | none
  | token (result : Except Fault (Option Token))
  | items (items : List (Option (Except Fault Token)))
  | tokens (result : Except Fault (List Token))

/-- What can be seen after a step. -/
structure Observation where
  answer : Answer
  cursor : Nat
  buffer : Text

namespace Document
variable {κ : Type} [TokenCache κ]

def perform (d : Document κ) : Step → Answer × Document κ
  | .seek position => (.none, d.seek position)
  | .insert position text => (.none, d.insert position text)
  | .remove one other => (.none, d.remove one other)
  | .next => (.token d.next.1, d.next.2)
  | .peekAhead bytes => (.token (d.peekAhead bytes).1, (d.peekAhead bytes).2)
  | .stream times =>
    let r := TokenStream.take times ⟨d, false⟩
    (.items r.1, r.2.document)
  | .readToEnd => (.tokens d.readToEnd.1, d.readToEnd.2)

/-- Takes steps one after the other. -/
def run (d : Document κ) : List Step → List Observation × Document κ
  | [] => ([], d)
  | step :: steps =>
    let (answer, d) := d.perform step
    let (observations, last) := d.run steps
    (⟨answer, d.cursor, d.buffer⟩ :: observations, last)

end Document

end LatexTokens
