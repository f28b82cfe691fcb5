import LatexTokens.Document.Basic

/-!
# Reading a document to its end

A `TokenStream` gives the tokens from the cursor on and ends with the first fault; once it has
ended by a fault it stays so (`TokenStream.next_of_failed`). `Document.drain` takes all that a
stream gives.
-/

set_option autoImplicit false

namespace LatexTokens

/-- A document that is being read, up to the first fault. -/
structure TokenStream (κ : Type) where
  document : Document κ
  failed : Bool := false

namespace TokenStream
variable {κ : Type} [TokenCache κ]

/-- The next token or the fault that ends the stream, or nothing at the end. -/
def next (s : TokenStream κ) : Option (Except Fault Token) × TokenStream κ :=
  if s.failed then (none, s)
  else match s.document.next with
    | (.error f, d) => (some (.error f), ⟨d, true⟩)
    | (.ok none, d) => (none, ⟨d, false⟩)
    | (.ok (some t), d) => (some (.ok t), ⟨d, false⟩)

theorem next_of_failed {s : TokenStream κ} (h : s.failed) : s.next = (none, s) := by
  rw [next, if_pos h]

/-- What the stream gives when it is asked so many times. -/
def take : Nat → TokenStream κ → List (Option (Except Fault Token)) × TokenStream κ
  | 0, s => ([], s)
  | n + 1, s =>
    let (item, s) := s.next
    let (items, s) := s.take n
    (item :: items, s)

end TokenStream

/-- What a document gave when it was read from its cursor on: tokens up to the end or up to a
fault. -/
structure Drained (κ : Type) where
  tokens : List Token
  fault : Option Fault
  document : Document κ

namespace Drained
variable {κ : Type}

/-- All tokens, if there was no fault. -/
def result (r : Drained κ) : Except Fault (List Token) :=
  match r.fault with
  | none => .ok r.tokens
  | some f => .error f

end Drained

namespace Document
variable {κ : Type} [TokenCache κ]

/-- Reads from the cursor to an offset, or to the end or the first fault. The reading also ends
at a remembered token that does not bring the cursor nearer to the offset. -/
def drainTo (stop : Nat) (d : Document κ) : Drained κ :=
  match d.next with
  | (.error f, d') => ⟨[], some f, d'⟩
  | (.ok none, d') => ⟨[], none, d'⟩
  | (.ok (some t), d') =>
    if stop - d'.cursor < stop - d.cursor then
      let r := d'.drainTo stop
      { r with tokens := t :: r.tokens }
    else ⟨[t], none, d'⟩
termination_by stop - d.cursor

/-- Reads from the cursor to the end or the first fault. -/
def drain (d : Document κ) : Drained κ := d.drainTo d.size

def readToEnd (d : Document κ) : Except Fault (List Token) × Document κ :=
  let r := (d.seek 0).drain
  (r.result, r.document)

/-- Where tokens start, the first of them at an offset. -/
def starts : Nat → List Token → List Nat
  | _, [] => []
  | p, t :: ts => p :: starts (p + t.size) ts

def boundaries (d : Document κ) : Except Fault (List Nat) × Document κ :=
  let (r, d) := d.readToEnd
  (r.map (starts 0), d)

end Document

end LatexTokens
