import LatexTokens.Cache.Basic
import LatexTokens.Lexing.Region

/-!
# Documents

A document is a protected text with a cursor and a cache of its tokens. It can be edited at any
offset and read from the cursor on. A token is taken from the cache where that has one, and is
remembered there otherwise; edits carry the cursor and the cache along with the text.

Positions in edits are signed: a negative one counts from the end. They are clamped to the text
and lowered to a character boundary (`Document.locate`).
-/

set_option autoImplicit false

namespace LatexTokens

/-- A protected text with a cursor and a cache of its tokens. -/
structure Document (κ : Type) where
  buffer : Text
  cursor : Nat
  cache : κ

namespace Document
variable {κ : Type}

/-- A document to be read from its start. The cache describes the protected form of the text. -/
def ofSource (source : Text) (cache : κ) : Document κ := ⟨source.protect, 0, cache⟩

def source (d : Document κ) : Text := d.buffer.asWritten

def size (d : Document κ) : Nat := d.buffer.size

def isEmpty (d : Document κ) : Bool := d.buffer.isEmpty

/-- The offset that a position in an edit means. -/
def locate (d : Document κ) (position : Int) : Nat :=
  d.buffer.floor (if position < 0 then d.size - position.natAbs else position.toNat)

def seek (position : Int) (d : Document κ) : Document κ :=
  { d with cursor := d.locate position }

variable [TokenCache κ]

/-- Inserts text, given as a document writes it. A cursor at the position or after it moves with
the text there. -/
def insert (position : Int) (text : Text) (d : Document κ) : Document κ :=
  let p := d.locate position
  let new := text.protect
  if new.isEmpty then d
  else {
    buffer := d.buffer.before p ++ new ++ d.buffer.after p
    cursor := if p ≤ d.cursor then d.cursor + new.size else d.cursor
    cache := TokenCache.shift p new.size (TokenCache.invalidate p d.cache) }

/-- Removes the text between two positions, in either order. A cursor in that text moves to its
start. -/
def remove (one other : Int) (d : Document κ) : Document κ :=
  let start := min (d.locate one) (d.locate other)
  let stop := max (d.locate one) (d.locate other)
  if start = stop then d
  else {
    buffer := d.buffer.before start ++ d.buffer.after stop
    cursor := if stop ≤ d.cursor then d.cursor - (stop - start) else min d.cursor start
    cache := TokenCache.remove start stop (TokenCache.invalidate start d.cache) }

/-- The token so many bytes after the cursor, and the document, which remembers it. -/
def peekAhead (bytes : Nat) (d : Document κ) : Except Fault (Option Token) × Document κ :=
  let p := d.buffer.floor (d.cursor + bytes)
  match TokenCache.get? d.cache p with
  | some t => (.ok (some t), d)
  | none =>
    match tokenAt? d.buffer p with
    | .ok (some t) => (.ok (some t), { d with cache := TokenCache.add p t d.cache })
    | r => (r, d)

def peek (d : Document κ) : Except Fault (Option Token) × Document κ := d.peekAhead 0

/-- The token at the cursor, which moves behind it. -/
def next (d : Document κ) : Except Fault (Option Token) × Document κ :=
  match d.peek with
  | (.ok (some t), d) => (.ok (some t), { d with cursor := d.cursor + t.size })
  | r => r

end Document

end LatexTokens
