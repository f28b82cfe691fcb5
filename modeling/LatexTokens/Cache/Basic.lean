import LatexTokens.Token.Basic

/-!
# Caches of tokens

A cache remembers which token starts at an offset of a text. When the text is edited, the cache
forgets tokens that the edit reaches and moves those that stand after it. What an edit means for
a cache is stated by the operations of the class; `Uncached` remembers nothing.
-/

set_option autoImplicit false

namespace LatexTokens

class TokenCache (κ : Type) where
  get? : κ → Nat → Option Token
  /-- Remembers a token at an offset, in place of any that was there. -/
  add : Nat → Token → κ → κ
  /-- Makes room for adjacent tokens at an offset and remembers each of them. -/
  insert : Nat → List Token → κ → κ
  /-- Forgets the tokens that start in a range, and moves those after it back over it. -/
  remove : Nat → Nat → κ → κ
  /-- Forgets the tokens that start in a range and moves none. -/
  evict : Nat → Nat → κ → κ
  /-- Moves the tokens from an offset on forward by a number of bytes. -/
  shift : Nat → Nat → κ → κ
  /-- Forgets the tokens that start before an offset and reach it. -/
  invalidate : Nat → κ → κ

/-- The cache that remembers nothing. -/
structure Uncached where
  deriving Repr

instance : TokenCache Uncached where
  get? _ _ := none
  add _ _ c := c
  insert _ _ c := c
  remove _ _ c := c
  evict _ _ c := c
  shift _ _ c := c
  invalidate _ c := c

end LatexTokens
