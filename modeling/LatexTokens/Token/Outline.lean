import LatexTokens.Token.Basic

/-!
# Outlines

The outline of some tokens lists them and all tokens inside them, each before the tokens inside
it, with its depth and its role.
-/

set_option autoImplicit false

namespace LatexTokens

structure OutlineRow where
  depth : Nat
  /-- The role in the token around, if there is one. -/
  role : Option Role
  kind : String
  size : Nat
  deriving Repr

/-- The lines for a token and the tokens inside it. -/
def Token.rows (depth : Nat) (role : Option Role) (t : Token) : List OutlineRow :=
  ⟨depth, role, t.kindName, t.size⟩ :: t.parts.attach.flatMap fun ⟨p, h⟩ =>
    have := sizeOf_lt_of_mem_parts h
    p.2.rows (depth + 1) (some p.1)
termination_by sizeOf t

def outline (ts : List Token) : List OutlineRow := ts.flatMap (Token.rows 0 none)

/-- The line of the token comes first, then those of its parts, one level deeper. -/
theorem Token.rows_eq (depth : Nat) (role : Option Role) (t : Token) :
    t.rows depth role = ⟨depth, role, t.kindName, t.size⟩ ::
      t.parts.flatMap fun p => p.2.rows (depth + 1) (some p.1) := by
  rw [rows, List.flatMap_subtype (fun _ _ => rfl), List.unattach_attach]

end LatexTokens
