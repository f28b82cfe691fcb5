import Mathlib
import LatexTokens.Proofs.Document.Nesting
import LatexTokens.Proofs.Text.Readings
import LatexTokens.Proofs.Token.Rebuilding

/-!
# Paths down the tokens of a document

A path goes from a token to one directly inside it, and so on. At most three of its tokens belong
to one region: a script, a letter accent and the group it applies to. So the limit of nesting
bounds a path but for its symbol accents. Those apply to each other with no region between them,
and nothing bounds their number (`Document.not_exists_length_le`).
-/

set_option autoImplicit false

namespace LatexTokens

namespace Token

def isSymbolAccent : Token → Bool
  | accent .symbol .. => true
  | _ => false

/-- Whether a second token is directly inside a token. -/
def HasPart (t s : Token) : Prop := ∃ p ∈ t.parts, p.2 = s

theorem hasPart_of_mem_children {t s : Token} (h : s ∈ t.children) : t.HasPart s :=
  ⟨(.child, s), List.mem_append_left _ (List.mem_map_of_mem h), rfl⟩

/-- Whether each token of a list is directly inside the one before it. -/
def IsPath (path : List Token) : Prop := path.IsChain HasPart

/-- How many tokens a path can have from a token on besides three for each region of the token.
The token that a region belongs to is one of the three. -/
def allowance : Token → Nat
  | script .. => 2
  | math .. | block .. | bracket .. => 0
  | _ => 1

/-- How many tokens a path can have from a token on, symbol accents aside. -/
def room (t : Token) : Nat := 3 * t.regionDepth + t.allowance

theorem allowance_le_two (t : Token) : t.allowance ≤ 2 := by
  cases t <;> simp [allowance]

theorem HasUnitForm.allowance_le_one {t : Token} (h : t.HasUnitForm) : t.allowance ≤ 1 := by
  cases t with
  | script => exact h.elim
  | _ => simp [allowance]

theorem room_pos (t : Token) : 0 < t.room := by
  cases t with
  | math | block | bracket =>
    simp only [room, regionDepth_math, regionDepth_block, regionDepth_bracket]
    omega
  | _ => exact Nat.add_pos_right _ (by simp [allowance])

/-- The room gets smaller from a token to one inside it, unless the token is a symbol accent. -/
theorem Rebuilt.room_le {math : Bool} {t s : Token} (h : t.Rebuilt math)
    (hs : t.HasPart s) : s.room + (if t.isSymbolAccent then 0 else 1) ≤ t.room := by
  obtain ⟨p, hp, rfl⟩ := hs
  cases he : t.enclosesRegions with
  | true =>
    have hdepth := regionDepth_add_le_of_mem_parts hp
    have htwo := p.2.allowance_le_two
    rw [if_pos he] at hdepth
    unfold room
    split <;> omega
  | false =>
    cases h with
    | formula | block | bracket => cases he
    | @command name as =>
      cases as with
      | nil => cases hp
      | cons => cases he
    | @symbolAccent mark body _ hu =>
      cases List.mem_singleton.mp hp
      rw [room, room, regionDepth_accent]
      exact Nat.add_le_add_left hu.allowance_le_one _
    | letterAccent =>
      cases List.mem_singleton.mp hp
      rw [room, room, regionDepth_accent]
      exact Nat.le_refl _
    | @script kind body hu =>
      cases List.mem_singleton.mp hp
      rw [room, room, regionDepth_script, Nat.add_assoc]
      exact Nat.add_le_add_left (Nat.succ_le_succ hu.allowance_le_one) _
    | comment | columnAlign | placeholder | content => cases hp

theorem RebuiltInside.part {math : Bool} {t s : Token} (h : t.RebuiltInside math)
    (hs : t.HasPart s) : s.RebuiltInside (t.mathInside math) := by
  obtain ⟨p, hp, rfl⟩ := hs
  exact fun math' s hs => h math' s (.part hp hs)

/-- The tokens of a path, symbol accents aside, find room in its first token. -/
theorem RebuiltInside.countP_le_room {math : Bool} {t : Token} (h : t.RebuiltInside math)
    {path : List Token} (hpath : IsPath (t :: path)) :
    (t :: path).countP (fun s => !s.isSymbolAccent) ≤ t.room := by
  induction path generalizing math t with
  | nil => exact List.countP_le_length.trans t.room_pos
  | cons s path ih =>
    obtain ⟨hs, hrest⟩ := List.isChain_cons_cons.mp hpath
    have hcount : (t :: s :: path).countP (fun s => !s.isSymbolAccent) =
        (s :: path).countP (fun s => !s.isSymbolAccent) + if t.isSymbolAccent then 0 else 1 := by
      rw [List.countP_cons]
      cases t.isSymbolAccent <;> rfl
    rw [hcount]
    exact (Nat.add_le_add_right (ih (h.part hs) hrest) _).trans ((h math t .self).room_le hs)

/-- Symbol accents that apply to each other, the last of them to a letter. -/
def accentChain : Nat → Token
  | 0 => .ofText ['e']
  | n + 1 => .accent .symbol '.' (accentChain n) ('\\' :: '.' :: (accentChain n).literal)

/-- The path down a chain of accents. -/
def accentPath : Nat → List Token
  | 0 => [accentChain 0]
  | n + 1 => accentChain (n + 1) :: accentPath n

theorem length_accentPath (n : Nat) : (accentPath n).length = n + 1 := by
  induction n with
  | zero => rfl
  | succ n ih => rw [accentPath, List.length_cons, ih]

theorem head?_accentPath (n : Nat) : (accentPath n).head? = some (accentChain n) := by
  cases n <;> rfl

theorem isPath_accentPath (n : Nat) : IsPath (accentPath n) := by
  induction n with
  | zero => exact List.isChain_singleton _
  | succ n ih =>
    refine List.isChain_cons.mpr ⟨?_, ih⟩
    intro s hs
    rw [head?_accentPath] at hs
    cases hs
    exact hasPart_of_mem_children List.mem_cons_self

theorem protect_literal_accentChain (n : Nat) :
    (accentChain n).literal.protect = (accentChain n).literal := by
  induction n with
  | zero =>
    rw [accentChain, literal_ofText, Text.protect_cons_of_ne (by decide), Text.protect_nil]
  | succ n ih =>
    rw [accentChain, literal, Text.protect_backslash, Text.protect_cons_of_ne (by decide), ih]
    · cbv
    · rfl

theorem isUnit_accentChain (nested : RegionLexer) (math : Bool) (next : Option Char) (n : Nat) :
    Lexing.IsUnit nested math next (accentChain n) := by
  induction n with
  | zero => exact .character (by decide +kernel)
  | succ n ih => exact .symbolAccent (by decide) ih

theorem tokenize_accentChain (n : Nat) :
    tokenize (accentChain (n + 1)).literal = .ok [accentChain (n + 1)] := by
  refine Lexing.tokens_eq_ok_iff.mpr ⟨(List.flatMap_singleton _ _).symm, ?_, trivial⟩
  exact .unit (isUnit_accentChain _ _ _ _) rfl

end Token

namespace Document

/-- A path from a token of a document has at most three tokens for each level of nesting and two
more, symbol accents aside. -/
theorem countP_path_le (source : Text) {ts : List Token}
    (h : (ofSource source Uncached.mk).readToEnd.1 = .ok ts) {t : Token} (ht : t ∈ ts)
    {path : List Token} (hpath : Token.IsPath (t :: path)) :
    (t :: path).countP (fun s => !s.isSymbolAccent) ≤ 3 * maxNesting + 2 := by
  rw [fst_readToEnd] at h
  have hrebuilt := Lexing.rebuiltBelow _ _ _ _ h t ht
  have hdepth := regionDepth_le_iff.mp (regionDepth_le_of_tokenize h) t ht
  calc (t :: path).countP (fun s => !s.isSymbolAccent)
    _ ≤ 3 * t.regionDepth + t.allowance := hrebuilt.countP_le_room hpath
    _ ≤ 3 * maxNesting + 2 :=
      Nat.add_le_add (Nat.mul_le_mul_left 3 hdepth) t.allowance_le_two

/-- All four tokens of a path that passes one region. -/
theorem countP_path_le_script :
    let source : Text := ['^', '\\', 'c', '{', 'a', '}']
    let group : Token := .block [.ofText ['a']] ['{', 'a', '}']
    let accent : Token := .accent .letter 'c' group ['\\', 'c', '{', 'a', '}']
    let script : Token := .script .superscript accent source
    let path : List Token := [script, accent, group, .ofText ['a']]
    (ofSource source Uncached.mk).readToEnd.1 = .ok [script] ∧ Token.IsPath path ∧
      path.countP (fun s => !s.isSymbolAccent) = 4 ∧
      path.countP (fun s => !s.isSymbolAccent) ≤ 3 * maxNesting + 2 := by
  intro source group accent script path
  have hread : (ofSource source Uncached.mk).readToEnd.1 = .ok [script] := by
    simp only [source, script, accent, group]
    cbv
  have hpath : Token.IsPath path := by
    refine .cons_cons ?_ (.cons_cons ?_ (.cons_cons ?_ (.singleton _)))
    all_goals exact Token.hasPart_of_mem_children List.mem_cons_self
  exact ⟨hread, hpath, rfl, countP_path_le source hread List.mem_cons_self hpath⟩

/-- Chains of symbol accents of any length are read. -/
theorem not_exists_length_le : ¬ ∃ bound, ∀ (source : Text) (ts : List Token),
    (ofSource source Uncached.mk).readToEnd.1 = .ok ts →
      ∀ t ∈ ts, ∀ path, Token.IsPath (t :: path) → (t :: path).length ≤ bound := by
  intro h₀
  obtain ⟨bound, h⟩ := h₀
  have hread : (ofSource (Token.accentChain (bound + 1)).literal Uncached.mk).readToEnd.1 =
      .ok [Token.accentChain (bound + 1)] := by
    rw [fst_readToEnd, ofSource, Token.protect_literal_accentChain, Token.tokenize_accentChain]
  have hle := h _ _ hread _ List.mem_cons_self (Token.accentPath bound)
    (Token.isPath_accentPath (bound + 1))
  rw [List.length_cons, Token.length_accentPath] at hle
  omega

end Document

end LatexTokens
