import Mathlib
import LatexTokens.Proofs.Document.Transparency
import LatexTokens.Proofs.Document.Whole
import LatexTokens.Proofs.Lexing.Levels
import LatexTokens.Proofs.Lexing.Limit

/-!
# The limit of nesting is exact

A text is read at any depth as it is at the top, as long as its regions stay within the limit;
otherwise the fault says so. So a document is read only if its regions stay within the limit.
-/

set_option autoImplicit false

namespace LatexTokens

/-- Reads a region at a depth, which is the number of regions around it. -/
def lexAt (depth : Nat) : RegionLexer := lexRegion (maxNesting + 1 - depth)

/-- The regions inside a region are read one level deeper, and those below the limit are not. -/
theorem lexAt_of_le {depth : Nat} (h : depth ≤ maxNesting) (math : Bool) (t : Text) :
    lexAt depth math t = Lexing.tokens (lexAt (depth + 1)) math 0 t := by
  have hlevels : maxNesting + 1 - depth = maxNesting + 1 - (depth + 1) + 1 := by omega
  rw [lexAt, lexAt, hlevels, lexRegion]

theorem tokenize_eq_lexAt (t : Text) : tokenize t = lexAt 0 false t := rfl

theorem lexAt_limited (depth : Nat) (math : Bool) (t : Text) :
    Limited (lexAt depth math t) (lexAt 0 math t) :=
  lexRegion_limited (Nat.sub_le _ _) math t

/-- Where a text is read at the top, the depths at which it is read are those that leave room for
its regions. -/
theorem lexAt_eq_ok_iff {math : Bool} {t : Text} {ts : List Token} (h : lexAt 0 math t = .ok ts)
    (depth : Nat) : lexAt depth math t = .ok ts ↔ depth + regionDepth ts ≤ maxNesting := by
  rw [lexAt, lexRegion_eq_ok_iff h]
  omega

theorem regionDepth_le_of_tokenize {t : Text} {ts : List Token} (h : tokenize t = .ok ts) :
    regionDepth ts ≤ maxNesting := by
  rw [tokenize_eq_lexAt] at h
  have hroom := (lexAt_eq_ok_iff h 0).mp h
  rwa [Nat.zero_add] at hroom

theorem regionDepth_le_of_tokenAt? {t : Text} {p : Nat} {token : Token}
    (h : tokenAt? t p = .ok (some token)) : token.regionDepth ≤ maxNesting := by
  have hat : LexesAt t (t.floor p) token := ⟨t.isBoundary_floor p, by rwa [tokenAt?_floor]⟩
  obtain ⟨u, rest, _, _, hs⟩ := lexesAt_iff.mp hat
  exact hs.regionDepth_le (Lexing.shallow_lexRegion maxNesting)

namespace Document
variable {κ : Type} [TokenCache κ] [LawfulTokenCache κ]

theorem Faithful.fst_readToEnd {d : Document κ} (h : d.Faithful) :
    d.readToEnd.1 = tokenize d.buffer := by
  have hforget := congrArg Prod.fst h.readToEnd_forget.1
  rw [Document.fst_readToEnd] at hforget
  exact hforget.symm

end Document

/-- Depth has no effect but that of the limit, which is exact. What is read at the top is read at
a depth if its regions leave room for that, and is too deep otherwise; what is read at a depth is
read at the top. All that a document gives is within the limit. -/
theorem lexAt_eq_ok_or_tooDeep (math : Bool) (s : Text) (depth : Nat) :
    (∀ ts, lexAt 0 math s = .ok ts →
      (depth + regionDepth ts ≤ maxNesting → lexAt depth math s = .ok ts) ∧
      (maxNesting < depth + regionDepth ts → ∃ f, lexAt depth math s = .error f ∧ f.IsTooDeep)) ∧
    (∀ ts, lexAt depth math s = .ok ts → lexAt 0 math s = .ok ts) ∧
    ∀ (κ : Type) [TokenCache κ] [LawfulTokenCache κ] (d : Document κ), d.Faithful →
      (∀ ts, d.readToEnd.1 = .ok ts → regionDepth ts ≤ maxNesting) ∧
      ∀ bytes t, (d.peekAhead bytes).1 = .ok (some t) → t.regionDepth ≤ maxNesting := by
  have hlimited := lexAt_limited depth math s
  refine ⟨?_, ?_, ?_⟩
  · intro ts h
    have hiff := lexAt_eq_ok_iff h depth
    refine ⟨hiff.mpr, ?_⟩
    intro hdeep
    refine hlimited.resolve_left fun hsame => Nat.not_le_of_lt hdeep (hiff.mp ?_)
    rw [hsame, h]
  · intro ts h
    rw [h] at hlimited
    exact hlimited.eq_of_ok
  · intro κ _ _ d hd
    refine ⟨?_, ?_⟩
    · intro ts h
      rw [hd.fst_readToEnd] at h
      exact regionDepth_le_of_tokenize h
    · intro bytes t h
      rw [hd.fst_peekAhead] at h
      exact regionDepth_le_of_tokenAt? h

/-- A group is read inside one region less than the limit allows, and not inside as many. -/
theorem lexAt_eq_ok_or_tooDeep_group :
    let source : Text := ['{', 'a', '}']
    let group : Token := .block [.ofText ['a']] source
    let d := Document.ofSource source Uncached.mk
    lexAt 0 false source = .ok [group] ∧ regionDepth [group] = 1 ∧
      lexAt 127 false source = .ok [group] ∧
      (∃ f, lexAt 128 false source = .error f ∧ f.IsTooDeep) ∧
      d.readToEnd.1 = .ok [group] ∧ regionDepth [group] ≤ maxNesting ∧
      (d.peekAhead 0).1 = .ok (some group) ∧ group.regionDepth ≤ maxNesting := by
  intro source group d
  have htop : lexAt 0 false source = .ok [group] := by
    simp only [source, group]
    cbv
  have hread : d.readToEnd.1 = .ok [group] := by
    simp only [d, source, group]
    cbv
  have hpeek : (d.peekAhead 0).1 = .ok (some group) := by
    simp only [d, source, group]
    cbv
  have hdepth : regionDepth [group] = 1 := by
    simp only [group, regionDepth_singleton, Token.regionDepth_block, Token.regionDepth_ofText]
  obtain ⟨hroom, hback, hwithin⟩ := lexAt_eq_ok_or_tooDeep false source 127
  have hread' := hroom [group] htop
  obtain ⟨hread'', hpeek'⟩ := hwithin Uncached d d.faithful_uncached
  have h127 : lexAt 127 false source = .ok [group] := hread'.1 (by rw [hdepth]; decide)
  have h128 := ((lexAt_eq_ok_or_tooDeep false source 128).1 [group] (hback _ h127)).2
    (by rw [hdepth]; decide)
  exact ⟨htop, hdepth, h127, h128, hread, hread'' _ hread, hpeek, hpeek' 0 _ hpeek⟩

end LatexTokens
