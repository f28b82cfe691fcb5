import LatexTokens.Proofs.Lexing.Reading
import LatexTokens.Proofs.Token.Depth

/-!
# Levels of nesting are the depth of regions

`lexRegion_eq_ok_iff`: where a region is read with some number of levels left, it is read to the
same tokens with another number precisely if its tokens are less deep than that. Both directions
follow from what stands where: a token is one region deeper than the deepest of its regions.
-/

set_option autoImplicit false

namespace LatexTokens

namespace Lexing

section
variable {nested nested' : RegionLexer} {math : Bool} {levels : Nat}

/-- Whether all regions that are read are less deep than a number of levels. -/
def Shallow (levels : Nat) (nested : RegionLexer) : Prop :=
  ∀ math t ts, nested math t = .ok ts → regionDepth ts < levels

/-- Whether regions that are less deep than a number of levels are read by a second reader as
well. -/
def Follows (levels : Nat) (nested nested' : RegionLexer) : Prop :=
  ∀ math t ts, nested math t = .ok ts → regionDepth ts < levels → nested' math t = .ok ts

theorem IsArgument.exists_isRegion {a : Argument Token} (h : IsArgument nested math a) :
    ∃ d inner tokens, IsRegion nested math (.group d) inner tokens ∧
      a.regionDepth = regionDepth tokens + 1 := by
  cases h with
  | @required inner tokens hi =>
    exact ⟨.brace, inner, tokens, hi, Argument.regionDepth_required tokens _⟩
  | @optional inner tokens value hi hv =>
    exact ⟨.bracket, inner, tokens, hi, OptionValue.regionDepth_of_ofTokens hv _⟩

section
variable (hn : Shallow levels nested)
include hn

theorem IsRegion.regionDepth_lt {e : Enclosure} {inner : Text} {tokens : List Token}
    (h : IsRegion nested math e inner tokens) : regionDepth tokens < levels := hn _ _ _ h.lexed

theorem IsUnit.regionDepth_le {next : Option Char} {token : Token}
    (h : IsUnit nested math next token) : token.regionDepth ≤ levels := by
  induction h with
  | block hi =>
    rw [Token.regionDepth_block]
    exact hi.regionDepth_lt hn
  | command _ has =>
    apply Token.regionDepth_command_le_iff.mpr
    intro a ha
    obtain ⟨d, inner, tokens, hi, hdepth⟩ := (has a ha).exists_isRegion
    rw [hdepth]
    exact hi.regionDepth_lt hn
  | symbol =>
    apply Token.regionDepth_command_le_iff.mpr
    intro a ha
    cases ha
  | letterAccent _ hi =>
    rw [Token.regionDepth_accent, Token.regionDepth_block]
    exact hi.regionDepth_lt hn
  | symbolAccent _ _ ih =>
    rw [Token.regionDepth_accent]
    exact ih
  | character =>
    rw [Token.regionDepth_ofText]
    exact Nat.zero_le levels

/-- A token is at most as deep as the regions in it are, and one more. -/
theorem Stands.regionDepth_le {next : Option Char} {opened : Nat} {token : Token}
    (h : Stands nested math next opened token) : token.regionDepth ≤ levels := by
  cases h with
  | unit hu => exact hu.regionDepth_le hn
  | script hu =>
    rw [Token.regionDepth_script]
    exact hu.regionDepth_le hn
  | formula hi =>
    rw [Token.regionDepth_math]
    exact hi.regionDepth_lt hn
  | bracket _ hi =>
    rw [Token.regionDepth_bracket]
    exact hi.regionDepth_lt hn
  | columnAlign | comment | placeholder | text | closingText | bracketText =>
    rw [Token.regionDepth_of_leaf rfl rfl rfl]
    exact Nat.zero_le levels

end

section
variable (hn : Follows levels nested nested')
include hn

theorem IsRegion.follow {e : Enclosure} {inner : Text} {tokens : List Token}
    (h : IsRegion nested math e inner tokens) (hd : regionDepth tokens + 1 ≤ levels) :
    IsRegion nested' math e inner tokens := ⟨h.encloses, hn _ _ _ h.lexed hd⟩

theorem IsArgument.follow {a : Argument Token} (h : IsArgument nested math a)
    (hd : a.regionDepth ≤ levels) : IsArgument nested' math a := by
  cases h with
  | required hi =>
    rw [Argument.regionDepth_required] at hd
    exact .required (hi.follow hn hd)
  | optional hi hv =>
    rw [OptionValue.regionDepth_of_ofTokens hv] at hd
    exact .optional (hi.follow hn hd) hv

theorem IsUnit.follow {next : Option Char} {token : Token} (h : IsUnit nested math next token)
    (hd : token.regionDepth ≤ levels) : IsUnit nested' math next token := by
  induction h with
  | block hi =>
    rw [Token.regionDepth_block] at hd
    exact .block (hi.follow hn hd)
  | command hname has hnext =>
    rw [Token.regionDepth_command_le_iff] at hd
    exact .command hname (fun a ha => (has a ha).follow hn (hd a ha)) hnext
  | symbol hc => exact .symbol hc
  | letterAccent hm hi =>
    rw [Token.regionDepth_accent, Token.regionDepth_block] at hd
    exact .letterAccent hm (hi.follow hn hd)
  | symbolAccent hm _ ih =>
    rw [Token.regionDepth_accent] at hd
    exact .symbolAccent hm (ih hd)
  | character hc => exact .character hc

/-- A token that stands somewhere still stands there if its regions are read by another reader
that reads regions less deep than the token. -/
theorem Stands.follow {next : Option Char} {opened : Nat} {token : Token}
    (h : Stands nested math next opened token) (hd : token.regionDepth ≤ levels) :
    Stands nested' math next opened token := by
  cases h with
  | unit hu hc => exact .unit (hu.follow hn hd) hc
  | script hu =>
    rw [Token.regionDepth_script] at hd
    exact .script (hu.follow hn hd)
  | formula hi hne =>
    rw [Token.regionDepth_math] at hd
    exact .formula (hi.follow hn hd) hne
  | columnAlign => exact .columnAlign
  | comment hbody hstop => exact .comment hbody hstop
  | placeholder hne hrun hdec => exact .placeholder hne hrun hdec
  | text hp hrun => exact .text hp hrun
  | closingText hm ho hrun => exact .closingText hm ho hrun
  | bracketText hm he htext hrun => exact .bracketText hm he htext hrun
  | bracket hm hi hsig =>
    rw [Token.regionDepth_bracket] at hd
    exact .bracket hm (hi.follow hn hd) hsig

theorem StandInRow.follow {opened : Nat} {ts : List Token}
    (h : StandInRow nested math opened ts) (hd : regionDepth ts ≤ levels) :
    StandInRow nested' math opened ts := by
  rw [regionDepth_le_iff] at hd
  induction ts generalizing opened with
  | nil => trivial
  | cons t ts ih =>
    obtain ⟨ht, hts⟩ := List.forall_mem_cons.mp hd
    exact ⟨h.1.follow hn ht, ih h.2 hts⟩

end

end

theorem shallow_lexRegion (levels : Nat) : Shallow levels (lexRegion levels) := by
  induction levels with
  | zero =>
    intro math t ts h
    cases h
  | succ levels ih =>
    intro math t ts h
    apply Nat.lt_succ_of_le
    rw [regionDepth_le_iff]
    intro token ht
    obtain ⟨opened, next, hs⟩ := (tokens_eq_ok_iff.mp h).2.exists_stands ht
    exact hs.regionDepth_le ih

theorem follows_lexRegion (levels levels' : Nat) :
    Follows levels' (lexRegion levels) (lexRegion levels') := by
  induction levels' generalizing levels with
  | zero =>
    intro math t ts h hd
    cases hd
  | succ levels' ih =>
    intro math t ts h hd
    cases levels with
    | zero => cases h
    | succ levels =>
      obtain ⟨ht, hrow⟩ := tokens_eq_ok_iff.mp h
      exact tokens_eq_ok_iff.mpr ⟨ht, hrow.follow (ih levels) (Nat.le_of_lt_succ hd)⟩

end Lexing

/-- Where a region is read, any number of levels above the depth of its tokens is enough to read
it, and no other is. -/
theorem lexRegion_eq_ok_iff {levels levels' : Nat} {math : Bool} {t : Text} {ts : List Token}
    (h : lexRegion levels math t = .ok ts) :
    lexRegion levels' math t = .ok ts ↔ regionDepth ts < levels' :=
  ⟨Lexing.shallow_lexRegion levels' math t ts, Lexing.follows_lexRegion levels levels' math t ts h⟩

end LatexTokens
