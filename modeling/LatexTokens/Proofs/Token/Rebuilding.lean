import Mathlib
import LatexTokens.Proofs.Document.Tiling
import LatexTokens.Proofs.Setting.Outcome

/-!
# Tokens are rebuilt from their parts

`Token.Rebuilt` says for each kind of token how its literal, and the text or number that it
keeps, follow from the parts of the token. `Token.Holds` goes down from a token to the tokens
inside it at any depth and keeps track of whether they are in math. What reading a document
gives is rebuilt from its parts at every depth; the proof goes along the levels of nesting.
-/

set_option autoImplicit false

namespace LatexTokens

/-- Whether tokens are what reading their own text gives, in math or not. -/
def IsLexed (math : Bool) (ts : List Token) : Prop :=
  ∃ levels, lexRegion levels math (ts.flatMap Token.literal) = .ok ts

namespace Text

/-- The text without a character at its end. -/
def dropFinal (c : Char) (t : Text) : Text := if t.getLast? = some c then t.dropLast else t

theorem dropFinal_concat (c : Char) (t : Text) : dropFinal c (t ++ [c]) = t := by
  unfold dropFinal
  rw [if_pos List.getLast?_concat, List.dropLast_concat]

theorem dropFinal_of_not_mem {c : Char} {t : Text} (h : c ∉ t) : dropFinal c t = t := by
  unfold dropFinal
  apply if_neg
  intro hlast
  exact h (List.mem_of_getLast? hlast)

end Text

/-- Whether the literal of an argument is made of the literals inside it. -/
inductive Argument.Rebuilt (math : Bool) : Argument Token → Prop where
  | required {ts : List Token} : IsLexed math ts →
      Rebuilt math (.required ts ((Enclosure.group .brace).around (ts.flatMap Token.literal)))
  | single {t : Token} : IsLexed math [t] → t.isSwitch →
      Rebuilt math (.optional (.single t) ((Enclosure.group .bracket).around t.literal))
  | tokens {ts : List Token} : IsLexed math ts →
      Rebuilt math (.optional (.tokens ts)
        ((Enclosure.group .bracket).around (ts.flatMap Token.literal)))
  /-- Settings drop blanks, commas and comments in keys; the literal is that of their body. -/
  | pairs {ts : List Token} {kvs : List (KeyValue Token)} : IsLexed math ts →
      OptionValue.ofTokens ts = .ok (.pairs kvs) →
      Rebuilt math (.optional (.pairs kvs)
        ((Enclosure.group .bracket).around (ts.flatMap Token.literal)))

namespace Token

/-- Whether the token has the form of what an accent or a script applies to. -/
def HasUnitForm : Token → Prop
  | block .. | command .. | accent .. => True
  | content _ l => ∃ c, l = [c] ∧ isAlphanumeric c
  | _ => False

/-- Whether what a token keeps is made of its parts, in math or not. -/
inductive Rebuilt (math : Bool) : Token → Prop where
  | command {name : Text} {as : List (Argument Token)} : (∀ a ∈ as, a.Rebuilt math) →
      Rebuilt math (.command name as ('\\' :: (name ++ as.flatMap Argument.literal)))
  | formula {f : Fence} {ts : List Token} : IsLexed true ts →
      Rebuilt math (.math f.position ts
        ((Enclosure.formula f).around (ts.flatMap literal)))
  | block {ts : List Token} : IsLexed math ts →
      Rebuilt math (.block ts ((Enclosure.group .brace).around (ts.flatMap literal)))
  | bracket {ts : List Token} : math = false → IsLexed math ts →
      Rebuilt math (.bracket ts ((Enclosure.group .bracket).around (ts.flatMap literal)))
  | symbolAccent {mark : Char} {body : Token} : Lexing.isSymbolAccent mark → body.HasUnitForm →
      Rebuilt math (.accent .symbol mark body ('\\' :: mark :: body.literal))
  | letterAccent {mark : Char} {ts : List Token} {l : Text} : Lexing.isLetterAccent mark →
      Rebuilt math (.accent .letter mark (.block ts l) ('\\' :: mark :: l))
  | comment {body : Text} : '\n' ∉ body.dropLast →
      Rebuilt math (.comment ((body.dropFinal '\n').dropFinal '\r').asWritten ('%' :: body))
  | columnAlign : Rebuilt math .columnAlign
  | placeholder {digits : Text} : digits ≠ [] → (∀ c ∈ digits, c.isDigit) →
      Rebuilt math (.placeholder (Lexing.decimal digits) ('#' :: digits))
  | script {kind : ScriptKind} {body : Token} : body.HasUnitForm →
      Rebuilt math (.script kind body (kind.mark :: body.literal))
  | content {l : Text} : Rebuilt math (.content l.typeset l)

/-- Whether the tokens directly inside are in math, if the token is or not. -/
def mathInside (math : Bool) : Token → Bool
  | .math .. => true
  | _ => math

/-- Whether a token is a second one or holds it at some depth. The flags say which of them are
in math. -/
inductive Holds : Bool → Token → Bool → Token → Prop where
  | self {math : Bool} {t : Token} : Holds math t math t
  | part {math math' : Bool} {t s : Token} {p : Role × Token} : p ∈ t.parts →
      Holds (t.mathInside math) p.2 math' s → Holds math t math' s

/-- Whether all that a token holds is rebuilt. -/
def RebuiltInside (math : Bool) (t : Token) : Prop :=
  ∀ math' s, Holds math t math' s → s.Rebuilt math'

theorem RebuiltInside.intro {math : Bool} {t : Token} (h : t.Rebuilt math)
    (hparts : ∀ p ∈ t.parts, p.2.RebuiltInside (t.mathInside math)) : t.RebuiltInside math := by
  intro math' s hs
  cases hs with
  | self => exact h
  | part hp hs => exact hparts _ hp math' s hs

theorem RebuiltInside.of_children {math : Bool} {t : Token} (h : t.Rebuilt math)
    (ha : t.arguments = []) (hc : ∀ s ∈ t.children, s.RebuiltInside (t.mathInside math)) :
    t.RebuiltInside math := by
  apply RebuiltInside.intro h
  intro p hp
  unfold parts at hp
  rw [ha, List.flatMap_nil, List.append_nil] at hp
  obtain ⟨s, hs, rfl⟩ := List.mem_map.mp hp
  exact hc s hs

theorem RebuiltInside.of_leaf {math : Bool} {t : Token} (h : t.Rebuilt math)
    (ha : t.arguments = []) (hc : t.children = []) : t.RebuiltInside math := by
  apply RebuiltInside.of_children h ha
  intro s hs
  rw [hc] at hs
  cases hs

theorem rebuiltInside_ofText (math : Bool) (l : Text) : (ofText l).RebuiltInside math :=
  .of_leaf .content rfl rfl

end Token

namespace Lexing

section
variable {levels : Nat}

/-- Whether regions that nest one level deeper are rebuilt. -/
def RebuiltBelow (levels : Nat) : Prop :=
  ∀ math t ts, lexRegion levels math t = .ok ts → ∀ token ∈ ts, token.RebuiltInside math

theorem IsRegion.lexed_group {nested : RegionLexer} {math : Bool} {d : Delimiter} {inner : Text}
    {ts : List Token} (h : IsRegion nested math (.group d) inner ts) :
    nested math inner = .ok ts := by
  have hl := h.lexed
  rwa [Enclosure.isFormula, Bool.or_false] at hl

theorem IsRegion.lexed_formula {nested : RegionLexer} {math : Bool} {f : Fence} {inner : Text}
    {ts : List Token} (h : IsRegion nested math (.formula f) inner ts) :
    nested true inner = .ok ts := by
  have hl := h.lexed
  rwa [Enclosure.isFormula, Bool.or_true] at hl

theorem isLexed_of_lexRegion {math : Bool} {inner : Text} {ts : List Token}
    (h : lexRegion levels math inner = .ok ts) :
    inner = ts.flatMap Token.literal ∧ IsLexed math ts := by
  have ht := flatMap_literal_of_lexRegion h
  refine ⟨ht.symm, levels, ?_⟩
  rw [ht]
  exact h

theorem IsArgument.rebuilt {math : Bool} {a : Argument Token}
    (h : IsArgument (lexRegion levels) math a) : a.Rebuilt math := by
  cases h with
  | required hi =>
    obtain ⟨rfl, hl⟩ := isLexed_of_lexRegion hi.lexed_group
    exact .required hl
  | optional hi hv =>
    obtain ⟨rfl, hl⟩ := isLexed_of_lexRegion hi.lexed_group
    rcases OptionValue.cases_of_ofTokens hv with ⟨kvs, _, rfl⟩ | ⟨t, rfl, hs, rfl⟩ | rfl
    · exact .pairs hl hv
    · rw [List.flatMap_singleton]
      exact .single hl hs
    · exact .tokens hl

theorem IsArgument.rebuiltInside {math : Bool} {a : Argument Token}
    (h : IsArgument (lexRegion levels) math a) (hb : RebuiltBelow levels) :
    ∀ p ∈ a.parts, p.2.RebuiltInside math := by
  intro p hp
  cases h with
  | required hi =>
    obtain ⟨t, ht, rfl⟩ := List.mem_map.mp hp
    exact hb _ _ _ hi.lexed_group t ht
  | optional hi hv =>
    have hts := hb _ _ _ hi.lexed_group
    rcases OptionValue.cases_of_ofTokens hv with ⟨kvs, hm, rfl⟩ | ⟨t, rfl, _, rfl⟩ | rfl
    · obtain ⟨kv, hkv, hp⟩ := List.mem_flatMap.mp hp
      obtain ⟨t, ht, rfl⟩ := List.mem_map.mp hp
      rcases OptionValue.comesFrom_of_mapM_read hm kv hkv t ht with ht | ⟨l, rfl⟩
      · exact hts t ht
      · exact Token.rebuiltInside_ofText math l
    · cases List.mem_singleton.mp hp
      exact hts t List.mem_cons_self
    · obtain ⟨t, ht, rfl⟩ := List.mem_map.mp hp
      exact hts t ht

theorem IsUnit.hasUnitForm {nested : RegionLexer} {math : Bool} {next : Option Char}
    {token : Token} (h : IsUnit nested math next token) : token.HasUnitForm := by
  cases h with
  | character hc => exact ⟨_, rfl, hc⟩
  | _ => trivial

theorem IsRegion.block_rebuiltInside {math : Bool} {inner : Text} {ts : List Token}
    (h : IsRegion (lexRegion levels) math (.group .brace) inner ts) (hb : RebuiltBelow levels) :
    (Token.block ts ((Enclosure.group .brace).around inner)).RebuiltInside math := by
  have hts := hb _ _ _ h.lexed_group
  obtain ⟨rfl, hl⟩ := isLexed_of_lexRegion h.lexed_group
  exact .of_children (.block hl) rfl hts

theorem IsUnit.rebuiltInside {math : Bool} {next : Option Char} {token : Token}
    (h : IsUnit (lexRegion levels) math next token) (hb : RebuiltBelow levels) :
    token.RebuiltInside math := by
  induction h with
  | block hi => exact hi.block_rebuiltInside hb
  | @command name as hname has hnext =>
    apply Token.RebuiltInside.intro
    · exact .command fun a ha => (has a ha).rebuilt
    · intro p hp
      obtain ⟨a, ha, hp⟩ := List.mem_flatMap.mp hp
      exact (has a ha).rebuiltInside hb p hp
  | symbol hc =>
    apply Token.RebuiltInside.intro
    · apply Token.Rebuilt.command
      intro a ha
      cases ha
    · intro p hp
      cases hp
  | letterAccent hm hi =>
    apply Token.RebuiltInside.of_children (.letterAccent hm) rfl
    intro t ht
    cases List.mem_singleton.mp ht
    exact hi.block_rebuiltInside hb
  | symbolAccent hm hu ih =>
    apply Token.RebuiltInside.of_children (.symbolAccent hm hu.hasUnitForm) rfl
    intro t ht
    cases List.mem_singleton.mp ht
    exact ih
  | character => exact Token.rebuiltInside_ofText math _

theorem rebuilt_comment {math : Bool} {body stop : Text} (h : '\n' ∉ body)
    (hs : stop = ['\n'] ∨ stop = []) :
    (Token.comment (withoutReturn body).asWritten ('%' :: (body ++ stop))).Rebuilt math := by
  have hdrop : Text.dropFinal '\n' (body ++ stop) = body ∧ '\n' ∉ (body ++ stop).dropLast := by
    rcases hs with rfl | rfl
    · refine ⟨Text.dropFinal_concat _ _, ?_⟩
      rw [List.dropLast_concat]
      exact h
    · rw [List.append_nil]
      refine ⟨Text.dropFinal_of_not_mem h, ?_⟩
      intro hmem
      exact h ((List.dropLast_sublist body).subset hmem)
  have hrebuilt := @Token.Rebuilt.comment math (body ++ stop) hdrop.2
  rw [hdrop.1] at hrebuilt
  exact hrebuilt

theorem Stands.rebuiltInside {math : Bool} {next : Option Char} {opened : Nat} {token : Token}
    (h : Stands (lexRegion levels) math next opened token) (hb : RebuiltBelow levels) :
    token.RebuiltInside math := by
  cases h with
  | unit hu => exact hu.rebuiltInside hb
  | script hu =>
    apply Token.RebuiltInside.of_children (.script hu.hasUnitForm) rfl
    intro t ht
    cases List.mem_singleton.mp ht
    exact hu.rebuiltInside hb
  | formula hi =>
    have hts := hb _ _ _ hi.lexed_formula
    obtain ⟨rfl, hl⟩ := isLexed_of_lexRegion hi.lexed_formula
    exact .of_children (.formula hl) rfl hts
  | columnAlign => exact .of_leaf .columnAlign rfl rfl
  | comment hbody hstop =>
    exact .of_leaf (rebuilt_comment hbody (hstop.imp_right And.left)) rfl rfl
  | placeholder hne hrun => exact .of_leaf (.placeholder hne hrun.all) rfl rfl
  | text | closingText | bracketText => exact Token.rebuiltInside_ofText math _
  | bracket hm hi =>
    have hts := hb _ _ _ hi.lexed_group
    obtain ⟨rfl, hl⟩ := isLexed_of_lexRegion hi.lexed_group
    exact .of_children (.bracket hm hl) rfl hts

/-- All regions are rebuilt, whatever their depth. -/
theorem rebuiltBelow (levels : Nat) : RebuiltBelow levels := by
  induction levels with
  | zero =>
    intro math t ts h
    cases h
  | succ levels ih =>
    intro math t ts h token ht
    obtain ⟨opened, next, hs⟩ := (tokens_eq_ok_iff.mp h).2.exists_stands ht
    exact hs.rebuiltInside ih

end

end Lexing

namespace Document

theorem mem_drain_of_readToEnd {d : Document Uncached} {ts : List Token}
    (h : d.readToEnd.1 = .ok ts) : (d.seek 0).drain.tokens = ts := by
  rw [readToEnd] at h
  unfold Drained.result at h
  split at h
  · exact Except.ok.inj h
  · cases h

/-- Whatever the tokens of a document hold, at any depth, is rebuilt from its parts. -/
theorem rebuilt_of_readToEnd (source : Text) {ts : List Token}
    (h : ((ofSource source Uncached.mk).readToEnd).1 = .ok ts) {t s : Token} {math : Bool}
    (ht : t ∈ ts) (hs : t.Holds false math s) : s.Rebuilt math := by
  have hts := mem_drain_of_readToEnd h
  rw [drain, seek_zero] at hts
  subst hts
  obtain ⟨p, hp⟩ := Drained.exists_lexesAt_of_mem (u := []) t ht
  obtain ⟨u, rest, _, _, hstands⟩ := lexesAt_iff.mp hp
  exact hstands.rebuiltInside (Lexing.rebuiltBelow maxNesting) math s hs

/-- A superscript in a formula that is the value of a setting. -/
theorem rebuilt_of_readToEnd_script :
    let source : Text := ['\\', 'a', '[', 'b', '=', '$', '^', '{', 'c', '}', '$', ']']
    let script : Token := .script .superscript (.block [.ofText ['c']] ['{', 'c', '}'])
      ['^', '{', 'c', '}']
    let formula : Token := .math .inline [script] ['$', '^', '{', 'c', '}', '$']
    let command : Token := .command ['a'] [.optional (.pairs [⟨['b'], [formula]⟩])
      ['[', 'b', '=', '$', '^', '{', 'c', '}', '$', ']']] source
    ((ofSource source Uncached.mk).readToEnd).1 = .ok [command] ∧
      command.Holds false true script ∧ script.Rebuilt true := by
  intro source script formula command
  have hread : ((ofSource source Uncached.mk).readToEnd).1 = .ok [command] := by
    simp only [source, command, formula, script]
    cbv
  have hscript : formula.Holds false true script := by
    have hp : (Role.child, script) ∈ formula.parts := List.mem_cons_self
    exact .part hp .self
  have hcommand : command.Holds false true script := by
    have hp : (Role.setting ['b'], formula) ∈ command.parts := List.mem_cons_self
    exact .part hp hscript
  exact ⟨hread, hcommand, rebuilt_of_readToEnd source hread List.mem_cons_self hcommand⟩

end Document

end LatexTokens
