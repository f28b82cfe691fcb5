import Mathlib
import LatexTokens.Proofs.Balance.Counting
import LatexTokens.Proofs.Document.Lookahead
import LatexTokens.Proofs.Setting.Meeting
import LatexTokens.Proofs.Token.Rebuilding

/-!
# Texts outside math

Which texts are read outside math, at any depth: runs without brackets, and brackets around text
with such a run behind them. The brackets end where the scan for their closing stops, and there the
count of open brackets is back at zero. Two texts are next to each other only where the second
starts with a bracket, in every list of tokens of a document (`texts_agree_with_brackets`).
-/

set_option autoImplicit false

namespace LatexTokens

/-- Whether a text is a whole text token at an offset outside math. -/
structure IsTextAt (s : Text) (p : Nat) (l : Text) : Prop where
  ne_nil : l ≠ []
  starts : l <+: s.after p
  plain : ∀ c ∈ l, isSignificant c = false
  stop : ∀ c ∈ (s.after (p + l.size)).head?, isSignificant c ∨ c = '[' ∨ c = ']'
  /-- There are no brackets, or the text is a group of balanced brackets and more text. -/
  brackets : (∀ c ∈ l, c ≠ '[' ∧ c ≠ ']') ∨ ∃ i run,
    l.head? = some '[' ∧ (Enclosure.group .bracket).closingAt? s (p + 1) = .ok (some i) ∧
      l = Span.textIn ⟨p, i + 1⟩ s ++ run ∧ (∀ c ∈ run, c ≠ '[' ∧ c ≠ ']') ∧
      Balanced .bracesAndBrackets false (Span.textIn ⟨p + 1, i⟩ s)

namespace Lexing
variable {nested : RegionLexer} {next : Option Char} {opened : Nat}

theorem isRun_isPlain_iff {run : Text} : Text.IsRun (isPlain false) run next ↔
    (∀ c ∈ run, isSignificant c = false ∧ c ≠ '[' ∧ c ≠ ']') ∧
      ∀ c ∈ next, isSignificant c ∨ c = '[' ∨ c = ']' := by
  have hstop (c : Char) : isPlain false c = false ↔ isSignificant c ∨ c = '[' ∨ c = ']' := by
    rw [← Bool.not_eq_true, isPlain_false_iff, not_and_or, not_and_or, Bool.not_eq_false,
      Ne, not_not, Ne, not_not]
  constructor
  · intro h
    exact ⟨fun c hc => isPlain_false_iff.mp (h.all c hc), fun c hc => (hstop c).mp (h.stop c hc)⟩
  · rintro ⟨hall, hnext⟩
    exact ⟨fun c hc => isPlain_false_iff.mpr (hall c hc), fun c hc => (hstop c).mpr (hnext c hc)⟩

/-- The texts that stand before a character outside math. -/
theorem stands_content_iff {x l : Text} : Stands nested false next opened (.content x l) ↔
    x = l.typeset ∧ (l ≠ [] ∧ Text.IsRun (isPlain false) l next ∨ ∃ inner run,
      l = (Enclosure.group .bracket).around inner ++ run ∧
      (Enclosure.group .bracket).Encloses inner ∧ (∀ c ∈ inner, isSignificant c = false) ∧
      Text.IsRun (isPlain false) run next) := by
  constructor
  · intro h
    cases h with
    | unit _ hc => cases hc
    | text hp hrun =>
      exact ⟨rfl, .inl ⟨List.cons_ne_nil _ _, List.forall_mem_cons.mpr ⟨hp, hrun.all⟩, hrun.stop⟩⟩
    | closingText hm => cases hm
    | bracketText _ he hi hrun => exact ⟨rfl, .inr ⟨_, _, rfl, he, hi, hrun⟩⟩
  · rintro ⟨rfl, ⟨hne, hrun⟩ | ⟨inner, run, rfl, he, hi, hrun⟩⟩
    · obtain ⟨c, l, rfl⟩ := List.exists_cons_of_ne_nil hne
      obtain ⟨hc, hl⟩ := List.forall_mem_cons.mp hrun.all
      exact .text hc ⟨hl, hrun.stop⟩
    · exact .bracketText rfl he hi hrun

theorem forall_mem_around_iff {inner : Text} :
    (∀ c ∈ (Enclosure.group .bracket).around inner, isSignificant c = false) ↔
      ∀ c ∈ inner, isSignificant c = false := by
  rw [Enclosure.around, List.forall_mem_append, List.forall_mem_append]
  exact ⟨fun h => h.2.1, fun h => ⟨List.forall_mem_singleton.mpr rfl, h,
    List.forall_mem_singleton.mpr rfl⟩⟩

theorem stands_of_isTextAt {u l rest : Text} (h : IsTextAt (u ++ (l ++ rest)) u.size l) :
    Stands nested false rest.head? opened (.content l.typeset l) := by
  obtain ⟨hne, -, hplain, hstop, hbrackets⟩ := h
  rw [← List.append_assoc, ← Text.size_append, Text.after_size_append] at hstop
  refine stands_content_iff.mpr ⟨rfl, ?_⟩
  rcases hbrackets with hfree | ⟨i, run, hhead, hclosing, hl, hrun, -⟩
  · exact .inl ⟨hne, isRun_isPlain_iff.mpr ⟨fun c hc => ⟨hplain c hc, hfree c hc⟩, hstop⟩⟩
  · obtain ⟨m, rfl⟩ := List.head?_eq_some_iff.mp hhead
    obtain ⟨inner, behind, hf, rfl⟩ := Enclosure.closingAt?_eq_some_iff.mp hclosing
    rw [List.cons_append, Text.after_opening] at hf
    have hcut : m ++ rest = inner ++ ']' :: behind := (Scan.append_eq_of_find hf).symm
    rw [List.cons_append, hcut, Span.textIn_around] at hl
    rw [hl] at hplain
    obtain ⟨haround, hplain⟩ := List.forall_mem_append.mp hplain
    have hinner := forall_mem_around_iff.mp haround
    have hcount := (inBrackets_empty.find_eq_some_iff.mp ⟨hf, hinner⟩).2
    refine .inr ⟨inner, run, hl, (encloses_bracket_iff.mpr hcount).1, hinner, ?_⟩
    exact isRun_isPlain_iff.mpr ⟨fun c hc => ⟨hplain c hc, hrun c hc⟩, hstop⟩

theorem Stands.isTextAt {u x l rest : Text}
    (h : Stands nested false rest.head? opened (.content x l)) :
    IsTextAt (u ++ (l ++ rest)) u.size l := by
  have hstarts : l <+: (u ++ (l ++ rest)).after u.size := by
    rw [Text.after_size_append]
    exact List.prefix_append l rest
  have hbehind : (u ++ (l ++ rest)).after (u.size + l.size) = rest := by
    rw [← List.append_assoc, ← Text.size_append, Text.after_size_append]
  obtain ⟨-, ⟨hne, hrun⟩ | ⟨inner, run, rfl, he, hi, hrun⟩⟩ := stands_content_iff.mp h
  · obtain ⟨hall, hstop⟩ := isRun_isPlain_iff.mp hrun
    exact ⟨hne, hstarts, fun c hc => (hall c hc).1, by rwa [hbehind],
      .inl fun c hc => (hall c hc).2⟩
  · obtain ⟨hall, hstop⟩ := isRun_isPlain_iff.mp hrun
    have hs : u ++ ((Enclosure.group .bracket).around inner ++ run ++ rest) =
        u ++ '[' :: (inner ++ ']' :: (run ++ rest)) := by
      rw [List.append_assoc, Enclosure.around_group_append]
      rfl
    have hclosing := (Enclosure.closingAt?_bracket_iff (u := u)).mpr
      ⟨inner, run ++ rest, rfl, rfl, encloses_bracket_iff.mp ⟨he, hi⟩⟩
    refine ⟨by simp [Enclosure.around, Enclosure.opening], hstarts, ?_, by rwa [hbehind],
      .inr ⟨u.size + 1 + inner.size, run, rfl, ?_, ?_, fun c hc => (hall c hc).2, ?_⟩⟩
    · exact List.forall_mem_append.mpr ⟨forall_mem_around_iff.mpr hi, fun c hc => (hall c hc).1⟩
    · rw [hs]
      exact hclosing.1
    · rw [hs, Span.textIn_around]
    · rw [hs, Span.textIn_behind_opening]
      exact he.balanced

/-- The text that stands at the start of a text is the run that starts there. -/
theorem content_of_stands {c : Char} {t x l rest : Text}
    (h : Stands nested false rest.head? opened (.content x l)) (ht : c :: t = l ++ rest) :
    content false c t = .content x l := by
  obtain ⟨rfl, ⟨hne, hrun⟩ | ⟨inner, run, rfl, he, hi, hrun⟩⟩ := stands_content_iff.mp h
  · obtain ⟨d, m, rfl⟩ := List.exists_cons_of_ne_nil hne
    obtain ⟨rfl, rfl⟩ := List.cons.inj ht
    obtain ⟨hc, hm⟩ := List.forall_mem_cons.mp hrun.all
    have hm : Text.IsRun (isPlain false) m rest.head? := ⟨hm, hrun.stop⟩
    rw [content_eq_ofText (.inr (isPlain_false_iff.mp hc).2.1)]
    exact congrArg (fun m => Token.ofText (c :: m)) hm.takeWhile_append
  · rw [List.append_assoc, Enclosure.around_group_append] at ht
    obtain ⟨rfl, rfl⟩ := List.cons.inj ht
    have heq := content_eq_of_split (he (run ++ rest)) hi
    rwa [hrun.takeWhile_append] at heq

/-! ## Lists of tokens -/

theorem StandInRow.textsMeetAtBrackets {ts : List Token} (h : StandInRow nested false opened ts) :
    TextsMeetAtBrackets ts := by
  induction ts generalizing opened with
  | nil => exact List.isChain_nil
  | cons t ts ih =>
    refine List.isChain_cons.mpr ⟨?_, ih h.2⟩
    rintro s hs ht hcontent
    obtain ⟨x, l, rfl⟩ := Token.isContent_iff.mp ht
    obtain ⟨y, m, rfl⟩ := Token.isContent_iff.mp hcontent
    obtain ⟨ts, rfl⟩ := List.head?_eq_some_iff.mp hs
    obtain ⟨-, ⟨hne, hrun⟩ | ⟨inner, run, rfl, -⟩⟩ := stands_content_iff.mp h.2.1
    · -- Without brackets at its start the second text would be a part of the first one.
      obtain ⟨c, m, rfl⟩ := List.exists_cons_of_ne_nil hne
      have hplain : isPlain false c = false := h.1.isPlain_of_content
      cases hplain.symm.trans (hrun.all c List.mem_cons_self)
    · rfl

end Lexing

namespace Argument
variable {τ : Type}

/-- The lists of tokens directly inside an argument, one for each value of a setting. -/
def lists : Argument τ → List (List τ)
  | required ts _ => [ts]
  | optional (.single t) _ => [[t]]
  | optional (.pairs ps) _ => ps.map KeyValue.value
  | optional (.tokens ts) _ => [ts]

theorem flatten_lists (a : Argument τ) : a.lists.flatten = a.parts.map Prod.snd := by
  cases a with
  | required ts l => simp [lists, parts]
  | optional v l => cases v <;> simp [lists, parts, List.flatMap, Function.comp_def]

end Argument

namespace Token

/-- The lists of tokens directly inside a token. -/
def lists (t : Token) : List (List Token) := t.children :: t.arguments.flatMap Argument.lists

/-- The lists hold all parts of the token, in order. -/
theorem flatten_lists (t : Token) : t.lists.flatten = t.parts.map Prod.snd := by
  have hinside : (t.arguments.flatMap Argument.lists).flatten =
      (t.arguments.flatMap Argument.parts).map Prod.snd := by
    induction t.arguments with
    | nil => rfl
    | cons a as ih =>
      rw [List.flatMap_cons, List.flatMap_cons, List.flatten_append, List.map_append, ih,
        a.flatten_lists]
  rw [lists, parts, List.flatten_cons, List.map_append, map_snd_map_pair, hinside]

end Token

/-- The lists of tokens outside math that some tokens make up or have inside, at any depth. -/
inductive IsListOutsideMath (ts : List Token) : List Token → Prop where
  | whole : IsListOutsideMath ts ts
  | inside {t s : Token} {us : List Token} : t ∈ ts → t.Holds false false s →
      s.mathInside false = false → us ∈ s.lists → IsListOutsideMath ts us

theorem IsLexed.textsMeetAtBrackets {ts : List Token} (h : IsLexed false ts) :
    TextsMeetAtBrackets ts := by
  obtain ⟨levels, h⟩ := h
  cases levels with
  | zero => cases h
  | succ levels => exact (Lexing.tokens_eq_ok_iff.mp h).2.textsMeetAtBrackets

theorem Argument.Rebuilt.textsMeetAtBrackets {a : Argument Token} (h : a.Rebuilt false) :
    ∀ us ∈ a.lists, TextsMeetAtBrackets us := by
  intro us hus
  cases h with
  | required hts =>
    cases List.mem_singleton.mp hus
    exact hts.textsMeetAtBrackets
  | single =>
    cases List.mem_singleton.mp hus
    exact List.isChain_singleton _
  | tokens hts =>
    cases List.mem_singleton.mp hus
    exact hts.textsMeetAtBrackets
  | @pairs ts kvs hts hvalue =>
    obtain ⟨kv, hkv, rfl⟩ := List.mem_map.mp hus
    rcases OptionValue.cases_of_ofTokens hvalue with ⟨kvs, hm, h⟩ | ⟨t, -, -, h⟩ | h <;> cases h
    exact OptionValue.textsMeetAtBrackets hm hts.textsMeetAtBrackets kv hkv

theorem Token.Rebuilt.textsMeetAtBrackets {t : Token} (h : t.Rebuilt false)
    (hm : t.mathInside false = false) : ∀ us ∈ t.lists, TextsMeetAtBrackets us := by
  have single (t : Token) : TextsMeetAtBrackets [t] := List.isChain_singleton t
  intro us hus
  rcases List.mem_cons.mp hus with rfl | hus
  · cases h with
    | formula => cases hm
    | block hts | bracket _ hts => exact hts.textsMeetAtBrackets
    | symbolAccent | letterAccent | script => exact single _
    | _ => exact List.isChain_nil
  · obtain ⟨a, ha, hlist⟩ := List.mem_flatMap.mp hus
    cases h with
    | command has => exact (has a ha).textsMeetAtBrackets us hlist
    | _ => cases ha

theorem textsMeetAtBrackets_of_lexAt {depth : Nat} {s : Text} {ts us : List Token}
    (h : lexAt depth false s = .ok ts) (hus : IsListOutsideMath ts us) :
    TextsMeetAtBrackets us := by
  cases hus with
  | whole => exact (Lexing.isLexed_of_lexRegion h).2.textsMeetAtBrackets
  | inside ht hs hm hus =>
    exact (Lexing.rebuiltBelow _ _ _ _ h _ ht _ _ hs).textsMeetAtBrackets hm us hus

/-- Outside math the texts that are read are the texts described by `IsTextAt`; a text is all that
has a number of open brackets at its offset. Around text alone the scan finds a closing bracket
where that number returns to zero. In no list of tokens a text is directly behind a text, unless it
starts with a bracket. -/
theorem texts_agree_with_brackets {s : Text} {p : Nat} (hp : s.IsBoundary p) (depth : Nat) :
    (∀ x l, readAt? depth false s p = .ok (some (.content x l)) ↔
      x = l.typeset ∧ IsTextAt s p l) ∧
    (∀ x l, readAt? depth false s p = .ok (some (.content x l)) →
      ∀ u, u <+: l ↔ u <+: s.after p ∧ (Lexing.runDepth? u).isSome) ∧
    ((s.after p).head? = some '[' → ∀ i,
      ((Enclosure.group .bracket).closingAt? s (p + 1) = .ok (some i) ∧
        ∀ c ∈ Span.textIn ⟨p + 1, i⟩ s, isSignificant c = false) ↔
      Lexing.ReturnsToZero s p i) ∧
    ∀ ts us, lexAt depth false s = .ok ts → IsListOutsideMath ts us → TextsMeetAtBrackets us := by
  refine ⟨?_, ?_, fun h i => Enclosure.closingAt?_iff_returnsToZero hp h, ?_⟩
  · intro x l
    obtain ⟨u, v, rfl, rfl⟩ := Text.isBoundary_iff.mp hp
    rw [readAt?_eq_some_iff, Text.after_size_append]
    constructor
    · rintro ⟨rest, rfl, h⟩
      exact ⟨(Lexing.stands_content_iff.mp h).1, h.isTextAt⟩
    · rintro ⟨rfl, h⟩
      obtain ⟨rest, hrest⟩ := h.starts
      rw [Text.after_size_append] at hrest
      subst hrest
      exact ⟨rest, rfl, Lexing.stands_of_isTextAt h⟩
  · intro x l h u
    obtain ⟨rest, hs, h⟩ := readAt?_eq_some_iff.mp h
    cases l with
    | nil => exact absurd rfl h.literal_ne_nil
    | cons c m =>
      have hrun : Lexing.content false c (m ++ rest) = .content x (c :: m) :=
        Lexing.content_of_stands h rfl
      rw [hs, Token.literal, List.cons_append, ← Lexing.prefix_literal_content_iff, hrun,
        Token.literal]
  · exact fun ts us => textsMeetAtBrackets_of_lexAt

/-- Brackets in brackets, behind a character of two bytes and in front of other brackets, in a
region three levels deep. -/
theorem texts_agree_with_brackets_nested :
    let l : Text := ['[', 'a', '[', 'b', ']', ']', 'c']
    let us : List Token := [.ofText ['e'], .ofText ['[', 'f', ']']]
    let group : Token := .block us ['{', 'e', '[', 'f', ']', '}']
    let ts : List Token := [.ofText ['é'], .ofText l, .ofText ['[', 'd', ']'], group]
    let s : Text := ts.flatMap Token.literal
    s.IsBoundary 2 ∧ readAt? 3 false s 2 = .ok (some (.ofText l)) ∧ IsTextAt s 2 l ∧
      ['[', 'a', '['] <+: l ∧ (Lexing.runDepth? ['[', 'a', '[']).isSome ∧
      (Enclosure.group .bracket).closingAt? s 3 = .ok (some 7) ∧ Lexing.ReturnsToZero s 2 7 ∧
      lexAt 3 false s = .ok ts ∧ IsListOutsideMath ts us ∧
      TextsMeetAtBrackets ts ∧ TextsMeetAtBrackets us := by
  intro l us group ts s
  have hp : s.IsBoundary 2 := by decide
  have hread : readAt? 3 false s 2 = .ok (some (.ofText l)) := by
    simp only [s, ts, l, us, group]
    cbv
  have hclosing : (Enclosure.group .bracket).closingAt? s 3 = .ok (some 7) := by
    simp only [s, ts, l, us, group]
    cbv
  have hinner : Span.textIn ⟨3, 7⟩ s = ['a', '[', 'b', ']'] := by decide
  have hplain : ∀ c ∈ Span.textIn ⟨3, 7⟩ s, isSignificant c = false := by
    rw [hinner]
    simp [isSignificant]
  have hlex : lexAt 3 false s = .ok ts := by
    simp only [s, ts, l, us, group]
    cbv
  have hus : IsListOutsideMath ts us :=
    .inside (t := group) (by simp [ts]) .self rfl List.mem_cons_self
  obtain ⟨htext, hrun, hcount, hmeet⟩ := texts_agree_with_brackets hp 3
  have hfirst : ['[', 'a', '['] <+: l := ⟨['b', ']', ']', 'c'], rfl⟩
  exact ⟨hp, hread, ((htext _ l).mp hread).2, hfirst, ((hrun _ l hread _).mp hfirst).2, hclosing,
    (hcount rfl 7).mp ⟨hclosing, hplain⟩, hlex, hus, hmeet ts ts hlex .whole,
    hmeet ts us hlex hus⟩

end LatexTokens
