import LatexTokens.Lexing.Region
import LatexTokens.Proofs.Balance.Passing
import LatexTokens.Proofs.Text.Boundary

/-!
# Faults stand where they say

`Cause.Suits` says for each cause what the marked stretch of a text is and, where that matters,
what stands before and behind it. A fault is placed in a text if its span marks such a stretch.
Text in front of the place and text behind it change nothing but the positions, which
`Fault.shift` moves along, so a fault of a region is placed in the text around the region.
-/

set_option autoImplicit false

namespace LatexTokens

/-- Whether a construct starts with a text. -/
inductive IsLead : String → Text → Prop where
  | script (kind : ScriptKind) : IsLead kind.name [kind.mark]
  | accent {mark : Char} : Lexing.isSymbolAccent mark → IsLead "accent" ['\\', mark]

/-- Whether a cause can be given for the marked stretch between two others. -/
def Cause.Suits (before marked after : Text) : Cause → Prop
  | .neverTerminated opening => [opening] <+: marked
  | .noMatchingOpener closing => marked = [closing]
  | .mismatchedDelimiter opening position closing =>
    marked = [closing] ∧ ∃ x y, before = x ++ opening :: y ∧ x.size = position
  | .unterminatedMath closing => ∃ f : Fence,
    (Enclosure.formula f).closing = closing ∧ (Enclosure.formula f).opening <+: marked
  | .unexpectedMathCloser closing => marked = closing
  | .emptyControlSequence => marked = ['\\']
  | .emptyPlaceholder => marked = ['#']
  | .placeholderTooLarge => ∃ digits, marked = '#' :: digits ∧ (∀ c ∈ digits, c.isDigit) ∧
    wordSize ≤ Lexing.decimal digits
  | .invalidUnit construct => ∃ lead, IsLead construct lead ∧ lead <+: marked
  | .missingEquals _ | .valueWithoutKey => ['['] <:+ before ∧ [']'] <+: after
  | .nestingTooDeep limit => limit = maxNesting ∧
    ∃ e : Enclosure, e.opening <:+ before ∧ e.closing <+: after

theorem Cause.Suits.shift {before marked after : Text} {c : Cause}
    (h : c.Suits before marked after) (u : Text) :
    (c.shift u.size).Suits (u ++ before) marked after := by
  cases c with
  | mismatchedDelimiter opening position closing =>
    obtain ⟨hm, x, y, rfl, rfl⟩ := h
    refine ⟨hm, u ++ x, y, ?_, ?_⟩
    · rw [List.append_assoc]
    · rw [Text.size_append, Nat.add_comm]
  | missingEquals | valueWithoutKey =>
    obtain ⟨hb, ha⟩ := h
    exact ⟨hb.trans (List.suffix_append u before), ha⟩
  | nestingTooDeep limit =>
    obtain ⟨hl, e, hb, ha⟩ := h
    exact ⟨hl, e, hb.trans (List.suffix_append u before), ha⟩
  | _ => exact h

theorem Cause.Suits.append {before marked after : Text} {c : Cause}
    (h : c.Suits before marked after) (v : Text) : c.Suits before marked (after ++ v) := by
  cases c with
  | missingEquals | valueWithoutKey =>
    obtain ⟨hb, ha⟩ := h
    exact ⟨hb, ha.trans (List.prefix_append after v)⟩
  | nestingTooDeep limit =>
    obtain ⟨hl, e, hb, ha⟩ := h
    exact ⟨hl, e, hb, ha.trans (List.prefix_append after v)⟩
  | _ => exact h

/-- Whether the span of a fault marks a stretch of a text that its cause suits. -/
def Fault.IsPlacedIn (t : Text) (f : Fault) : Prop :=
  ∃ before marked after, t = before ++ (marked ++ after) ∧
    f.span = ⟨before.size, before.size + marked.size⟩ ∧ f.cause.Suits before marked after

namespace Fault.IsPlacedIn

theorem of_suits {before marked after : Text} {c : Cause} (h : c.Suits before marked after) :
    IsPlacedIn (before ++ (marked ++ after)) ⟨⟨before.size, before.size + marked.size⟩, c⟩ :=
  ⟨before, marked, after, rfl, rfl, h⟩

/-- A fault at the start of a text. -/
theorem of_prefix {marked after : Text} {c : Cause} (h : c.Suits [] marked after) :
    IsPlacedIn (marked ++ after) ⟨⟨0, marked.size⟩, c⟩ := by
  have hp := of_suits h
  rwa [Text.size_nil, Nat.zero_add] at hp

theorem of_point {before after : Text} {a : Char} {c : Cause} (ha : a.utf8Size = 1)
    (h : c.Suits before [a] after) : IsPlacedIn (before ++ a :: after) (.point before.size c) := by
  have hp := of_suits h
  rwa [Text.size_cons, ha, Text.size_nil] at hp

theorem of_head {after : Text} {a : Char} {c : Cause} (ha : a.utf8Size = 1)
    (h : c.Suits [] [a] after) : IsPlacedIn (a :: after) (.point 0 c) := of_point ha h

theorem shift {t : Text} {f : Fault} (h : f.IsPlacedIn t) (u : Text) :
    (f.shift u.size).IsPlacedIn (u ++ t) := by
  obtain ⟨before, marked, after, rfl, hspan, hsuits⟩ := h
  refine ⟨u ++ before, marked, after, ?_, ?_, hsuits.shift u⟩
  · rw [List.append_assoc]
  · rw [Fault.shift, hspan, Span.shift, Text.size_append, Nat.add_comm u.size before.size]
    rw [Nat.add_right_comm]

theorem append {t : Text} {f : Fault} (h : f.IsPlacedIn t) (v : Text) :
    f.IsPlacedIn (t ++ v) := by
  obtain ⟨before, marked, after, rfl, hspan, hsuits⟩ := h
  refine ⟨before, marked, after ++ v, ?_, hspan, hsuits.append v⟩
  simp only [List.append_assoc]

end Fault.IsPlacedIn

namespace Scan

/-- Whether the groups that are open after a text start where they are said to. -/
def StartIn (u : Text) (s : Scan) : Prop :=
  ∀ d start, (d, start) ∈ s.opened → ∃ x y, u = x ++ d.opening :: y ∧ x.size = start

theorem startIn_empty (u : Text) : StartIn u {} := by
  intro d start h
  cases h

theorem StartIn.append {u : Text} {s : Scan} (h : s.StartIn u) (v : Text) :
    s.StartIn (u ++ v) := by
  intro d start hd
  obtain ⟨x, y, rfl, hx⟩ := h d start hd
  refine ⟨x, y ++ v, ?_, hx⟩
  rw [List.append_assoc, List.cons_append]

theorem StartIn.push {u : Text} {s : Scan} (h : s.StartIn u) (d : Delimiter) :
    (s.push d u.size).StartIn (u ++ [d.opening]) := by
  intro e start he
  rcases List.mem_cons.mp he with he | he
  · cases he
    exact ⟨u, [], rfl, rfl⟩
  · exact h.append [d.opening] e start he

theorem StartIn.tail {u : Text} {s : Scan} {e : Delimiter × Nat} {opened : List (Delimiter × Nat)}
    (h : s.StartIn u) (ho : s.opened = e :: opened) : StartIn u { s with opened } := by
  intro d start hd
  apply h d start
  rw [ho]
  exact List.mem_cons_of_mem e hd

theorem StartIn.isPlacedIn_of_pop {u : Text} {s : Scan} (h : s.StartIn u) {d : Delimiter}
    {f : Fault} (hf : s.pop d u.size = .error f) (t : Text) :
    f.IsPlacedIn (u ++ d.closing :: t) := by
  have hd : d.closing.utf8Size = 1 := by cases d <;> rfl
  unfold Scan.pop at hf
  split at hf
  · cases hf
    exact .of_point hd rfl
  · next e start opened ho =>
    split at hf
    · cases hf
    · cases hf
      apply Fault.IsPlacedIn.of_point hd
      refine ⟨rfl, h e start ?_⟩
      rw [ho]
      exact List.mem_cons_self

/-- Passing over a character keeps track of the groups that are open. -/
theorem StartIn.passes {u : Text} {s s' : Scan} (h : s.StartIn u) {n : Nesting} {c : Char}
    (hc : s.Passes n u.size c s') : s'.StartIn (u ++ [c]) := by
  cases hc with
  | opening => exact h.push _
  | closing _ _ ho => exact (h.tail ho).append _
  | _ => exact h.append _

theorem StartIn.isPlacedIn_of_step {u : Text} {s : Scan} (h : s.StartIn u) {n : Nesting} {c : Char}
    {f : Fault} (hf : s.step n u.size c = .error f) (t : Text) : f.IsPlacedIn (u ++ c :: t) := by
  obtain ⟨_, d, _, rfl, hpop⟩ := pop_of_step_eq_error hf
  exact h.isPlacedIn_of_pop hpop t

theorem StartIn.isPlacedIn_of_find {n : Nesting} {closing u t : Text} {s : Scan} {f : Fault}
    (h : s.StartIn u) (hf : s.find n closing u.size t = .error f) : f.IsPlacedIn (u ++ t) := by
  induction t generalizing s u with
  | nil =>
    unfold Scan.find at hf
    split at hf
    · cases hf
    · next d start opened ho =>
      cases hf
      obtain ⟨x, y, rfl, rfl⟩ := h d start (by rw [ho]; exact List.mem_cons_self)
      have hsuits : (Cause.neverTerminated d.opening).Suits x (d.opening :: y) [] := ⟨y, rfl⟩
      have hp := Fault.IsPlacedIn.of_suits hsuits
      rw [← Text.size_append, List.append_nil] at hp
      rw [List.append_nil]
      exact hp
  | cons c t ih =>
    unfold Scan.find at hf
    split at hf
    · cases hf
    · split at hf
      · next f' hs =>
        cases hf
        exact h.isPlacedIn_of_step hs t
      · next s' hs =>
        have hsize : u.size + c.utf8Size = (u ++ [c]).size := by simp
        rw [hsize] at hf
        split at hf
        · next f' hfind =>
          cases hf
          have hp := ih (h.passes (step_eq_ok_iff.mp hs)) hfind
          rwa [List.append_assoc] at hp
        · cases hf
        · cases hf

end Scan

/-- A fault of finding where a region ends is placed in the text from its opening on. -/
theorem Enclosure.isPlacedIn_of_split {e : Enclosure} {t : Text} {f : Fault}
    (hf : e.split t = .error f) : f.IsPlacedIn (e.opening ++ t) := by
  unfold Enclosure.split at hf
  split at hf
  · next f' hfind =>
    cases hf
    exact (Scan.startIn_empty e.opening).isPlacedIn_of_find hfind
  · cases hf
    have hsuits : e.unclosed.Suits [] (e.opening ++ t) [] := by
      cases e with
      | group d => exact ⟨t, rfl⟩
      | formula f => exact ⟨f, rfl, List.prefix_append _ t⟩
    have hp := Fault.IsPlacedIn.of_prefix hsuits
    rwa [Text.size_append, List.append_nil] at hp
  · cases hf

end LatexTokens
