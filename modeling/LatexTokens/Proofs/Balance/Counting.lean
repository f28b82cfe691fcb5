import LatexTokens.Proofs.Balance.Finding
import LatexTokens.Proofs.Lexing.Following

/-!
# Counting brackets

The end of brackets around text alone is found twice: by the scan, which keeps the open groups on
a stack, and by the run of text that the brackets start, which counts them. The number is back at
zero where the scan finds the closing, and only there (`Enclosure.closingAt?_iff_returnsToZero`).
-/

set_option autoImplicit false

namespace LatexTokens

namespace Lexing

/-- The number of open brackets after a first part of a run of text outside math, if the part is
one of a run. The first character is taken as it is. -/
def runDepth? : Text → Option Nat
  | [] => some 0
  | c :: u => u.foldlM runStep (if c = '[' then 1 else 0)

/-- The run at the start of a text is its longest first part with a number of open brackets. -/
theorem prefix_literal_content_iff {c : Char} {t u : Text} :
    u <+: (content false c t).literal ↔ u <+: c :: t ∧ (runDepth? u).isSome := by
  cases u with
  | nil => simp [runDepth?]
  | cons a u =>
    change a :: u <+: c :: plainRun _ t ↔ _
    rw [List.cons_prefix_cons, List.cons_prefix_cons, prefix_plainRun_iff, runDepth?, and_assoc]
    refine and_congr_right ?_
    rintro rfl
    rfl

/-- Only a closing bracket takes the number to zero. -/
theorem eq_closing_of_runStep {depth : Nat} {c : Char} (h : runStep (depth + 1) c = some 0) :
    c = ']' ∧ depth = 0 := by
  rw [runStep] at h
  split at h
  · cases h
  · have hdepth := Option.some.inj h
    split at hdepth
    · cases hdepth
    · split at hdepth
      · next hc => exact ⟨hc, hdepth⟩
      · cases hdepth

/-- Whether a run that starts at an offset has a bracket open up to a second offset, and none any
more behind the character there. -/
structure ReturnsToZero (s : Text) (p i : Nat) : Prop where
  lt : p < i
  boundary : s.IsBoundary i
  opened : ∀ u ≠ [], u <+: Span.textIn ⟨p, i⟩ s → ∃ d, runDepth? u = some (d + 1)
  closed : runDepth? (Span.textIn ⟨p, i + 1⟩ s) = some 0

/-- A bracket stays open in the first parts of a text that leaves one open. -/
theorem exists_runDepth?_of_prefix {inner u : Text} {depth : Nat}
    (h : inner.foldlM runStep 1 = some (depth + 1)) (hne : u ≠ []) (hu : u <+: '[' :: inner) :
    ∃ d, runDepth? u = some (d + 1) := by
  obtain ⟨c, u, rfl⟩ := List.exists_cons_of_ne_nil hne
  obtain ⟨rfl, v, rfl⟩ := List.cons_prefix_cons.mp hu
  rw [List.foldlM_append] at h
  obtain ⟨d, hd, hv⟩ := Option.bind_eq_some_iff.mp h
  cases d with
  | zero => cases eq_zero_of_foldlM_runStep hv
  | succ d => exact ⟨d, hd⟩

end Lexing

/-! ## Offsets behind an opening bracket -/

namespace Text

theorem after_opening (u v : Text) : (u ++ '[' :: v).after (u.size + 1) = v := by
  have h := after_size_append (u ++ ['[']) v
  rwa [size_append, List.append_assoc] at h

end Text

theorem Span.textIn_append_add (u x v : Text) (n : Nat) :
    Span.textIn ⟨u.size, u.size + x.size + n⟩ (u ++ (x ++ v)) = x ++ v.before n := by
  rw [Span.textIn, ← List.append_assoc, ← Text.size_append, Text.before_size_add_append,
    List.append_assoc, Text.after_size_append]

theorem Span.textIn_behind_opening (u x v : Text) :
    Span.textIn ⟨u.size + 1, u.size + 1 + x.size⟩ (u ++ '[' :: (x ++ v)) = x := by
  have h := textIn_append (u ++ ['[']) x v
  rwa [Text.size_append, List.append_assoc] at h

theorem Span.textIn_around (u inner v : Text) :
    Span.textIn ⟨u.size, u.size + 1 + inner.size + 1⟩ (u ++ '[' :: (inner ++ ']' :: v)) =
      (Enclosure.group .bracket).around inner := by
  have h := textIn_append u ((Enclosure.group .bracket).around inner) v
  rw [Enclosure.around_group_append] at h
  have hsize : ((Enclosure.group .bracket).around inner).size = 1 + inner.size + 1 := by
    rw [Enclosure.around, Text.size_append, Text.size_append, Nat.add_assoc]
    rfl
  rwa [hsize, ← Nat.add_assoc, ← Nat.add_assoc] at h

namespace Lexing

/-- A number that returns to zero was one before, and the character there is a closing bracket. -/
theorem ReturnsToZero.exists_closing {u v : Text} {i : Nat}
    (h : ReturnsToZero (u ++ '[' :: v) u.size i) : ∃ inner rest, v = inner ++ ']' :: rest ∧
      i = u.size + 1 + inner.size ∧ inner.foldlM runStep 1 = some 1 := by
  obtain ⟨hlt, hi, hopened, hclosed⟩ := h
  obtain ⟨u', x, rest, heq, hu, rfl⟩ :=
    Text.exists_cut (Text.isBoundary_size_append u _) hi (Nat.le_of_lt hlt)
  have hx : '[' :: v = x ++ rest := by
    have hv := Text.after_size_append u ('[' :: v)
    rwa [heq, ← hu, Text.after_size_append, eq_comm] at hv
  have hne : x ≠ [] := by
    rintro rfl
    exact absurd hu (Nat.ne_of_gt hlt)
  rw [heq, ← hu, Span.textIn_append] at hopened
  rw [heq, ← hu, Span.textIn_append_add] at hclosed
  obtain ⟨d, hd⟩ := hopened x hne List.prefix_rfl
  obtain ⟨c, inner, rfl⟩ := List.exists_cons_of_ne_nil hne
  obtain ⟨rfl, rfl⟩ := List.cons.inj hx
  rcases rest.before_one with hnone | ⟨c, rest, rfl, hone⟩
  · -- Without a character there the number stays as it was.
    rw [hnone, List.append_nil, hd] at hclosed
    cases hclosed
  · have hrun : inner.foldlM runStep 1 = some (d + 1) := hd
    rw [hone] at hclosed
    change (inner ++ [c]).foldlM runStep 1 = some 0 at hclosed
    have hc : runStep (d + 1) c = some 0 := by simpa [hrun] using hclosed
    obtain ⟨rfl, rfl⟩ := eq_closing_of_runStep hc
    exact ⟨inner, rest, rfl, by rw [hu, Text.size_cons, Nat.add_assoc]; rfl, hrun⟩

theorem returnsToZero_of_foldlM_runStep {inner : Text} (h : inner.foldlM runStep 1 = some 1)
    (u rest : Text) :
    ReturnsToZero (u ++ '[' :: (inner ++ ']' :: rest)) u.size (u.size + 1 + inner.size) := by
  have hclosing : Text.before 1 (']' :: rest) = [']'] := Text.before_size_append [']'] rest
  have hcut : u ++ '[' :: (inner ++ ']' :: rest) = u ++ (('[' :: inner) ++ ']' :: rest) := rfl
  have hi : u.size + 1 + inner.size = u.size + Text.size ('[' :: inner) := Nat.add_assoc _ _ _
  rw [hi, hcut]
  refine ⟨Nat.lt_add_of_pos_right (Text.size_pos_of_ne_nil (List.cons_ne_nil _ _)), ?_, ?_, ?_⟩
  · rw [← List.append_assoc, ← Text.size_append]
    exact Text.isBoundary_size_append _ _
  · intro x hne hx
    rw [Span.textIn_append] at hx
    exact exists_runDepth?_of_prefix h hne hx
  · rw [Span.textIn_append_add, hclosing]
    change (inner ++ [']']).foldlM runStep 1 = some 0
    rw [List.foldlM_append, h]
    rfl

/-- Behind an opening bracket the number returns to zero where one bracket is left and is closed. -/
theorem returnsToZero_iff {u v : Text} {i : Nat} :
    ReturnsToZero (u ++ '[' :: v) u.size i ↔ ∃ inner rest, v = inner ++ ']' :: rest ∧
      i = u.size + 1 + inner.size ∧ inner.foldlM runStep 1 = some 1 := by
  constructor
  · exact ReturnsToZero.exists_closing
  · rintro ⟨inner, rest, rfl, rfl, hrun⟩
    exact returnsToZero_of_foldlM_runStep hrun u rest

end Lexing

namespace Enclosure
open Lexing

theorem closingAt?_eq_some_iff {e : Enclosure} {s : Text} {start i : Nat} :
    e.closingAt? s start = .ok (some i) ↔ ∃ inner rest,
      Scan.find e.nesting e.closing {} start (s.after start) = .ok (some (inner, rest)) ∧
        start + inner.size = i := by
  rw [closingAt?]
  rcases Scan.find e.nesting e.closing {} start (s.after start) with f | _ | ⟨inner, rest⟩ <;>
    simp [Except.map]

/-- Brackets around text alone are closed where the counter is back at the last open bracket and
a closing bracket follows. -/
theorem closingAt?_bracket_iff {u v : Text} {i : Nat} :
    ((group .bracket).closingAt? (u ++ '[' :: v) (u.size + 1) = .ok (some i) ∧
        ∀ c ∈ Span.textIn ⟨u.size + 1, i⟩ (u ++ '[' :: v), isSignificant c = false) ↔
      ∃ inner rest, v = inner ++ ']' :: rest ∧ i = u.size + 1 + inner.size ∧
        inner.foldlM runStep 1 = some 1 := by
  rw [closingAt?_eq_some_iff, Text.after_opening]
  constructor
  · rintro ⟨⟨inner, rest, hf, rfl⟩, hi⟩
    obtain rfl := Scan.append_eq_of_find hf
    rw [Span.textIn_behind_opening] at hi
    exact ⟨inner, rest, rfl, rfl, (inBrackets_empty.find_eq_some_iff.mp ⟨hf, hi⟩).2⟩
  · rintro ⟨inner, rest, rfl, rfl, hrun⟩
    obtain ⟨hf, hi⟩ := inBrackets_empty.find_eq_some_iff.mpr ⟨rfl, hrun⟩
    rw [Span.textIn_behind_opening]
    exact ⟨⟨inner, rest, hf, rfl⟩, hi⟩

/-- The scan and the counter find the same closing of brackets around text alone. -/
theorem closingAt?_iff_returnsToZero {s : Text} {p : Nat} (hp : s.IsBoundary p)
    (hopening : (s.after p).head? = some '[') {i : Nat} :
    ((group .bracket).closingAt? s (p + 1) = .ok (some i) ∧
        ∀ c ∈ Span.textIn ⟨p + 1, i⟩ s, isSignificant c = false) ↔ ReturnsToZero s p i := by
  obtain ⟨u, v, rfl, rfl⟩ := Text.isBoundary_iff.mp hp
  rw [Text.after_size_append] at hopening
  obtain ⟨v, rfl⟩ := List.head?_eq_some_iff.mp hopening
  rw [closingAt?_bracket_iff, returnsToZero_iff]

end Enclosure

end LatexTokens
