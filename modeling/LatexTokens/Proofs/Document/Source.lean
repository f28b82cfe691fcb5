import Mathlib
import LatexTokens.Proofs.Document.Whole
import LatexTokens.Proofs.Text.Reopening
import LatexTokens.Proofs.Text.Seam

/-!
# A document and its source text

Text that is inserted into a document is protected by itself. So the document that results is the
one opened from the spliced source text wherever neither the text before the insertion nor the
inserted text is open. A document that is opened again from its own source text is the same one
if no dropped line continuation has left a joint in it.
-/

set_option autoImplicit false

namespace LatexTokens

namespace Document
variable {κ : Type}

theorem locate_size_append {d : Document κ} {u v : Text} (h : d.buffer = u ++ v) :
    d.locate u.size = u.size := by
  rw [locate, if_neg (Int.not_lt.mpr (Int.natCast_nonneg _)), Int.toNat_natCast, h,
    Text.floor_size_append]

/-- Inserting between two parts of a text puts the new text there, even if it is dropped. -/
theorem buffer_insert_size_append [TokenCache κ] {d : Document κ} {u v : Text}
    (h : d.buffer = u ++ v) (text : Text) :
    (d.insert u.size text).buffer = u ++ (text.protect ++ v) := by
  simp only [insert, locate_size_append h]
  split
  · next hempty =>
    rw [List.isEmpty_iff.mp hempty, List.nil_append, h]
  · simp only [h, Text.before_size_append, Text.after_size_append, List.append_assoc]

/-- A text can be cut off in front of every other precisely if it is not open, and behind such a
text the insertion of another one does what opening the spliced source does. -/
theorem protect_append_iff_and_insert_eq (x t z : Text) :
    ((∀ y, Text.protect (x ++ y) = x.protect ++ Text.protect y) ↔ ¬ Text.IsOpen x) ∧
      (¬ Text.IsOpen x → ¬ Text.IsOpen t →
        let inserted := (ofSource (x ++ z) Uncached.mk).insert x.protect.size t
        let spliced := ofSource (x ++ t ++ z) Uncached.mk
        inserted.buffer = spliced.buffer ∧ inserted.readToEnd.1 = spliced.readToEnd.1) := by
  refine ⟨⟨?_, Text.protect_append_of_not_isOpen⟩, ?_⟩
  · intro hsplits hopen
    obtain ⟨y, hy⟩ := hopen.exists_completion
    exact hy (hsplits y)
  · intro hx ht inserted spliced
    have hbuffer : inserted.buffer = spliced.buffer := by
      have hsource : (ofSource (x ++ z) Uncached.mk).buffer = x.protect ++ z.protect :=
        Text.protect_append_of_not_isOpen hx z
      change _ = Text.protect (x ++ t ++ z)
      rw [buffer_insert_size_append hsource, List.append_assoc,
        Text.protect_append_of_not_isOpen hx, Text.protect_append_of_not_isOpen ht]
    refine ⟨hbuffer, ?_⟩
    rw [fst_readToEnd, fst_readToEnd, hbuffer]

/-- A pair of backslashes is closed, and so is a sequence; the group behind them stays one. -/
theorem protect_append_iff_and_insert_eq_caret :
    let x : Text := ['a', '\\', '\\']
    let t : Text := ['\\', '^', '{', '}']
    let z : Text := ['{', '}']
    ¬ Text.IsOpen x ∧ ¬ Text.IsOpen t ∧
      ((ofSource (x ++ z) Uncached.mk).insert x.protect.size t).buffer =
        ['a', '\ue004', '\ue008', '{', '}'] ∧
      ((ofSource (x ++ z) Uncached.mk).insert x.protect.size t).readToEnd.1 =
        (ofSource (x ++ t ++ z) Uncached.mk).readToEnd.1 := by
  intro x t z
  have hx : ¬ Text.IsOpen x := by decide
  have ht : ¬ Text.IsOpen t := by decide
  obtain ⟨hbuffer, htokens⟩ := (protect_append_iff_and_insert_eq x t z).2 hx ht
  refine ⟨hx, ht, ?_, htokens⟩
  rw [hbuffer]
  cbv

/-- A document opened again from its own source is the same document precisely if its text has no
joint, and has a smaller text otherwise. A source without line continuations leaves no joint. -/
theorem reopen_eq_iff_no_joint {source : Text} (h : ∀ c ∈ source, isSentinel c = false)
    (cache : κ) :
    let opened := ofSource source cache
    let reopened := ofSource opened.source cache
    (reopened = opened ↔ ∀ j ∈ Text.joints, ¬ j <:+: opened.buffer) ∧
      (reopened ≠ opened → reopened.size < opened.size) ∧
      ((∀ i < source.length, Text.continuationLength source i = 0) → reopened = opened) := by
  intro opened reopened
  have heq : reopened = opened ↔ Text.protect (Text.asWritten source.protect) = source.protect := by
    simp only [reopened, opened, ofSource, Document.source, mk.injEq, and_true]
  rw [heq]
  refine ⟨?_, ?_, ?_⟩
  · cases (Text.isLeftOver_protect h).reopened with
    | same hnone hsame => exact iff_of_true hsame hnone
    | smaller hj hinfix hlt =>
      refine iff_of_false ?_ fun hnone => hnone _ hj hinfix
      intro hsame
      rw [hsame] at hlt
      exact Nat.lt_irrefl _ hlt
  · intro hne
    cases (Text.isLeftOver_protect h).reopened with
    | same _ hsame => exact absurd hsame (fun h₀ => hne (heq.mpr h₀))
    | smaller _ _ hlt => exact hlt
  · intro hnone
    rw [Text.asWritten_protect_eq_replace h, Text.replace_continuations_of_none hnone]

/-- A dropped line continuation leaves a joint only in front of what completes it. -/
theorem reopen_eq_iff_no_joint_accent :
    let source : Text := ['\\', '^', '\\', '\n', '{', 'a', '}']
    let opened := ofSource source Uncached.mk
    (∀ c ∈ source, isSentinel c = false) ∧ opened.buffer = ['\\', '^', '{', 'a', '}'] ∧
      ofSource opened.source Uncached.mk = opened := by
  intro source opened
  have hsource : ∀ c ∈ source, isSentinel c = false := by
    simp only [source, List.forall_mem_cons, List.not_mem_nil, false_implies, implies_true]
    decide
  have hbuffer : opened.buffer = ['\\', '^', '{', 'a', '}'] := by
    simp only [opened, source]
    cbv
  refine ⟨hsource, hbuffer, (reopen_eq_iff_no_joint hsource Uncached.mk).1.mpr ?_⟩
  change ∀ j ∈ Text.joints, ¬ j <:+: opened.buffer
  rw [hbuffer]
  decide

/-- A caret and an empty group that a line continuation keeps apart become a sequence. -/
theorem not_forall_reopen_eq : ¬ ∀ source : Text, (∀ c ∈ source, isSentinel c = false) →
    (ofSource (ofSource source Uncached.mk).source Uncached.mk).buffer =
      (ofSource source Uncached.mk).buffer := by
  intro h
  have hsame := h ['\\', '^', '\\', '\n', '{', '}'] (by
    simp only [List.forall_mem_cons, List.not_mem_nil, false_implies, implies_true]
    decide)
  have hopened : (ofSource ['\\', '^', '\\', '\n', '{', '}'] Uncached.mk).buffer =
      ['\\', '^', '{', '}'] := by cbv
  have hreopened : (ofSource ['\\', '^', '{', '}'] Uncached.mk).buffer = ['\ue008'] := by cbv
  rw [source, hopened] at hsame
  exact absurd (hreopened.symm.trans hsame) (by decide)

end Document

end LatexTokens
