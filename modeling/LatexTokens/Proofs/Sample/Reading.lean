import LatexTokens.Proofs.Document.Front
import LatexTokens.Proofs.Offset.Editing
import LatexTokens.Proofs.Sample.Rolling
import LatexTokens.Proofs.Text.Seam

/-!
# Samples can be read

A text is readable if there is no fault in it. It stays so with a character of words, a comment line
or another token in front of it. The items, the blank lines and the preamble of a sample are made of
these, so a sample is readable from its end to its start (`isReadable_document`). No backslash in it
starts a special sequence, so the literals of its tokens join to the sample itself.
-/

set_option autoImplicit false

namespace LatexTokens

/-- Whether there is no fault in a text. -/
def IsReadable (t : Text) : Prop := ∃ ts, tokenize t = .ok ts

namespace IsReadable
variable {v : Text}

theorem append_of_stands (hv : IsReadable v) {t : Token}
    (h : Lexing.Stands (lexRegion maxNesting) false v.head? 0 t) :
    IsReadable (t.literal ++ v) := by
  obtain ⟨ts, hts⟩ := hv
  rw [IsReadable, tokenize_append_of_stands h, hts]
  exact ⟨t :: ts, rfl⟩

theorem cons (hv : IsReadable v) {c : Char} (h : Lexing.isPlain false c) : IsReadable (c :: v) := by
  obtain ⟨ts, hts⟩ := hv
  have hread := tokenize_word_append (List.cons_ne_nil c []) (List.forall_mem_singleton.mpr h) v
  rw [hts] at hread
  exact ⟨Token.behindWord [c] ts, hread⟩

theorem comment_append (hv : IsReadable v) {body : Text} (h : '\n' ∉ body) :
    IsReadable ('%' :: (body ++ ['\n']) ++ v) :=
  hv.append_of_stands (.comment h (.inl rfl))

/-- A token that is read in front of one text can be put in front of all that start as it does. -/
theorem append_of_tokenize (hv : IsReadable v) {t : Token} {u : Text} {ts : List Token}
    (h : tokenize (t.literal ++ u) = .ok (t :: ts)) (hhead : u.head? = v.head?) :
    IsReadable (t.literal ++ v) := by
  obtain ⟨htext, hstands, -⟩ := Lexing.tokens_eq_ok_iff.mp h
  rw [List.flatMap_cons, List.append_cancel_left_eq] at htext
  refine hv.append_of_stands ?_
  rwa [← hhead, htext]

/-- What can be put in front of every readable text can be put there any number of times. -/
theorem replicate_append (hv : IsReadable v) {t : Text}
    (h : ∀ {w}, IsReadable w → IsReadable (t ++ w)) (n : Nat) :
    IsReadable ((List.replicate n t).flatten ++ v) := by
  induction n with
  | zero => exact hv
  | succ n ih =>
    rw [List.replicate_succ, List.flatten_cons, List.append_assoc]
    exact h ih

end IsReadable

namespace Sample
variable {v : Text}

theorem isPlain_lineBreak : Lexing.isPlain false '\n' := by decide

theorem isReadable_item_append (f : Filler) (hv : IsReadable v) : IsReadable (item f ++ v) := by
  have hspace : Lexing.isPlain false ' ' := by decide
  cases f with
  | space => exact hv.cons hspace
  | comment =>
    have hbody : '\n' ∉ " a comment \x7bwith a brace".toList := by decide
    exact hv.comment_append hbody
  | alignment => exact ((hv.cons hspace).append_of_stands .columnAlign).cons hspace

theorem isReadable_paragraph_append (n : Nat) (f : Filler) (hv : IsReadable v) :
    IsReadable (paragraph n f ++ v) := by
  rw [paragraph, List.append_assoc]
  have hbreak := (hv.cons isPlain_lineBreak).cons isPlain_lineBreak
  exact hbreak.replicate_append (isReadable_item_append f) n

theorem isReadable_preamble_append (hv : IsReadable v) : IsReadable (preamble ++ v) := by
  -- The two commands are read up to the line break behind them, whatever comes after that.
  let documentClass : Token := .command "documentclass".toList
    [.optional (.single (.ofText "12pt".toList)) "[12pt]".toList,
      .required [.ofText "article".toList] "\x7barticle\x7d".toList]
    "\\documentclass[12pt]\x7barticle\x7d".toList
  let start : Token := .command "begin".toList
    [.required [.ofText "document".toList] "\x7bdocument\x7d".toList]
    "\\begin\x7bdocument\x7d".toList
  have hclass : tokenize (documentClass.literal ++ ['\n']) =
      .ok [documentClass, .ofText ['\n']] := by
    simp only [documentClass]
    cbv
  have hstart : tokenize (start.literal ++ ['\n']) = .ok [start, .ofText ['\n']] := by
    simp only [start]
    cbv
  let body : Text := " This LaTeX document was randomly generated.".toList
  have htext : preamble = '%' :: (body ++ ['\n']) ++
      (documentClass.literal ++ '\n' :: (start.literal ++ ['\n'])) := by
    simp only [body, documentClass, start]
    cbv
  have hbody : '\n' ∉ body := by
    simp only [body]
    decide
  have hlines := ((hv.cons isPlain_lineBreak).append_of_tokenize hstart rfl).cons isPlain_lineBreak
  rw [htext]
  simpa only [List.append_assoc, List.cons_append, List.nil_append] using
    (hlines.append_of_tokenize hclass rfl).comment_append hbody

theorem isReadable_ending : IsReadable ending := by
  refine ⟨[.command "end".toList [.required [.ofText "document".toList]
    "\x7bdocument\x7d".toList] "\\end\x7bdocument\x7d".toList, .ofText ['\n']], ?_⟩
  cbv

theorem isReadable_document (wanted fillers : Nat) (f : Filler) :
    IsReadable (document wanted fillers f) := by
  rw [document, List.append_assoc]
  exact isReadable_preamble_append
    (isReadable_ending.replicate_append (isReadable_paragraph_append fillers f) _)

/-! ## Samples are their own protected form -/

theorem notMem_paragraph (n : Nat) (f : Filler) : '\\' ∉ paragraph n f := by
  have hitem : '\\' ∉ item f := by cases f <;> decide
  simp [paragraph, List.mem_flatten, List.mem_replicate, hitem]

theorem protect_document (wanted fillers : Nat) (f : Filler) :
    (document wanted fillers f).protect = document wanted fillers f := by
  have hpreamble : preamble.protect = preamble := by cbv
  have hending : ending.protect = ending := by cbv
  have hbody : '\\' ∉ (List.replicate (paragraphCount wanted fillers f)
      (paragraph fillers f)).flatten := by
    simp [List.mem_flatten, List.mem_replicate, notMem_paragraph]
  have hopen : ¬ Text.IsOpen preamble := by decide +kernel
  rw [document, List.append_assoc, Text.protect_append_of_not_isOpen hopen, hpreamble,
    Checked.protect_append hbody, hending]

/-! ## What the generator gives -/

/-- With one weight that is not zero, and bounds that leave no choice of a length, the generator
ends and gives the sample, which has the least number of paragraphs that is enough. The sample is
read to its end, and the literals of its tokens join to it. -/
theorem generate_only {ρ : Type} {dice : Dice ρ} (h : dice.DrawsByWeight) (f : Filler)
    {weight : UInt32} (hw : weight ≠ 0) {wanted least most : Nat}
    (hroom : wanted + 1000 < bufferLimit) (hbounds : most ≤ least) (s : ρ) :
    ∃ n s', IsLeast {n | wanted ≤ preamble.size + n * (most * (item f).size + 2)} n ∧
      generate dice (.only f weight) least most wanted s = some (document wanted most f, s') ∧
      document wanted most f = preamble ++
        (List.replicate n ((List.replicate most (item f)).flatten ++ ['\n', '\n'])).flatten ++
          ending ∧
      ∃ ts, (Document.ofSource (document wanted most f) Uncached.mk).readToEnd.1 = .ok ts ∧
        ts.flatMap Token.literal = document wanted most f := by
  obtain ⟨s', hgenerated⟩ := gives_document h hw f hroom hbounds s
  obtain ⟨ts, hts⟩ := isReadable_document wanted most f
  refine ⟨paragraphCount wanted most f, s', isLeast_paragraphCount wanted most f, hgenerated, rfl,
    ts, ?_, flatMap_literal_of_lexRegion hts⟩
  rw [Document.fst_readToEnd, ← hts]
  exact congrArg tokenize (protect_document wanted most f)

/-- One paragraph of two comment lines is a byte short of the size, so there are two. -/
theorem generate_only_comment :
    ∃ s' ts, generate Dice.lowest (.only .comment 5) 3 2 148 () =
        some (document 148 2 .comment, s') ∧
      document 148 2 .comment = preamble ++
        (List.replicate 2 ((List.replicate 2 (item .comment)).flatten ++ ['\n', '\n'])).flatten ++
          ending ∧
      (Document.ofSource (document 148 2 .comment) Uncached.mk).readToEnd.1 = .ok ts ∧
      ts.flatMap Token.literal = document 148 2 .comment := by
  obtain ⟨n, s', hn, hgenerated, htext, ts, hread, hliterals⟩ :=
    generate_only Dice.drawsByWeight_lowest .comment (by decide : (5 : UInt32) ≠ 0)
      (by decide : 148 + 1000 < bufferLimit) (by decide : 2 ≤ 3) ()
  have hsize : preamble.size = 93 := by decide
  have hitem : (item .comment).size = 26 := by decide
  rw [hsize, hitem] at hn
  have htwo : IsLeast {k | 148 ≤ 93 + k * (2 * 26 + 2)} 2 := by
    refine ⟨by decide, fun k hk => ?_⟩
    have henough : 148 ≤ 93 + k * (2 * 26 + 2) := hk
    omega
  obtain rfl := hn.unique htwo
  exact ⟨s', ts, hgenerated, htext, hread, hliterals⟩

end Sample

end LatexTokens
