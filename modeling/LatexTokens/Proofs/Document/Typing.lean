import Mathlib
import LatexTokens.Document.Typing
import LatexTokens.Proofs.Document.Front
import LatexTokens.Proofs.Document.Joining
import LatexTokens.Proofs.Document.Undoing
import LatexTokens.Proofs.Offset.Cut

/-!
# Typing a word and taking it back

A word that is typed at a boundary becomes a part of the run of text behind it or a token by itself,
so from there on the text reads as before, with its faults moved. If there is none, reading ends at
the end of the text and the word is taken back. If there is one, typing stops with the word left in
the text. A run over many offsets therefore restores the text if it can be read from each of them,
and stops at the first from which it cannot (`Document.typeWords_restores_or_stops`).

The offsets are turned into signed positions, so the text with the word must be shorter than
`bufferLimit`, as every text in memory is.
-/

set_option autoImplicit false

namespace LatexTokens

theorem signedPosition_eq {n : Nat} (h : n < bufferLimit) : signedPosition n = n := by
  have hword : wordSize = 2 * bufferLimit := by decide
  unfold signedPosition
  rw [hword]
  exact Int.bmod_eq_of_le_mul_two (by omega) (by omega)

theorem protect_typedWord : typedWord.protect = typedWord := by cbv

theorem typedWord_ne_nil : typedWord ≠ [] := List.cons_ne_nil _ _

theorem isPlain_of_mem_typedWord : ∀ c ∈ typedWord, Lexing.isPlain false c = true := by
  simp only [typedWord, List.forall_mem_cons, List.not_mem_nil, false_implies, implies_true]
  and_intros <;> decide

namespace Document

section
variable {d : Document Uncached} {u v : Text}

/-- The document with the word in it, from the word on. -/
theorem seek_insert_typedWord (hb : d.buffer = u ++ v) :
    (d.insert u.size typedWord).seek u.size = cutAt u (typedWord ++ v) := by
  have hbuffer := buffer_insert_size_append hb typedWord
  rw [protect_typedWord] at hbuffer
  rw [seek, locate_size_append hbuffer, cutAt, hbuffer]

theorem remove_typedWord :
    (cutAt (u ++ (typedWord ++ v)) []).remove u.size (u ++ typedWord).size =
      cutAt (u ++ v) [] := by
  have hb : (cutAt (u ++ (typedWord ++ v)) []).buffer = u ++ typedWord ++ v := by
    rw [cutAt, List.append_nil, List.append_assoc]
  obtain ⟨hbuffer, hcursor⟩ := remove_of_append hb typedWord_ne_nil
  have hend : (cutAt (u ++ (typedWord ++ v)) []).cursor - typedWord.size = (u ++ v).size := by
    simp only [cutAt, Text.size_append]
    omega
  rw [if_pos (by simp only [cutAt, Text.size_append]; omega), hend] at hcursor
  have hcut : cutAt (u ++ v) [] = ⟨u ++ v, (u ++ v).size, ⟨⟩⟩ := by rw [cutAt, List.append_nil]
  exact (congrArg₂ (Document.mk · · Uncached.mk) hbuffer hcursor).trans hcut.symm

variable (hfit : (u ++ v).size + typedWord.size < bufferLimit)
include hfit

theorem signedPosition_size : signedPosition u.size = u.size := by
  refine signedPosition_eq ?_
  rw [Text.size_append] at hfit
  omega

theorem signedPosition_size_typedWord :
    signedPosition (u.size + typedWord.size) = (u ++ typedWord).size := by
  rw [Text.size_append]
  refine signedPosition_eq ?_
  rw [Text.size_append] at hfit
  omega

theorem typeWord_uncached_of_ok (hb : d.buffer = u ++ v) {ts : List Token}
    (hv : tokenize v = .ok ts) :
    d.typeWord u.size = (.ok (Token.behindWord typedWord ts).length, cutAt (u ++ v) []) := by
  have hread : tokenize (typedWord ++ v) = .ok (Token.behindWord typedWord ts) := by
    rw [tokenize_word_append typedWord_ne_nil isPlain_of_mem_typedWord, hv]
  obtain ⟨hresult, hdocument⟩ := drain_cutAt_of_ok (u := u) hread
  simp only [typeWord, signedPosition_size hfit, signedPosition_size_typedWord hfit,
    seek_insert_typedWord hb, hresult, hdocument, remove_typedWord]

theorem typeWord_uncached_of_error (hb : d.buffer = u ++ v) {f : Fault}
    (hv : tokenize v = .error f) :
    let r := d.typeWord u.size
    r.1 = .error (f.shift (u ++ typedWord).size) ∧ r.2.buffer = u ++ (typedWord ++ v) ∧
      r.2.next = (.error (f.shift (u ++ typedWord).size), r.2) := by
  have hread : tokenize (typedWord ++ v) = .error (f.shift typedWord.size) := by
    rw [tokenize_word_append typedWord_ne_nil isPlain_of_mem_typedWord, hv]
  have hdrain := drain_cutAt_of_error (u := u) hread
  simp only [Fault.shift_shift, Nat.add_comm typedWord.size, ← Text.size_append] at hdrain
  simp only [typeWord, signedPosition_size hfit, seek_insert_typedWord hb, hdrain.1]
  exact ⟨trivial, hdrain.2⟩

end

variable {κ : Type} [TokenCache κ] [LawfulTokenCache κ]

theorem Faithful.typeWord_forget {d : Document κ} (h : d.Faithful) (offset : Nat) :
    d.forget.typeWord offset = ((d.typeWord offset).1, (d.typeWord offset).2.forget) ∧
      (d.typeWord offset).2.Faithful := by
  have hinserted :
      (d.forget.insert (signedPosition offset) typedWord).seek (signedPosition offset) =
        ((d.insert (signedPosition offset) typedWord).seek (signedPosition offset)).forget := by
    rw [insert_forget]
    rfl
  have hf := (h.insert (signedPosition offset) typedWord).seek (signedPosition offset)
  simp only [typeWord, hinserted]
  generalize (d.insert (signedPosition offset) typedWord).seek (signedPosition offset) = e at hf ⊢
  obtain ⟨hdrain, hr⟩ := hf.drainTo_forget e.size
  have hforget : e.forget.drain = e.drain.forget := hdrain
  change e.drain.document.Faithful at hr
  have hresult : e.drain.forget.result = e.drain.result := rfl
  rw [hforget, hresult]
  cases e.drain.result with
  | error f => exact ⟨rfl, hr⟩
  | ok ts => exact ⟨congrArg (Prod.mk _) (remove_forget _ _ _), hr.remove _ _⟩

section
variable {d : Document κ} (h : d.Faithful) (hfit : d.size + typedWord.size < bufferLimit)
  {p : Nat} (hp : d.buffer.IsBoundary p)
include h hfit hp

/-- The word is taken back from a text that can be read from the offset on. -/
theorem Faithful.typeWord_of_ok {ts : List Token} (hts : tokenize (d.buffer.after p) = .ok ts) :
    let r := d.typeWord p
    r.1 = .ok (Token.behindWord typedWord ts).length ∧ r.2.buffer = d.buffer ∧
      r.2.cursor = d.size ∧ r.2.Faithful := by
  intro r
  have hb := Text.before_append_after p d.buffer
  have hforget := typeWord_uncached_of_ok (d := d.forget) (by rwa [hb]) hb.symm hts
  rw [hp.size_before, hb, (h.typeWord_forget p).1] at hforget
  obtain ⟨hresult, hdocument⟩ := Prod.mk.inj hforget
  refine ⟨hresult, ?_, congrArg Document.cursor hdocument, (h.typeWord_forget p).2⟩
  exact (congrArg Document.buffer hdocument).trans (List.append_nil _)

/-- The word stays in a text that cannot be read from the offset on. -/
theorem Faithful.typeWord_of_error {f : Fault} (hf : tokenize (d.buffer.after p) = .error f) :
    let r := d.typeWord p
    r.1 = .error (f.shift (p + typedWord.size)) ∧
      r.2.buffer = d.buffer.before p ++ typedWord ++ d.buffer.after p ∧
      r.2.next.1 = .error (f.shift (p + typedWord.size)) := by
  intro r
  have hb := Text.before_append_after p d.buffer
  obtain ⟨hforget, hfaithful⟩ := h.typeWord_forget p
  have hstays := typeWord_uncached_of_error (d := d.forget) (by rwa [hb]) hb.symm hf
  simp only [hp.size_before, hforget, Text.size_append, hfaithful.next_forget] at hstays
  obtain ⟨hresult, hbuffer, hnext⟩ := hstays
  refine ⟨hresult, ?_, (Prod.mk.inj hnext).1⟩
  rw [List.append_assoc]
  exact hbuffer

end

/-! ## One offset after the other -/

/-- Whether an offset is a boundary of a text, from which it is read to some tokens. -/
structure ReadsFrom (s : Text) (p : Nat) (ts : List Token) : Prop where
  boundary : s.IsBoundary p
  read : tokenize (s.after p) = .ok ts

omit [LawfulTokenCache κ] in
theorem typeWordsFrom_append {d e : Document κ} {count n : Nat} {early : List Nat}
    (h : d.typeWordsFrom count early = (.ok n, e)) (late : List Nat) :
    d.typeWordsFrom count (early ++ late) = e.typeWordsFrom n late := by
  induction early generalizing d count with
  | nil =>
    cases h
    rfl
  | cons p early ih =>
    rw [typeWordsFrom] at h
    rw [List.cons_append, typeWordsFrom]
    rcases hword : d.typeWord p with ⟨f | m, d'⟩
    · rw [hword] at h
      cases h
    · rw [hword] at h
      exact ih h

/-- At offsets from which the text can be read every word is taken back. -/
theorem Faithful.typeWordsFrom_of_readsFrom {s : Text}
    (hfit : s.size + typedWord.size < bufferLimit) {offsets : List Nat} {tss : List (List Token)}
    (hall : List.Forall₂ (ReadsFrom s) offsets tss) {d : Document κ} (h : d.Faithful)
    (hb : d.buffer = s) (count : Nat) :
    ∃ e, d.typeWordsFrom count offsets =
        (.ok (count + (tss.map fun ts => (Token.behindWord typedWord ts).length).sum), e) ∧
      e.buffer = s ∧ e.cursor = (if offsets = [] then d.cursor else s.size) ∧ e.Faithful := by
  induction hall generalizing d count with
  | nil => exact ⟨d, rfl, hb, rfl, h⟩
  | @cons p ts offsets tss hread _ ih =>
    subst hb
    obtain ⟨hresult, hbuffer, hcursor, hfaithful⟩ :=
      h.typeWord_of_ok hfit hread.boundary hread.read
    rcases hword : d.typeWord p with ⟨r, d'⟩
    rw [hword] at hresult hbuffer hcursor hfaithful
    obtain ⟨e, hrest, hbuffer', hcursor', hfaithful'⟩ :=
      ih hfaithful hbuffer (count + (Token.behindWord typedWord ts).length)
    refine ⟨e, ?_, hbuffer', ?_, hfaithful'⟩
    · simp only at hresult
      rw [typeWordsFrom, hword, hresult]
      simp only [hrest, List.map_cons, List.sum_cons, Nat.add_assoc]
    · rw [hcursor', hcursor, if_neg (List.cons_ne_nil p offsets)]
      exact ite_self _

/-- How typing ends with the word left in the text. -/
structure StopsAt (d : Document κ) (p : Nat) (r : Except Fault Nat × Document κ) : Prop where
  /-- The text has a fault from the offset on, which the word has moved. -/
  fault : ∃ f, tokenize (d.buffer.after p) = .error f ∧
    r.1 = .error (f.shift (p + typedWord.size)) ∧
      r.2.next.1 = .error (f.shift (p + typedWord.size))
  buffer : r.2.buffer = d.buffer.before p ++ typedWord ++ d.buffer.after p

omit [LawfulTokenCache κ] in
theorem StopsAt.size {d : Document κ} {p : Nat} {r : Except Fault Nat × Document κ}
    (h : d.StopsAt p r) : r.2.size = d.size + typedWord.size := by
  have hcut := congrArg Text.size (d.buffer.before_append_after p)
  rw [Text.size_append] at hcut
  rw [Document.size, h.buffer, Text.size_append, Text.size_append, Document.size]
  omega

/-- Either the text can be read from each of some offsets, or there is a first one from which it
cannot. -/
theorem forall₂_readsFrom_or_exists_first {s : Text} {offsets : List Nat}
    (h : ∀ p ∈ offsets, s.IsBoundary p) :
    (∃ tss, List.Forall₂ (ReadsFrom s) offsets tss) ∨
      ∃ early p late tss f, offsets = early ++ p :: late ∧
        List.Forall₂ (ReadsFrom s) early tss ∧ tokenize (s.after p) = .error f := by
  induction offsets with
  | nil => exact .inl ⟨[], .nil⟩
  | cons p offsets ih =>
    obtain ⟨hp, hoffsets⟩ := List.forall_mem_cons.mp h
    cases hread : tokenize (s.after p) with
    | error f => exact .inr ⟨[], p, offsets, [], f, rfl, .nil, hread⟩
    | ok ts =>
      rcases ih hoffsets with ⟨tss, hall⟩ | ⟨early, q, late, tss, f, rfl, hall, hf⟩
      · exact .inl ⟨ts :: tss, .cons ⟨hp, hread⟩ hall⟩
      · exact .inr ⟨p :: early, q, late, ts :: tss, f, rfl, .cons ⟨hp, hread⟩ hall, hf⟩

/-- Typing leaves the text as it was if it can be read from every offset. Otherwise it stops at the
first offset from which it cannot, and the word stays there. -/
theorem typeWords_restores_or_stops {d : Document κ} (h : d.Faithful)
    (hfit : d.size + typedWord.size < bufferLimit) {offsets : List Nat}
    (hoffsets : ∀ p ∈ offsets, d.buffer.IsBoundary p) :
    let r := d.typeWords offsets
    (∃ tss, List.Forall₂ (ReadsFrom d.buffer) offsets tss ∧
      r.1 = .ok (tss.map fun ts => (Token.behindWord typedWord ts).length).sum ∧
        r.2.buffer = d.buffer) ∨
      ∃ early p late tss, offsets = early ++ p :: late ∧
        List.Forall₂ (ReadsFrom d.buffer) early tss ∧ d.StopsAt p r ∧ r.2.buffer ≠ d.buffer := by
  intro r
  rcases forall₂_readsFrom_or_exists_first hoffsets with
    ⟨tss, hall⟩ | ⟨early, p, late, tss, f, rfl, hall, hf⟩
  · obtain ⟨e, hrun, hbuffer, -, -⟩ := h.typeWordsFrom_of_readsFrom hfit hall rfl 0
    have hr : r = _ := hrun
    rw [hr, Nat.zero_add]
    exact .inl ⟨tss, hall, rfl, hbuffer⟩
  · -- The early offsets leave the text as it was, so the word meets the fault of that text.
    obtain ⟨e, hrun, hbuffer, -, hfaithful⟩ := h.typeWordsFrom_of_readsFrom hfit hall rfl 0
    have hp : e.buffer.IsBoundary p := hbuffer ▸ hoffsets p (by simp)
    have hfit' : e.size + typedWord.size < bufferLimit := by rwa [Document.size, hbuffer]
    rw [← hbuffer] at hf
    obtain ⟨hresult, hstays, hnext⟩ := hfaithful.typeWord_of_error hfit' hp hf
    have hr : r = e.typeWord p := by
      have hrest : r = e.typeWordsFrom _ (p :: late) := typeWordsFrom_append hrun (p :: late)
      rw [hrest, typeWordsFrom]
      rcases hword : e.typeWord p with ⟨x, e'⟩
      rw [hword] at hresult
      cases hresult
      rfl
    rw [hbuffer] at hstays hf
    have hstops : d.StopsAt p r := hr ▸ ⟨⟨f, hf, hresult, hnext⟩, hstays⟩
    refine .inr ⟨early, p, late, tss, rfl, hall, hstops, ?_⟩
    -- The text is longer than before by the word.
    intro hsame
    have hsize := hstops.size
    have hword : 0 < typedWord.size := Text.size_pos_of_ne_nil typedWord_ne_nil
    rw [Document.size, hsame, Document.size] at hsize
    omega

/-- A group in front of a brace that closes nothing: typing succeeds at the end of the text, and
then stops in front of the group, although the fault is behind it. -/
theorem typeWords_restores_or_stops_brace :
    let group : Token := .block [.ofText ['b']] ['{', 'b', '}']
    let d : Document TokenTable := ⟨['{', 'b', '}', '}'], 3, TokenTable.empty.add 0 group⟩
    let r := d.typeWords [4, 0, 3]
    d.Faithful ∧ d.size + typedWord.size < bufferLimit ∧
      (∀ p ∈ [4, 0, 3], d.buffer.IsBoundary p) ∧
      r.1 = .error (.point 8 (.noMatchingOpener '}')) ∧
        ∃ p, d.StopsAt p r ∧ r.2.buffer ≠ d.buffer := by
  intro group d r
  have h : d.Faithful := by
    intro p t ht
    rcases TokenTable.get?_add_eq_some_iff.mp ht with ⟨rfl, rfl⟩ | ⟨_, ht⟩
    · exact ⟨by cbv, by cbv⟩
    · cases ht
  have hfit : d.size + typedWord.size < bufferLimit := by
    simp only [d]
    decide
  have hoffsets : ∀ p ∈ [4, 0, 3], d.buffer.IsBoundary p := by
    simp only [d]
    decide
  have hfault : r.1 = .error (.point 8 (.noMatchingOpener '}')) := by
    simp only [r, d, group]
    cbv
  refine ⟨h, hfit, hoffsets, hfault, ?_⟩
  rcases typeWords_restores_or_stops h hfit hoffsets with
    ⟨_, _, hok, _⟩ | ⟨_, p, _, _, _, _, hstops⟩
  · cases hfault.symm.trans hok
  · exact ⟨p, hstops⟩

/-- A text that cannot be read is not left as it was. -/
theorem not_forall_buffer_typeWords : ¬ ∀ (d : Document Uncached) (offsets : List Nat) (f : Fault),
    d.size + typedWord.size < bufferLimit → (∀ p ∈ offsets, d.buffer.IsBoundary p) →
      (d.typeWords offsets).1 = .error f → (d.typeWords offsets).2.buffer = d.buffer := by
  intro h
  have hsame := h ⟨['{', 'b', '}', '}'], 0, ⟨⟩⟩ [0] (.point 8 (.noMatchingOpener '}'))
    (by decide) (by decide) (by cbv)
  have hstays : ((⟨['{', 'b', '}', '}'], 0, ⟨⟩⟩ : Document Uncached).typeWords [0]).2.buffer =
      typedWord ++ ['{', 'b', '}', '}'] := by cbv
  cases hstays.symm.trans hsame

end Document

end LatexTokens
