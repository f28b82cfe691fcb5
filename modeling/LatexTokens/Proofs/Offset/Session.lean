import LatexTokens.Proofs.Document.Transparency
import LatexTokens.Proofs.Offset.Reading

/-!
# Sessions by offsets

Every step of a session, done by offsets, gives what `Document.perform` gives as long as no text
is too large for a buffer (`Checked.perform_eq`). A session that starts with an empty cache keeps
its document sound, so it leaves no range anywhere (`Document.runsInRange_of_fitsBuffers`).
-/

set_option autoImplicit false

namespace LatexTokens

namespace Checked

/-- Reads the token at an offset of a document. -/
def readAt : Text → Nat → Checked (Option Token) := lexToken (region maxNesting) false

section
variable {κ : Type} [TokenCache κ] [CheckedTokenCache κ]

def perform (d : Document κ) : Step → Option (Answer × Document κ)
  | .seek position => (seek position d).map (.none, ·)
  | .insert position text => (insert position text d).map (.none, ·)
  | .remove one other => (remove one other d).map (.none, ·)
  | .next => (next readAt d).map fun r => (.token r.1, r.2)
  | .peekAhead bytes => (peekAhead readAt bytes d).map fun r => (.token r.1, r.2)
  | .stream times => (streamTake readAt times ⟨d, false⟩).map fun r => (.items r.1, r.2.document)
  | .readToEnd => (readToEnd readAt d).map fun r => (.tokens r.1, r.2)

def run (d : Document κ) : List Step → Option (List Observation × Document κ)
  | [] => some ([], d)
  | step :: steps => do
    let (answer, d) ← perform d step
    let (observations, last) ← run d steps
    some (⟨answer, d.cursor, d.buffer⟩ :: observations, last)

/-- Opens a document and takes steps on it. -/
def session (source : Text) (cache : κ) (steps : List Step) :
    Option (List Observation × Document κ) := do
  run (← openDocument source cache) steps

end

/-! ## Reading a sound document -/

theorem readAt_eq {s : Text} {p : Nat} (hs : s.size < wordSize) (hp : s.IsBoundary p) :
    readAt s p = ExceptT.mk (some (tokenAt? s p)) := by
  obtain ⟨u, v, rfl, rfl⟩ := Text.isBoundary_iff.mp hp
  rw [readAt, lexToken_append (realizes_region maxNesting) hs, tokenAt?_size_append]
  cases v with
  | nil => rfl
  | cons c t =>
    simp only [readToken?]
    rw [Lexing.read_false]
    cases Lexing.read (lexRegion maxNesting) false 0 c t <;> rfl

section
variable {κ : Type} [TokenCache κ] {d : Document κ}

theorem peekAhead_eq (hs : d.buffer.size < wordSize) (bytes : Nat) :
    peekAhead readAt bytes d = some (d.peekAhead bytes) := by
  have hp : floor d.buffer (min (min (d.cursor + bytes) (wordSize - 1)) d.buffer.size) =
      some (d.buffer.floor (d.cursor + bytes)) := by
    rw [show min (min (d.cursor + bytes) (wordSize - 1)) d.buffer.size =
      min (d.cursor + bytes) d.buffer.size by omega, floor_eq, Text.floor_min]
  have hread := readAt_eq hs (Text.isBoundary_floor d.buffer (d.cursor + bytes))
  rw [peekAhead, hp, Document.peekAhead]
  simp only [Option.bind_eq_bind, Option.bind_some, hread]
  cases TokenCache.get? d.cache (d.buffer.floor (d.cursor + bytes)) with
  | some t => rfl
  | none =>
    rcases tokenAt? d.buffer (d.buffer.floor (d.cursor + bytes)) with f | _ | t <;> rfl

end

end Checked

namespace Document
variable {κ : Type} [TokenCache κ] {d d' : Document κ}

theorem buffer_next (d : Document κ) : d.next.2.buffer = d.buffer := by
  have hb := d.buffer_peekAhead 0
  rw [next, peek]
  split
  · next heq =>
    rw [heq] at hb
    exact hb
  · exact hb

/-- A token that is read at the cursor moves it on, and not out of the buffer. -/
theorem Sound.cursor_of_next {t : Token} (h : d.Sound) (hn : d.next = (.ok (some t), d')) :
    d'.cursor = d.cursor + t.size ∧ 0 < t.size ∧ d.cursor + t.size ≤ d.buffer.size := by
  have hlexes : LexesAt d.buffer d.cursor t := by
    refine ⟨h.boundary, ?_⟩
    rw [h.tokenAt?_cursor, ← h.fst_next, hn]
  refine ⟨?_, hlexes.size_pos, hlexes.add_size_le⟩
  have hcursor := d.cursor_peekAhead 0
  rw [Document.next, peek] at hn
  split at hn
  · next heq =>
    rw [heq] at hcursor
    cases hn
    exact congrArg (· + t.size) hcursor
  · next hne => exact absurd hn (hne t d')

end Document

namespace Checked
variable {κ : Type} [TokenCache κ] {d : Document κ}

theorem next_eq (h : d.Sound) (hs : d.buffer.size < wordSize) :
    next readAt d = some d.next := by
  rw [next, peekAhead_eq hs, Document.next, Document.peek]
  rcases hpeek : d.peekAhead 0 with ⟨f | _ | t, d'⟩
  · rfl
  · rfl
  · have hnext : d.next = (.ok (some t), { d' with cursor := d'.cursor + t.size }) := by
      rw [Document.next, Document.peek, hpeek]
    obtain ⟨hcursor, _, hle⟩ := h.cursor_of_next hnext
    have hsum : sum d'.cursor t.size = some (d'.cursor + t.size) :=
      sum_eq (by simp only at hcursor; omega)
    simp only [Option.bind_eq_bind, Option.bind_some, hsum]

variable [LawfulTokenCache κ]

theorem drainTo_eq {stop : Nat} (h : d.Sound) (hstop : d.buffer.size = stop)
    (hs : stop < wordSize) : drainTo readAt stop d = some (d.drainTo stop) := by
  fun_induction d.drainTo stop with
  | case1 d f d' heq => exact drainTo_of_error (by rw [next_eq h (hstop ▸ hs), heq])
  | case2 d d' heq => exact drainTo_of_none (by rw [next_eq h (hstop ▸ hs), heq])
  | case3 d t d' heq hlt r ih =>
    have hnext : next readAt d = some (.ok (some t), d') := by rw [next_eq h (hstop ▸ hs), heq]
    have hsound := h.next
    have hbuffer := d.buffer_next
    rw [heq] at hsound hbuffer
    rw [drainTo_of_token hnext hlt, ih hsound (hbuffer ▸ hstop)]
    rfl
  | case4 d t d' heq hge =>
    -- A token is not empty, so that reading it brings the cursor nearer to the end.
    obtain ⟨hcursor, hpos, hle⟩ := h.cursor_of_next heq
    omega

theorem readToEnd_eq (h : d.Sound) (hs : d.buffer.size < wordSize) :
    readToEnd readAt d = some d.readToEnd := by
  rw [readToEnd, seek_eq]
  simp only [Option.bind_eq_bind, Option.bind_some]
  rw [drainTo_eq (h.seek 0) rfl hs]
  rfl

omit [LawfulTokenCache κ] in
theorem streamNext_eq {s : TokenStream κ} (h : s.document.Sound)
    (hs : s.document.buffer.size < wordSize) : streamNext readAt s = some s.next := by
  rw [streamNext, TokenStream.next]
  split
  · rfl
  · rw [next_eq h hs]
    rcases s.document.next with ⟨f | _ | t, d⟩ <;> rfl

omit [LawfulTokenCache κ] in
theorem buffer_streamNext (s : TokenStream κ) : s.next.2.document.buffer = s.document.buffer := by
  have hbuffer := s.document.buffer_next
  rw [TokenStream.next]
  split
  · rfl
  · split <;> next heq => rw [heq] at hbuffer; exact hbuffer

theorem streamTake_eq (n : Nat) {s : TokenStream κ} (h : s.document.Sound)
    (hs : s.document.buffer.size < wordSize) : streamTake readAt n s = some (s.take n) := by
  induction n generalizing s with
  | zero => rfl
  | succ n ih =>
    have hsound : s.next.2.document.Sound := h.stream s.failed 1
    have hnext := ih hsound (by rwa [buffer_streamNext])
    rw [streamTake, streamNext_eq h hs]
    simp only [Option.bind_eq_bind, Option.bind_some, hnext]
    rfl

/-! ## Sessions -/

variable [CheckedTokenCache κ] [LawfulCheckedTokenCache κ]

/-- One step leaves no range if the text before it and the text after it fit a buffer. -/
theorem perform_eq (h : d.Sound) (hs : d.buffer.size < bufferLimit) (step : Step)
    (hs' : (d.perform step).2.buffer.size < bufferLimit) :
    perform d step = some (d.perform step) := by
  have hword := lt_wordSize_of_lt_bufferLimit hs
  cases step with
  | seek position =>
    rw [perform, seek_eq]
    rfl
  | insert position text =>
    rw [perform, insert_eq h hs']
    rfl
  | remove one other =>
    rw [perform, remove_eq h hs]
    rfl
  | next =>
    rw [perform, next_eq h hword]
    rfl
  | peekAhead bytes =>
    rw [perform, peekAhead_eq hword]
    rfl
  | stream times =>
    rw [perform, streamTake_eq times h hword]
    rfl
  | readToEnd =>
    rw [perform, readToEnd_eq h hword]
    rfl

theorem run_eq (h : d.Sound) (hs : d.buffer.size < bufferLimit) {steps : List Step}
    (hall : ∀ o ∈ (d.run steps).1, o.buffer.size < bufferLimit) :
    run d steps = some (d.run steps) := by
  induction steps generalizing d with
  | nil => rfl
  | cons step steps ih =>
    have hstep : (d.perform step).2.buffer.size < bufferLimit := hall _ List.mem_cons_self
    have hrest := ih (h.perform step) hstep fun o ho => hall o (List.mem_cons_of_mem _ ho)
    rw [run, perform_eq h hs step hstep]
    simp only [Option.bind_eq_bind, Option.bind_some, hrest]
    rfl

end Checked

namespace Document
variable {κ : Type} [TokenCache κ]

/-- Whether a document and the documents after each step of a session fit a buffer. -/
def FitsBuffers (d : Document κ) (steps : List Step) : Prop :=
  d.buffer.size < bufferLimit ∧ ∀ o ∈ (d.run steps).1, o.buffer.size < bufferLimit

/-- What a session does that leaves no range. -/
structure RunsInRange [CheckedTokenCache κ] (source : Text) (cache : κ) (steps : List Step) :
    Prop where
  checked : Checked.session source cache steps = some ((ofSource source cache).run steps)
  inRange : ∀ done, done <+: steps → ((ofSource source cache).run done).2.InRange

theorem runsInRange_of_faithful [LawfulTokenCache κ] [CheckedTokenCache κ]
    [LawfulCheckedTokenCache κ] {source : Text} {cache : κ} {steps : List Step}
    (h : (ofSource source cache).Faithful) (hs : (ofSource source cache).FitsBuffers steps) :
    RunsInRange source cache steps where
  checked := by
    rw [Checked.session, Checked.openDocument_eq]
    exact Checked.run_eq (sound_ofSource h) hs.1 hs.2
  inRange done _ := ((sound_ofSource h).run done).inRange

/-- A session without a cache or with an empty table leaves no range as long as its texts fit a
buffer: every cut, sum and difference succeeds, and the cursor and the remembered tokens stay in
the buffer. -/
theorem runsInRange_of_fitsBuffers (source : Text) (steps : List Step)
    (h : (ofSource source Uncached.mk).FitsBuffers steps) :
    RunsInRange source Uncached.mk steps ∧ RunsInRange source TokenTable.empty steps := by
  have htable : (ofSource source TokenTable.empty).Faithful := fun _ _ h => nomatch h
  refine ⟨runsInRange_of_faithful (faithful_uncached _) h, runsInRange_of_faithful htable ?_⟩
  obtain ⟨hrun, _⟩ := htable.run_forget steps
  refine ⟨h.1, ?_⟩
  rw [← congrArg Prod.fst hrun]
  exact h.2

/-- A session at the ends of the range of positions, with characters of several bytes. -/
theorem runsInRange_of_fitsBuffers_formula :
    let source : Text := ['é', '$', '\\', '%', '$']
    let steps : List Step :=
      [.seek (-0x8000000000000000), .next, .insert 0x7fffffffffffffff ['{', '\\', 'x', '}'],
        .peekAhead 0xffffffffffffffff, .stream 2, .remove 1 (-2), .readToEnd]
    (ofSource source Uncached.mk).FitsBuffers steps ∧
      RunsInRange source Uncached.mk steps ∧ RunsInRange source TokenTable.empty steps := by
  intro source steps
  have h : (ofSource source Uncached.mk).FitsBuffers steps := by
    refine ⟨of_decide_eq_true (by cbv), fun o ho => ?_⟩
    have hall : ((ofSource source Uncached.mk).run steps).1.all
        (fun o => decide (o.buffer.size < bufferLimit)) = true := by cbv
    exact of_decide_eq_true (List.all_eq_true.mp hall o ho)
  exact ⟨h, runsInRange_of_fitsBuffers source steps h⟩

end Document

end LatexTokens
