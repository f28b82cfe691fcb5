import LatexTokens.Proofs.Document.Transparency
import LatexTokens.Proofs.Text.Protection

/-!
# Reading to the end cuts the text into tokens

`drain_induction` is induction along a reading without a cache: at the end, at a fault, and at a
token. `Drained.Tiles` collects what a reading from the start has to do with the document, and
`tiles_drain` proves it for every document.
-/

set_option autoImplicit false

namespace LatexTokens

theorem readToken?_eq_none_iff {t : Text} : readToken? t = .ok none ↔ t = [] := by
  constructor
  · intro h
    cases t with
    | nil => rfl
    | cons c t =>
      obtain ⟨token, _, hn⟩ := Lexing.eq_ok_of_map_eq_ok h
      cases hn
  · intro h₀
    subst h₀
    rfl

theorem tokenAt?_eq_none_iff {u v : Text} : tokenAt? (u ++ v) u.size = .ok none ↔ v = [] := by
  rw [tokenAt?_size_append, ← readToken?_eq_none_iff]
  cases readToken? v with
  | error f => simp
  | ok r => simp

namespace Document

theorem next_uncached (d : Document Uncached) :
    d.next = match tokenAt? d.buffer d.cursor with
      | .ok (some t) => (.ok (some t), { d with cursor := d.cursor + t.size })
      | r => (r, d) := by
  rw [next, peek, peekAhead_uncached, Nat.add_zero]
  rcases tokenAt? d.buffer d.cursor with f | r
  · rfl
  · cases r <;> rfl

/-- A document without a cache, cut at its cursor. -/
def cutAt (u v : Text) : Document Uncached := ⟨u ++ v, u.size, ⟨⟩⟩

theorem next_cutAt_nil (u : Text) : (cutAt u []).next = (.ok none, cutAt u []) := by
  rw [next_uncached, cutAt, tokenAt?_eq_none_iff.mpr rfl]

theorem next_cutAt_of_error {u v : Text} {f : Fault}
    (h : tokenAt? (u ++ v) u.size = .error f) : (cutAt u v).next = (.error f, cutAt u v) := by
  rw [next_uncached, cutAt, h]

theorem next_cutAt_of_token {u v : Text} {t : Token}
    (h : tokenAt? (u ++ (t.literal ++ v)) u.size = .ok (some t)) :
    (cutAt u (t.literal ++ v)).next = (.ok (some t), cutAt (u ++ t.literal) v) := by
  rw [next_uncached, cutAt, h]
  simp only [cutAt, Token.size, Text.size_append, List.append_assoc]

/-- Induction along a reading without a cache. -/
theorem drain_induction {P : Text → Text → Drained Uncached → Prop}
    (stop : ∀ u, P u [] ⟨[], none, cutAt u []⟩)
    (fault : ∀ u v f, tokenAt? (u ++ v) u.size = .error f → P u v ⟨[], some f, cutAt u v⟩)
    (token : ∀ u v t r, LexesAt (u ++ (t.literal ++ v)) u.size t → P (u ++ t.literal) v r →
      P u (t.literal ++ v) { r with tokens := t :: r.tokens })
    (u v : Text) : P u v ((cutAt u v).drainTo (u ++ v).size) := by
  rcases hread : tokenAt? (u ++ v) u.size with f | t
  · rw [drainTo, next_cutAt_of_error hread]
    exact fault u v f hread
  cases t with
  | none =>
    cases tokenAt?_eq_none_iff.mp hread
    rw [drainTo, next_cutAt_nil]
    exact stop u
  | some t =>
    have hlexes : LexesAt (u ++ v) u.size t := ⟨Text.isBoundary_size_append u v, hread⟩
    obtain ⟨rest, hv, _⟩ := readToken?_eq_some_iff.mp (tokenAt?_eq_some_iff.mp hread)
    have hpos : 0 < t.literal.size := hlexes.size_pos
    have hlt : rest.size < v.size := by
      rw [hv, Text.size_append]
      omega
    have ih := drain_induction stop fault token (u ++ t.literal) rest
    subst hv
    have hcloser : (u ++ (t.literal ++ rest)).size - (cutAt (u ++ t.literal) rest).cursor <
        (u ++ (t.literal ++ rest)).size - (cutAt u (t.literal ++ rest)).cursor := by
      simp only [cutAt, Text.size_append]
      omega
    rw [List.append_assoc] at ih
    rw [drainTo, next_cutAt_of_token hread]
    simp only [hcloser, if_true]
    exact token u rest t _ hlexes ih
termination_by v.size

end Document

namespace Drained

def literals (r : Drained Uncached) : Text := r.tokens.flatMap Token.literal

/-- What a stream gives up to its end: the tokens, then the fault or nothing. -/
def items (r : Drained Uncached) : List (Option (Except Fault Token)) :=
  r.tokens.map (fun t => some (.ok t)) ++ [r.fault.map .error]

/-- Where a reading of a text `v` behind a text `u` leaves off. -/
structure LeavesOff (u v : Text) (r : Drained Uncached) (rest : Text) : Prop where
  text : v = r.literals ++ rest
  document : r.document = Document.cutAt (u ++ r.literals) rest
  ended : r.fault = none ↔ rest = []
  failed : ∀ f ∈ r.fault, tokenAt? (u ++ v) (u ++ r.literals).size = .error f

theorem exists_leavesOff (u v : Text) :
    ∃ rest, LeavesOff u v ((Document.cutAt u v).drainTo (u ++ v).size) rest := by
  induction u, v using Document.drain_induction with
  | stop u => exact ⟨[], by simp [literals], by simp [literals], by simp, by simp⟩
  | fault u v f h =>
    have hv : v ≠ [] := by
      intro h₀
      subst h₀
      cases (tokenAt?_eq_none_iff.mpr rfl).symm.trans h
    exact ⟨v, by simp [literals], by simp [literals], by simp [hv], by simpa [literals] using h⟩
  | token u v t r _ ih =>
    obtain ⟨rest, htext, hdocument, hended, hfailed⟩ := ih
    have hl : literals { r with tokens := t :: r.tokens } = t.literal ++ r.literals := rfl
    refine ⟨rest, ?_, ?_, hended, ?_⟩
    · rw [hl, List.append_assoc, ← htext]
    · rw [hl, ← List.append_assoc]
      exact hdocument
    · rw [hl, ← List.append_assoc, ← List.append_assoc]
      exact hfailed

theorem exists_lexesAt_of_mem {u v : Text} :
    ∀ t ∈ ((Document.cutAt u v).drainTo (u ++ v).size).tokens, ∃ p, LexesAt (u ++ v) p t := by
  induction u, v using Document.drain_induction with
  | stop => simp
  | fault => simp
  | token u v t r hlexes ih =>
    intro s hs
    rcases List.mem_cons.mp hs with rfl | hs
    · exact ⟨u.size, hlexes⟩
    · rw [← List.append_assoc]
      exact ih s hs

theorem length_le_size_literals {r : Drained Uncached} (h : ∀ t ∈ r.tokens, 1 ≤ t.size) :
    r.tokens.length ≤ r.literals.size := by
  rw [literals]
  generalize r.tokens = ts at h
  induction ts with
  | nil => exact Nat.zero_le _
  | cons t ts ih =>
    have ht : 1 ≤ t.literal.size := h t List.mem_cons_self
    have hts := ih fun s hs => h s (List.mem_cons_of_mem t hs)
    simp only [List.length_cons, List.flatMap_cons, Text.size_append]
    omega

end Drained

namespace TokenStream

theorem take_of_next_eq_none {s : TokenStream Uncached} (h : s.next = (none, s)) (n : Nat) :
    s.take n = (List.replicate n none, s) := by
  induction n with
  | zero => rfl
  | succ n ih =>
    rw [take, h]
    simp only [ih]
    rfl

/-- Whether a stream gives what a reading gave, and nothing ever after. -/
def Gives (s : TokenStream Uncached) (r : Drained Uncached) : Prop :=
  ∀ n, s.take (r.tokens.length + 1 + n) =
    (r.items ++ List.replicate n none, ⟨r.document, r.fault.isSome⟩)

theorem gives_cutAt (u v : Text) :
    Gives ⟨Document.cutAt u v, false⟩ ((Document.cutAt u v).drainTo (u ++ v).size) := by
  induction u, v using Document.drain_induction with
  | stop u =>
    intro n
    have hnext : next ⟨Document.cutAt u [], false⟩ = (none, ⟨Document.cutAt u [], false⟩) := by
      simp only [next, Document.next_cutAt_nil, Bool.false_eq_true, if_false]
    rw [take_of_next_eq_none hnext, List.length_nil, Nat.zero_add, Nat.add_comm 1 n]
    rfl
  | fault u v f h =>
    intro n
    have hnext : next ⟨Document.cutAt u v, false⟩ =
        (some (.error f), ⟨Document.cutAt u v, true⟩) := by
      simp only [next, Document.next_cutAt_of_error h, Bool.false_eq_true, if_false]
    rw [List.length_nil, Nat.zero_add, Nat.add_comm 1 n, take, hnext]
    simp only [take_of_next_eq_none (next_of_failed (s := ⟨Document.cutAt u v, true⟩) rfl)]
    rfl
  | token u v t r hlexes ih =>
    intro n
    have hnext : next ⟨Document.cutAt u (t.literal ++ v), false⟩ =
        (some (.ok t), ⟨Document.cutAt (u ++ t.literal) v, false⟩) := by
      simp only [next, Document.next_cutAt_of_token hlexes.lexed, Bool.false_eq_true, if_false]
    have hlength : (t :: r.tokens).length + 1 + n = r.tokens.length + 1 + n + 1 := by
      rw [List.length_cons]
      omega
    rw [hlength, take, hnext]
    simp only [ih n]
    rfl

end TokenStream

namespace Document

/-- What a reading from the start has to do with the document. -/
structure Tiles (d : Document Uncached) (r : Drained Uncached) : Prop where
  count : r.tokens.length ≤ d.size
  progress : ∀ t ∈ r.tokens, 1 ≤ t.size ∧ t.size = t.literal.size
  buffer : r.document.buffer = d.buffer
  literals : r.literals = d.buffer.before r.document.cursor
  cursor : r.document.cursor = r.literals.size
  ended : r.fault = none ↔ r.document.cursor = d.size
  /-- The cursor stays at the token that has the fault. -/
  repeated : ∀ f ∈ r.fault, r.document.next = (.error f, r.document)
  stream : TokenStream.Gives ⟨d.seek 0, false⟩ r
  readToEnd : d.readToEnd = (r.result, r.document)
  written : r.fault = none → r.tokens.flatMap Token.asWritten = d.source

theorem seek_zero (d : Document Uncached) : d.seek 0 = cutAt [] d.buffer := by
  have h : d.locate 0 = 0 := Nat.le_zero.mp (Text.floor_le 0 d.buffer)
  rw [seek, h]
  rfl

theorem flatMap_asWritten (ts : List Token) :
    ts.flatMap Token.asWritten = Text.asWritten (ts.flatMap Token.literal) := by
  induction ts with
  | nil => rfl
  | cons t ts ih =>
    rw [List.flatMap_cons, List.flatMap_cons, Text.asWritten_append, ih]
    rfl

theorem tiles_drain (d : Document Uncached) : d.Tiles (d.seek 0).drain := by
  have hdrain : (d.seek 0).drain = (cutAt [] d.buffer).drainTo (Text.size ([] ++ d.buffer)) := by
    rw [drain, seek_zero]
    rfl
  obtain ⟨rest, htext, hdocument, hended, hfailed⟩ := Drained.exists_leavesOff [] d.buffer
  have hlexes := Drained.exists_lexesAt_of_mem (u := []) (v := d.buffer)
  have hstream := TokenStream.gives_cutAt [] d.buffer
  rw [← hdrain] at htext hdocument hended hfailed hlexes
  rw [← hdrain, ← seek_zero] at hstream
  generalize hr : (d.seek 0).drain = r at *
  have hpos : ∀ t ∈ r.tokens, 1 ≤ t.size := by
    intro t ht
    obtain ⟨p, hp⟩ := hlexes t ht
    exact hp.size_pos
  have hcursor : r.document.cursor = r.literals.size := by
    rw [hdocument, cutAt, List.nil_append]
  have hsize : d.size = r.literals.size + rest.size := by
    rw [size, htext, Text.size_append]
  refine {
    count := ?_
    progress := fun t ht => ⟨hpos t ht, rfl⟩
    buffer := ?_
    literals := ?_
    cursor := hcursor
    ended := ?_
    repeated := ?_
    stream := hstream
    readToEnd := ?_
    written := ?_ }
  · have := Drained.length_le_size_literals hpos
    omega
  · rw [hdocument, htext, cutAt, List.nil_append]
  · rw [hcursor, htext, Text.before_size_append]
  · rw [hended, hcursor, hsize, ← Text.size_eq_zero]
    omega
  · intro f hf
    have hbuffer : d.buffer = r.literals ++ rest := htext
    have herror := hfailed f hf
    rw [List.nil_append, hbuffer] at herror
    rw [hdocument]
    exact next_cutAt_of_error herror
  · rw [Document.readToEnd, hr]
  · intro hf
    rw [flatMap_asWritten, source, htext, hended.mp hf, List.append_nil]
    rfl

/-- Reading a document to its end tiles it, and gives the source back if nothing was rewritten
when it was protected. -/
theorem tiles_drain_ofSource (source : Text) :
    let d := ofSource source Uncached.mk
    let r := (d.seek 0).drain
    d.Tiles r ∧ (r.fault = none → source.IsDirect → r.tokens.flatMap Token.asWritten = source) := by
  intro d r
  have htiles : d.Tiles r := d.tiles_drain
  refine ⟨htiles, ?_⟩
  intro hf hsource
  rw [htiles.written hf]
  exact Text.asWritten_protect hsource

/-- A special sequence, a group and a comment at the end. -/
theorem tiles_drain_ofSource_group :
    let source : Text := ['\\', '%', '{', 'b', '}', '%', 'c']
    let r := ((ofSource source Uncached.mk).seek 0).drain
    r.fault = none ∧ source.IsDirect ∧ r.tokens.length = 3 ∧
      r.tokens.flatMap Token.asWritten = source := by
  intro source r
  have hread : r.fault = none ∧ r.tokens.length = 3 := by
    simp only [r, source]
    constructor <;> cbv
  have hsource : source.IsDirect := by
    constructor
    · simp only [source, List.forall_mem_cons, List.not_mem_nil, false_implies, implies_true]
      decide
    · decide
    · decide
  exact ⟨hread.1, hsource, hread.2, (tiles_drain_ofSource source).2 hread.1 hsource⟩

end Document

end LatexTokens
