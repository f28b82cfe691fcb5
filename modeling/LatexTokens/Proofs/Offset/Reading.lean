import LatexTokens.Proofs.Offset.Single
import LatexTokens.Proofs.Offset.Editing
import LatexTokens.Proofs.Comment.Region
import LatexTokens.Proofs.Document.Whole

/-!
# Reading a document by offsets

A document is read token by token at its cursor, from the cache or with a reader of single tokens.
A region is read by a document of its own that remembers nothing, so that reading goes round in a
circle as deep as regions nest. `Checked.realizes_region` closes the circle: on a buffer that a
word can count the reading of a region leaves no range at any depth.
-/

set_option autoImplicit false

namespace LatexTokens

namespace Checked

section
variable {κ : Type} [TokenCache κ] (read : Text → Nat → Checked (Option Token))

/-- The token so many bytes after the cursor; the sum of the two stays at the largest word. -/
def peekAhead (bytes : Nat) (d : Document κ) :
    Option (Except Fault (Option Token) × Document κ) := do
  let p ← floor d.buffer (min (min (d.cursor + bytes) (wordSize - 1)) d.buffer.size)
  match TokenCache.get? d.cache p with
  | some t => some (.ok (some t), d)
  | none =>
    match ← (read d.buffer p).run with
    | .ok (some t) => some (.ok (some t), { d with cache := TokenCache.add p t d.cache })
    | r => some (r, d)

def next (d : Document κ) : Option (Except Fault (Option Token) × Document κ) := do
  match ← peekAhead read 0 d with
  | (.ok (some t), d) => some (.ok (some t), { d with cursor := ← sum d.cursor t.size })
  | r => some r

/-- Reads from the cursor to the end or the first fault. A token has to bring the cursor nearer to
the end. -/
def drainTo (stop : Nat) (d : Document κ) : Option (Drained κ) := do
  match ← next read d with
  | (.error f, d') => some ⟨[], some f, d'⟩
  | (.ok none, d') => some ⟨[], none, d'⟩
  | (.ok (some t), d') =>
    if stop - d'.cursor < stop - d.cursor then
      let r ← drainTo stop d'
      some { r with tokens := t :: r.tokens }
    else none
termination_by stop - d.cursor

def readToEnd (d : Document κ) : Option (Except Fault (List Token) × Document κ) := do
  let d ← seek 0 d
  let r ← drainTo read d.buffer.size d
  some (r.result, r.document)

def streamNext (s : TokenStream κ) : Option (Option (Except Fault Token) × TokenStream κ) := do
  if s.failed then some (none, s)
  else
    match ← next read s.document with
    | (.error f, d) => some (some (.error f), ⟨d, true⟩)
    | (.ok none, d) => some (none, ⟨d, false⟩)
    | (.ok (some t), d) => some (some (.ok t), ⟨d, false⟩)

def streamTake : Nat → TokenStream κ →
    Option (List (Option (Except Fault Token)) × TokenStream κ)
  | 0, s => some ([], s)
  | n + 1, s => do
    let (item, s) ← streamNext read s
    let (items, s) ← streamTake n s
    some (item :: items, s)

end

/-- Reads a region inside which so many levels of nesting are left, itself included. -/
def region : Nat → Bool → Text → Checked (List Token)
  | 0, _, t => fail ⟨⟨0, t.size⟩, .nestingTooDeep maxNesting⟩
  | levels + 1, math, t =>
    ExceptT.mk ((readToEnd (lexToken (region levels) math) ⟨t, 0, Uncached.mk⟩).map Prod.fst)

end Checked

theorem Drained.result_cons {κ : Type} (t : Token) (r : Drained κ) :
    Drained.result { r with tokens := t :: r.tokens } = r.result.map (t :: ·) := by
  unfold Drained.result
  cases r.fault <;> rfl

namespace Checked

section
variable {κ : Type} [TokenCache κ] {read : Text → Nat → Checked (Option Token)} {stop : Nat}
  {d d' : Document κ}

theorem drainTo_of_error {f : Fault} (h : next read d = some (.error f, d')) :
    drainTo read stop d = some ⟨[], some f, d'⟩ := by
  rw [drainTo, h]
  rfl

theorem drainTo_of_none (h : next read d = some (.ok none, d')) :
    drainTo read stop d = some ⟨[], none, d'⟩ := by
  rw [drainTo, h]
  rfl

theorem drainTo_of_token {t : Token} (h : next read d = some (.ok (some t), d'))
    (hlt : stop - d'.cursor < stop - d.cursor) :
    drainTo read stop d =
      (drainTo read stop d').map fun r => { r with tokens := t :: r.tokens } := by
  rw [drainTo, h]
  simp only [Option.bind_eq_bind, Option.bind_some, if_pos hlt]
  cases drainTo read stop d' <;> rfl

end

/-! ## Regions -/

section
variable {checked : Bool → Text → Checked (List Token)} {nested : RegionLexer}

/-- A document without a cache reads at its cursor. -/
theorem peekAhead_cutAt (read : Text → Nat → Checked (Option Token)) {u v : Text}
    (hs : (u ++ v).size < wordSize) :
    peekAhead read 0 (Document.cutAt u v) =
      (read (u ++ v) u.size).run.map (·, Document.cutAt u v) := by
  have hp : floor (u ++ v) (min (min (u.size + 0) (wordSize - 1)) (u ++ v).size) = some u.size := by
    have hu : u.size ≤ (u ++ v).size := by
      rw [Text.size_append]
      omega
    rw [show min (min (u.size + 0) (wordSize - 1)) (u ++ v).size = u.size by omega, floor_eq,
      Text.floor_size_append]
  rw [peekAhead, Document.cutAt, hp]
  simp only [Option.bind_eq_bind, Option.bind_some]
  change ((read (u ++ v) u.size).run.bind _) = _
  rcases (read (u ++ v) u.size).run with _ | f | _ | t <;> rfl

theorem next_cutAt_nil (checked : Bool → Text → Checked (List Token)) (math : Bool) {u : Text}
    (hs : (u ++ []).size < wordSize) :
    next (lexToken checked math) (Document.cutAt u []) = some (.ok none, Document.cutAt u []) := by
  rw [next, peekAhead_cutAt _ hs, lexToken, charAt_append]
  rfl

theorem next_cutAt_of_error (hn : Realizes checked nested) {math : Bool} {u : Text} {c : Char}
    {t : Text} {f : Fault} (hs : (u ++ c :: t).size < wordSize)
    (h : Lexing.read nested math (Lexing.openBrackets 0 u) c t = .error f) :
    next (lexToken checked math) (Document.cutAt u (c :: t)) =
      some (.error (f.shift u.size), Document.cutAt u (c :: t)) := by
  have hlex : lexToken checked math (u ++ c :: t) u.size = throw (f.shift u.size) := by
    simp only [lexToken_append hn hs, h]
    rfl
  rw [next, peekAhead_cutAt _ hs, hlex]
  rfl

theorem next_cutAt_of_token (hn : Realizes checked nested) {math : Bool} {u : Text} {c : Char}
    {t : Text} {token : Token} {rest : Text} (hs : (u ++ c :: t).size < wordSize)
    (h : Lexing.read nested math (Lexing.openBrackets 0 u) c t = .ok token)
    (ht : c :: t = token.literal ++ rest) :
    next (lexToken checked math) (Document.cutAt u (c :: t)) =
      some (.ok (some token), Document.cutAt (u ++ token.literal) rest) := by
  have hcursor : sum u.size token.size = some (u ++ token.literal).size := sum_size (ht ▸ hs)
  have hlex : lexToken checked math (u ++ c :: t) u.size = pure (some token) := by
    simp only [lexToken_append hn hs, h]
    rfl
  rw [next, peekAhead_cutAt _ hs, hlex]
  simp only [Document.cutAt, List.append_assoc, ← ht]
  change (sum u.size token.size).bind _ = _
  rw [hcursor]
  rfl

/-- A region is read from an offset on as from the text behind the offset. -/
theorem drainTo_cutAt (hn : Realizes checked nested) (math : Bool) (u v : Text)
    (hs : (u ++ v).size < wordSize) :
    (drainTo (lexToken checked math) (u ++ v).size (Document.cutAt u v)).map Drained.result =
      some ((Lexing.tokens nested math (Lexing.openBrackets 0 u) v).mapError
        (Fault.shift u.size)) := by
  cases v with
  | nil =>
    rw [drainTo_of_none (next_cutAt_nil checked math hs), Lexing.tokens]
    rfl
  | cons c t =>
    rw [Lexing.tokens]
    cases hread : Lexing.read nested math (Lexing.openBrackets 0 u) c t with
    | error f =>
      rw [drainTo_of_error (next_cutAt_of_error hn hs hread)]
      rfl
    | ok token =>
      obtain ⟨rest, ht, hstands⟩ := Lexing.stands_of_read hread
      have hne := hstands.literal_ne_nil
      have hlength : rest.length < (c :: t).length := by
        have := List.length_pos_iff.mpr hne
        rw [ht, List.length_append]
        omega
      have hcut : u ++ c :: t = u ++ token.literal ++ rest := by rw [List.append_assoc, ht]
      have hnearer : (u ++ c :: t).size - (u ++ token.literal).size <
          (u ++ c :: t).size - u.size := by
        rw [ht]
        exact size_sub_lt rfl hne
      have ih := drainTo_cutAt hn math (u ++ token.literal) rest (hcut ▸ hs)
      rw [← hcut, Lexing.openBrackets_append] at ih
      obtain ⟨r, hr, hresult⟩ := Option.map_eq_some_iff.mp ih
      rw [drainTo_of_token (next_cutAt_of_token hn hs hread ht) hnearer, hr]
      simp only [Text.drop_length_tail hne ht, Option.map_some, Option.some_inj]
      rw [Drained.result_cons, hresult]
      cases Lexing.tokens nested math (Lexing.openBrackets (Lexing.openBrackets 0 u) token.literal)
          rest with
      | error f =>
        simp only [Except.mapError, Except.map, Fault.shift_shift]
        rw [Text.size_append, Token.size, Nat.add_comm]
      | ok ts => rfl
termination_by v.length

theorem region_succ {levels : Nat} (hn : Realizes (region levels) (lexRegion levels))
    (math : Bool) {t : Text} (hs : t.size < wordSize) :
    region (levels + 1) math t = ExceptT.mk (some (lexRegion (levels + 1) math t)) := by
  have hseek : seek 0 (⟨t, 0, Uncached.mk⟩ : Document Uncached) = some (Document.cutAt [] t) := by
    rw [seek_eq, Document.seek_zero]
  obtain ⟨r, hr, hresult⟩ := Option.map_eq_some_iff.mp (drainTo_cutAt hn math [] t hs)
  have hdrain : drainTo (lexToken (region levels) math) (Document.cutAt [] t).buffer.size
      (Document.cutAt [] t) = some r := hr
  rw [region, readToEnd, hseek]
  simp only [Option.bind_eq_bind, Option.bind_some, hdrain, Option.map_some]
  rw [hresult, lexRegion]
  cases htokens : Lexing.tokens (lexRegion levels) math 0 t with
  | error f =>
    have hzero : Fault.shift (Text.size []) f = f := f.shift_zero
    simp only [Lexing.openBrackets, List.foldl_nil, htokens, Except.mapError, hzero]
  | ok ts =>
    simp only [Lexing.openBrackets, List.foldl_nil, htokens, Except.mapError]

/-- Reading a region leaves no range, however deep regions nest in it. -/
theorem realizes_region (levels : Nat) : Realizes (region levels) (lexRegion levels) := by
  induction levels with
  | zero =>
    refine ⟨Lexing.placesFaults_lexRegion 0, fun math t hs => ?_⟩
    have hfits : Fault.FitsWords ⟨⟨0, t.size⟩, .nestingTooDeep maxNesting⟩ := by
      intro l hl
      cases List.mem_singleton.mp hl
      exact ⟨Nat.zero_lt_of_lt hs, hs⟩
    exact if_pos hfits
  | succ levels ih =>
    exact ⟨Lexing.placesFaults_lexRegion _, fun math t hs => region_succ ih math hs⟩

end

end Checked

end LatexTokens
