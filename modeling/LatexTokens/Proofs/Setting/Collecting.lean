import LatexTokens.Proofs.Setting.Trimming

/-!
# Reading settings from left to right

Settings can be read in one pass that looks at each text and token once. All that it carries on
is the finished settings and the one at hand, of which either some text of the key is known or
the key and some tokens of the value (`Reading`). After any tokens the pass is where reading their
segments one by one leads to (`Collector.foldlM_step`), so that at the end it gives what reading
whole segments gives (`collect_eq`).
-/

set_option autoImplicit false

namespace LatexTokens

namespace Setting

/-- A setting that is read in part. -/
inductive Reading where
  /-- The text in front of the equals sign, so far. -/
  | inKey (pending : Text)
  /-- The key, and the tokens of the value so far. -/
  | inValue (key : Text) (tokens : List Token)

/-- Adds text to the tokens of a value, of which it is the start if there are none yet. -/
def addText (ts : List Token) (t : Text) : List Token :=
  match if ts.isEmpty then t.trimStart else t with
  | [] => ts
  | t => ts ++ [.ofText t]

namespace Reading

def readText (t : Text) : Reading → Except Cause Reading
  | inKey pending =>
    let segment := pending ++ t
    let name := Text.trim (segment.takeWhile (· ≠ '='))
    match segment.dropWhile (· ≠ '=') with
    | [] => .ok (inKey segment)
    | _ :: rest =>
      if name.isEmpty || rest.contains '=' then .error (missingEquals segment)
      else .ok (inValue name.typeset (addText [] rest))
  | inValue key ts =>
    if t.contains '=' then .error (missingEquals t) else .ok (inValue key (addText ts t))

def readToken (t : Token) : Reading → Except Cause Reading
  | inKey pending => match t with
    | .comment .. => .ok (inKey pending)
    | _ => .error .valueWithoutKey
  | inValue key ts => .ok (inValue key (ts ++ [t]))

def readPiece : Piece → Reading → Except Cause Reading
  | .text t, r => r.readText t
  | .token t, r => r.readToken t

/-- Ends the setting at a comma or at the end of the body. -/
def close : Reading → Except Cause (KeyValue Token)
  | inKey pending => .error (missingEquals pending)
  | inValue key ts => match trimBack ts with
    | [] => .error (missingEquals (key ++ ['=']))
    | ts => .ok ⟨key, ts⟩

/-- Reads the rest of a segment and ends the setting. -/
def finish (ps : Segment) : Reading → Except Cause (KeyValue Token)
  | inKey pending => read pending ps
  | inValue key ts => match ps.findSome? Piece.equation? with
    | some t => .error (missingEquals t)
    | none => close (inValue key (ts ++
        if ts.isEmpty then trimmedStart ps else ps.filterMap Piece.token?))

theorem finish_nil (r : Reading) : r.finish [] = r.close := by
  cases r with
  | inKey => rfl
  | inValue key ts => simp [finish, trimmedStart]

theorem ofValue_eq_finish (key : Text) (ps : Segment) :
    ofValue key ps = finish ps (inValue key []) := by
  rw [ofValue, finish]
  cases ps.findSome? Piece.equation? with
  | some => rfl
  | none =>
    rw [close, value, ← trimFirst_trimEnd]
    rfl

theorem addText_append (ts : List Token) (t : Text) (ps : Segment) :
    (addText ts t ++
        if (addText ts t).isEmpty then trimmedStart ps else ps.filterMap Piece.token?) =
      ts ++ if ts.isEmpty then trimmedStart (.text t :: ps)
        else (Piece.text t :: ps).filterMap Piece.token? := by
  cases ts with
  | nil =>
    cases hstart : t.trimStart <;> simp [addText, trimmedStart, hstart]
  | cons u us =>
    cases t with
    | nil => simp [addText, List.filterMap_cons, Piece.token?]
    | cons c t => simp [addText, Piece.token?]

theorem finish_text_of_inValue {t : Text} (h : '=' ∉ t) (key : Text) (ts : List Token)
    (ps : Segment) :
    finish ps (inValue key (addText ts t)) = finish (.text t :: ps) (inValue key ts) := by
  have heq : Piece.equation? (.text t) = none := if_neg (by simpa using h)
  rw [finish, finish, List.findSome?_cons, heq, addText_append]

theorem readText_bind_finish (r : Reading) (t : Text) (ps : Segment) :
    (readText t r >>= finish ps) = finish (.text t :: ps) r := by
  cases r with
  | inKey pending =>
    rw [readText, finish, read]
    cases (pending ++ t).dropWhile (· ≠ '=') with
    | nil => rfl
    | cons c rest =>
      simp only
      split
      · rfl
      · next hrest =>
        simp only [Bool.or_eq_true, not_or, List.contains_iff_mem] at hrest
        rw [ofValue_eq_finish]
        exact finish_text_of_inValue hrest.2 _ [] ps
  | inValue key ts =>
    rw [readText]
    split
    · next h =>
      have heq : Piece.equation? (.text t) = some t := if_pos h
      rw [finish, List.findSome?_cons, heq]
      rfl
    · next h => exact finish_text_of_inValue (by simpa using h) key ts ps

theorem readToken_bind_finish (r : Reading) (t : Token) (ps : Segment) :
    (readToken t r >>= finish ps) = finish (.token t :: ps) r := by
  cases r with
  | inKey pending =>
    cases t with
    | comment x l => rfl
    | _ => rfl
  | inValue key ts =>
    have heq : (Piece.token t :: ps).findSome? Piece.equation? = ps.findSome? Piece.equation? := rfl
    change finish ps (inValue key (ts ++ [t])) = _
    rw [finish, finish, heq]
    cases ts with
    | nil => rfl
    | cons u us => simp [Piece.token?]

theorem readPiece_bind_finish (r : Reading) (p : Piece) (ps : Segment) :
    (readPiece p r >>= finish ps) = finish (p :: ps) r := by
  cases p with
  | text t => exact readText_bind_finish r t ps
  | token t => exact readToken_bind_finish r t ps

/-- Piece after piece, reading a segment gives what reading it as a whole gives. -/
theorem foldlM_readPiece_bind_close (ps : Segment) (r : Reading) :
    (ps.foldlM (fun r p => readPiece p r) r >>= close) = finish ps r := by
  induction ps generalizing r with
  | nil => exact (finish_nil r).symm
  | cons p ps ih =>
    rw [List.foldlM_cons, bind_assoc, ← readPiece_bind_finish]
    exact bind_congr ih

end Reading

/-- The settings that are read, and the one at hand. -/
structure Collector where
  settings : List (KeyValue Token)
  current : Reading

namespace Collector

def start : Collector := ⟨[], .inKey []⟩

/-- Ends the setting at hand and starts another. -/
def endSegment (c : Collector) : Except Cause Collector := do
  return ⟨c.settings ++ [← c.current.close], .inKey []⟩

/-- Reads texts with a comma after each but the last. -/
def readTexts : List Text → Collector → Except Cause Collector
  | [], c => return c
  | [t], c => do return ⟨c.settings, ← c.current.readText t⟩
  | t :: ts, c => do
    let c ← endSegment ⟨c.settings, ← c.current.readText t⟩
    readTexts ts c

def step (c : Collector) : Token → Except Cause Collector
  | .content _ literal => c.readTexts (Text.splitOn ',' literal)
  | t => do return ⟨c.settings, ← c.current.readToken t⟩

/-- Reads segments, the last of which stays open. -/
def readSegments : List Segment → Collector → Except Cause Collector
  | [], c => return c
  | [s], c => do return ⟨c.settings, ← s.foldlM (fun r p => r.readPiece p) c.current⟩
  | s :: ss, c => do
    let c ← endSegment ⟨c.settings, ← s.foldlM (fun r p => r.readPiece p) c.current⟩
    readSegments ss c

theorem readSegments_addPiece (p : Piece) {ss : List Segment} (h : ss ≠ []) (c : Collector) :
    c.readSegments (addPiece p ss) =
      (do readSegments ss ⟨c.settings, ← c.current.readPiece p⟩) := by
  obtain ⟨s, ss, rfl⟩ := List.exists_cons_of_ne_nil h
  cases ss with
  | nil => simp [addPiece, readSegments]
  | cons => simp [addPiece, readSegments]

theorem readSegments_addTexts (texts : List Text) {ss : List Segment} (h : ss ≠ [])
    (c : Collector) :
    c.readSegments (addTexts texts ss) = (do readSegments ss (← c.readTexts texts)) := by
  induction texts generalizing c with
  | nil => rfl
  | cons t texts ih =>
    cases texts with
    | nil =>
      rw [addTexts, readSegments_addPiece _ h, readTexts]
      simp [Reading.readPiece]
    | cons u texts =>
      rw [addTexts_cons t (by simp)]
      obtain ⟨s, rest, hs⟩ := List.exists_cons_of_ne_nil (addTexts_ne_nil (u :: texts) h)
      rw [hs] at ih ⊢
      simp only [readSegments, readTexts, List.foldlM_cons, List.foldlM_nil, Reading.readPiece,
        bind_assoc, bind_pure, ih]

theorem step_of_not_content {t : Token} (h : ∀ x l, t ≠ .content x l) (c : Collector) :
    c.step t = (do return ⟨c.settings, ← c.current.readToken t⟩) := by
  cases t with
  | content x l => exact absurd rfl (h x l)
  | _ => rfl

/-- What has been read after some tokens is what their segments lead to. -/
theorem foldlM_step (ts : List Token) (c : Collector) :
    ts.foldlM step c = c.readSegments (segments ts) := by
  induction ts generalizing c with
  | nil => simp [segments, readSegments, pure, Except.pure, bind, Except.bind]
  | cons t ts ih =>
    have hne := segments_ne_nil ts
    rw [List.foldlM_cons]
    simp only [ih]
    by_cases hc : ∃ x l, t = .content x l
    · obtain ⟨x, l, rfl⟩ := hc
      exact (readSegments_addTexts _ hne c).symm
    · have ht : ∀ x l, t ≠ .content x l := fun x l h => hc ⟨x, l, h⟩
      rw [segments_of_not_content ht, readSegments_addPiece _ hne, step_of_not_content ht]
      simp only [bind_assoc, pure_bind, Reading.readPiece]

theorem readSegments_singleton_bind_endSegment (s : Segment) (c : Collector) :
    (c.readSegments [s] >>= endSegment) = (do
      return ⟨c.settings ++ [← c.current.finish s], .inKey []⟩) := by
  simp only [readSegments, ← Reading.foldlM_readPiece_bind_close, bind_assoc, pure_bind]
  rfl

theorem readSegments_bind_endSegment (s : Segment) (ss : List Segment) (c : Collector) :
    (c.readSegments (s :: ss) >>= endSegment) = (do
      let kv ← c.current.finish s
      let kvs ← ss.mapM (read [])
      return ⟨c.settings ++ kv :: kvs, .inKey []⟩) := by
  induction ss generalizing s c with
  | nil =>
    rw [readSegments_singleton_bind_endSegment]
    simp only [List.mapM_nil, pure_bind]
  | cons s' ss ih =>
    have hfirst : c.readSegments (s :: s' :: ss) =
        c.readSegments [s] >>= endSegment >>= readSegments (s' :: ss) := by
      simp only [readSegments, bind_assoc, pure_bind]
    have hread : Reading.finish s' (.inKey []) = read [] s' := rfl
    rw [hfirst, bind_assoc, readSegments_singleton_bind_endSegment]
    simp only [bind_assoc, pure_bind, ih, hread, List.mapM_cons, List.append_assoc,
      List.singleton_append]

end Collector

/-- Reads the settings of a body in one pass. -/
def collect (ts : List Token) : Except Cause (OptionValue Token) := do
  let c ← ts.foldlM Collector.step .start
  let c ← c.endSegment
  return .pairs c.settings

theorem collect_eq (ts : List Token) :
    collect ts = ((segments ts).mapM (read [])).map .pairs := by
  obtain ⟨s, ss, hs⟩ := List.exists_cons_of_ne_nil (segments_ne_nil ts)
  have h := Collector.readSegments_bind_endSegment s ss .start
  rw [collect, Collector.foldlM_step, hs, ← bind_assoc, h, List.mapM_cons]
  change _ = OptionValue.pairs <$> _
  simp only [bind_assoc, pure_bind, map_bind, map_pure]
  rfl

end Setting

end LatexTokens
