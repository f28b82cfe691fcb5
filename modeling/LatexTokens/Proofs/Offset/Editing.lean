import LatexTokens.Proofs.Offset.Closing
import LatexTokens.Proofs.Document.Cursor

/-!
# Edits by offsets

The edits of a document lower a position to a character boundary byte by byte, splice the buffer
and move the cursor and the offsets of the cache by sums and differences of words. On a sound
document that is shorter than `bufferLimit` before the edit and after it they give what
`Document.insert` and `Document.remove` give.
-/

set_option autoImplicit false

namespace LatexTokens

/-- A cache that moves its offsets by sums and differences of words. -/
class CheckedTokenCache (κ : Type) where
  invalidate? : Nat → κ → Option κ
  shift? : Nat → Nat → κ → Option κ
  remove? : Nat → Nat → κ → Option κ

instance : CheckedTokenCache Uncached where
  invalidate? _ c := some c
  shift? _ _ c := some c
  remove? _ _ c := some c

namespace TokenTable
open Checked

def invalidate? (p : Nat) (c : TokenTable) : Option TokenTable := do
  if ∀ e ∈ c.entries, e.1 < p → (sum e.1 e.2.size).isSome then
    let _ ← difference c.entries.length (c.invalidate p).entries.length
    some (c.invalidate p)
  else none

def shift? (p n : Nat) (c : TokenTable) : Option TokenTable :=
  if n = 0 then some c
  else if ∀ e ∈ c.entries, p ≤ e.1 → (sum e.1 n).isSome then some (c.shift p n)
  else none

def remove? (start stop : Nat) (c : TokenTable) : Option TokenTable := do
  if stop ≤ start then some c
  else
    let _ ← difference c.entries.length (c.evict start stop).entries.length
    let n ← difference stop start
    if ∀ e ∈ (c.evict start stop).entries, stop ≤ e.1 → (difference e.1 n).isSome then
      some (c.remove start stop)
    else none

instance : CheckedTokenCache TokenTable where
  invalidate? := invalidate?
  shift? := shift?
  remove? := remove?

end TokenTable

namespace Checked

/-- The last character boundary up to an offset. -/
def floor (s : Text) : Nat → Option Nat
  | 0 => if s.IsBoundary 0 then some 0 else none
  | p + 1 => if s.IsBoundary (p + 1) then some (p + 1) else floor s p

/-- The offset that a position in an edit means. -/
def locate (s : Text) (position : Int) : Option Nat :=
  floor s (if position < 0 then s.size - position.natAbs else min position.natAbs s.size)

/-- Puts a sentinel for each special sequence and drops line continuations. -/
def protect (t : Text) : Option Text := do
  match indexOf (· = '\\') t with
  | none => some t
  | some i =>
    let plain ← slice t 0 i
    let rest ← sliceFrom t i
    let (sentinel, left) ← match Special.read? rest.tail with
      | some s => (sliceFrom rest s.sequence.size).map ([s.sentinel], ·)
      | none =>
        match Text.continuation? rest.tail with
        | some line => some ([], rest.tail.drop line.length)
        | none => (sliceFrom rest 1).map (['\\'], ·)
    if left.length < t.length then
      let guarded ← protect left
      some (plain ++ sentinel ++ guarded)
    else none
termination_by t.length

section
variable {κ : Type}

def openDocument (source : Text) (cache : κ) : Option (Document κ) := do
  some ⟨← protect source, 0, cache⟩

def seek (position : Int) (d : Document κ) : Option (Document κ) := do
  some { d with cursor := ← locate d.buffer position }

variable [CheckedTokenCache κ]

def insert (position : Int) (text : Text) (d : Document κ) : Option (Document κ) := do
  let p ← locate d.buffer position
  let new ← protect text
  if new.isEmpty then some d
  else
    let buffer ← splice d.buffer p p new
    let cursor ← if p ≤ d.cursor then sum d.cursor new.size else some d.cursor
    let kept ← CheckedTokenCache.invalidate? p d.cache
    let cache ← CheckedTokenCache.shift? p new.size kept
    some { buffer, cursor, cache }

def remove (one other : Int) (d : Document κ) : Option (Document κ) := do
  let a ← locate d.buffer one
  let b ← locate d.buffer other
  let start := min a b
  let stop := max a b
  if start = stop then some d
  else
    let buffer ← splice d.buffer start stop []
    let length ← difference stop start
    let cursor ← if stop ≤ d.cursor then difference d.cursor length
      else if start < d.cursor then some start else some d.cursor
    let kept ← CheckedTokenCache.invalidate? start d.cache
    let cache ← CheckedTokenCache.remove? start stop kept
    some { buffer, cursor, cache }

end

end Checked

/-! ## Boundaries -/

namespace Text

theorem floor_zero (t : Text) : t.floor 0 = 0 := Nat.le_zero.mp (floor_le 0 t)

theorem floor_succ {t : Text} {p : Nat} (h : ¬ t.IsBoundary (p + 1)) :
    t.floor (p + 1) = t.floor p := by
  unfold IsBoundary at h
  induction t generalizing p with
  | nil => rfl
  | cons c t ih =>
    rw [floor] at h ⊢
    rw [floor]
    split
    · next hle =>
      rw [if_pos hle] at h
      rcases Nat.lt_or_eq_of_le hle with hlt | heq
      · have hsub : p + 1 - c.utf8Size = p - c.utf8Size + 1 := by omega
        rw [hsub] at h ⊢
        rw [if_pos (by omega), ih (by omega)]
      · rw [heq, Nat.sub_self, floor_zero] at h
        exact absurd rfl h
    · next hlt => rw [if_neg (by omega)]

theorem floor_of_size_le {t : Text} {p : Nat} (h : t.size ≤ p) : t.floor p = t.size := by
  induction t generalizing p with
  | nil => rfl
  | cons c t ih =>
    rw [size_cons] at h ⊢
    rw [floor, if_pos (by omega), ih (by omega)]

theorem floor_min (t : Text) (p : Nat) : t.floor (min p t.size) = t.floor p := by
  rcases Nat.le_total p t.size with h | h
  · rw [Nat.min_eq_left h]
  · rw [Nat.min_eq_right h, floor_of_size_le h, floor_of_size_le (Nat.le_refl _)]

end Text

namespace Checked

theorem floor_eq (s : Text) (p : Nat) : floor s p = some (s.floor p) := by
  induction p with
  | zero =>
    have h : s.IsBoundary 0 := Text.floor_zero s
    rw [floor, if_pos h, Text.floor_zero]
  | succ p ih =>
    rw [floor]
    split
    · next h => rw [show s.floor (p + 1) = p + 1 from h]
    · next h => rw [ih, Text.floor_succ h]

theorem locate_eq {κ : Type} (d : Document κ) (position : Int) :
    locate d.buffer position = some (d.locate position) := by
  rw [locate, floor_eq, Document.locate]
  split
  · rfl
  · next h =>
    rw [Text.floor_min]
    congr 2
    omega

/-! ## Protecting a text -/

theorem protect_append {plain : Text} (h : '\\' ∉ plain) (t : Text) :
    (plain ++ t).protect = plain ++ t.protect := by
  induction plain with
  | nil => rfl
  | cons c plain ih =>
    rw [List.mem_cons, not_or] at h
    rw [List.cons_append, Text.protect_cons_of_ne (Ne.symm h.1), ih h.2]
    rfl

theorem sliceFrom_sequence {s : Special} {t : Text} (h : Special.read? t = some s) :
    sliceFrom ('\\' :: t) s.sequence.size = some (t.drop s.sequence.tail.length) := by
  rw [← Special.sequence_append_of_read? h, sliceFrom_append]

/-- Protecting cuts a text at its backslashes only, and never outside it. -/
theorem protect_eq (t : Text) : protect t = some t.protect := by
  induction hn : t.length using Nat.strong_induction_on generalizing t with
  | h n ih =>
  subst hn
  rw [protect]
  by_cases ht : '\\' ∈ t
  · obtain ⟨plain, t, rfl, hplain⟩ := List.eq_append_cons_of_mem ht
    have hslice : slice (plain ++ '\\' :: t) 0 (Text.size plain) = some plain :=
      slice_eq (u := []) (v := '\\' :: t) rfl rfl (Nat.zero_add _).symm
    have hrest (n : Nat) : (t.drop n).length < (plain ++ '\\' :: t).length := by
      simp only [List.length_drop, List.length_append, List.length_cons]
      omega
    have hdrop (n : Nat) : protect (t.drop n) = some (Text.protect (t.drop n)) :=
      ih _ (hrest n) _ rfl
    have hone : sliceFrom ('\\' :: t) 1 = some (t.drop 0) := sliceFrom_append ['\\'] t
    rw [indexOf_append_cons hplain]
    simp only [Option.bind_eq_bind, Option.bind, hslice, sliceFrom_append, List.tail_cons]
    rw [protect_append hplain, Text.protect, if_pos rfl]
    cases hread : Special.read? t with
    | some s =>
      simp only [sliceFrom_sequence hread, Option.map, if_pos (hrest _), hdrop]
      simp
    | none =>
      cases hline : Text.continuation? t with
      | some line =>
        simp only [if_pos (hrest _), hdrop]
        simp
      | none =>
        simp only [hone, Option.map, if_pos (hrest _), hdrop]
        simp
  · have happend := protect_append ht []
    rw [List.append_nil, Text.protect_nil, List.append_nil] at happend
    rw [indexOf_of_not_mem ht, happend]

end Checked

/-! ## Caches -/

/-- A cache whose offsets stay in range as long as those that an operation touches do. -/
class LawfulCheckedTokenCache (κ : Type) [TokenCache κ] [CheckedTokenCache κ] : Prop where
  invalidate?_eq {p : Nat} {c : κ} :
    (∀ k t, TokenCache.get? c k = some t → k + t.size < wordSize) →
      CheckedTokenCache.invalidate? p c = some (TokenCache.invalidate p c)
  shift?_eq {p n : Nat} {c : κ} :
    (∀ k t, TokenCache.get? c k = some t → k + n < wordSize) →
      CheckedTokenCache.shift? p n c = some (TokenCache.shift p n c)
  remove?_eq {start stop : Nat} {c : κ} : start ≤ stop →
    CheckedTokenCache.remove? start stop c = some (TokenCache.remove start stop c)

instance : LawfulCheckedTokenCache Uncached where
  invalidate?_eq _ := rfl
  shift?_eq _ := rfl
  remove?_eq _ := rfl

namespace TokenTable
open Checked

theorem invalidate?_eq {p : Nat} {c : TokenTable}
    (h : ∀ k t, c.get? k = some t → k + t.size < wordSize) :
    c.invalidate? p = some (c.invalidate p) := by
  have hsum : ∀ e ∈ c.entries, e.1 < p → (sum e.1 e.2.size).isSome := by
    intro e he _
    rw [sum_eq (h e.1 e.2 (get?_eq_some_iff.mpr he))]
    rfl
  have hlength : (c.invalidate p).entries.length ≤ c.entries.length :=
    List.length_filter_le _ c.entries
  rw [invalidate?, if_pos hsum, difference_eq hlength]
  rfl

theorem shift?_eq {p n : Nat} {c : TokenTable}
    (h : ∀ k t, c.get? k = some t → k + n < wordSize) : c.shift? p n = some (c.shift p n) := by
  rw [shift?]
  split
  · next hn => rw [hn, shift_zero]
  · refine if_pos fun e he _ => ?_
    rw [sum_eq (h e.1 e.2 (get?_eq_some_iff.mpr he))]
    rfl

theorem remove?_eq {start stop : Nat} {c : TokenTable} (h : start ≤ stop) :
    c.remove? start stop = some (c.remove start stop) := by
  rw [remove?]
  split
  · next hle => rw [remove, if_pos hle]
  · have hback : ∀ e ∈ (c.evict start stop).entries,
        stop ≤ e.1 → (difference e.1 (stop - start)).isSome := by
      intro e _ he
      rw [difference_eq (by omega)]
      rfl
    have hlength : (c.evict start stop).entries.length ≤ c.entries.length :=
      List.length_filter_le _ c.entries
    rw [difference_eq hlength, difference_eq h]
    exact if_pos hback

instance : LawfulCheckedTokenCache TokenTable where
  invalidate?_eq := invalidate?_eq
  shift?_eq := shift?_eq
  remove?_eq := remove?_eq

end TokenTable

/-! ## Edits of a sound document -/

theorem lt_wordSize_of_lt_bufferLimit {n : Nat} (h : n < bufferLimit) : n < wordSize :=
  Nat.lt_trans h (by decide)

namespace Document
variable {κ : Type} [TokenCache κ]

/-- A document none of whose offsets is outside its buffer. -/
structure InRange (d : Document κ) : Prop where
  boundary : d.buffer.IsBoundary d.cursor
  cursor_le : d.cursor ≤ d.buffer.size
  cached : ∀ k t, TokenCache.get? d.cache k = some t → k + t.size ≤ d.buffer.size

theorem Sound.inRange {d : Document κ} (h : d.Sound) : d.InRange where
  boundary := h.boundary
  cursor_le := by
    rw [← h.boundary]
    exact Text.floor_le_size _ _
  cached k t ht := (h.faithful k t ht).add_size_le

end Document

namespace Checked
variable {κ : Type}

theorem openDocument_eq (source : Text) (cache : κ) :
    openDocument source cache = some (.ofSource source cache) := by
  rw [openDocument, protect_eq]
  rfl

theorem seek_eq (position : Int) (d : Document κ) :
    seek position d = some (d.seek position) := by
  rw [seek, locate_eq]
  rfl

variable [TokenCache κ] [CheckedTokenCache κ] [LawfulTokenCache κ] [LawfulCheckedTokenCache κ]
  {d : Document κ}

theorem insert_eq (h : d.Sound) {position : Int} {text : Text}
    (hs : (d.insert position text).buffer.size < bufferLimit) :
    insert position text d = some (d.insert position text) := by
  rw [insert, locate_eq, protect_eq]
  rw [Document.insert] at hs ⊢
  simp only [Option.bind_eq_bind, Option.bind_some] at hs ⊢
  split at hs
  · next hnil => rw [if_pos hnil, if_pos hnil]
  · next hnil =>
    rw [if_neg hnil, if_neg hnil]
    have hp := d.isBoundary_locate position
    generalize d.locate position = p at hs hp ⊢
    generalize text.protect = new at hs ⊢
    have hsize : (d.buffer.before p ++ new ++ d.buffer.after p).size =
        d.buffer.size + new.size := by
      have hcut := Text.floor_add_size_after p d.buffer
      simp only [Text.size_append, Text.size_before]
      omega
    have hfits : d.buffer.size + new.size < wordSize :=
      lt_wordSize_of_lt_bufferLimit (hsize ▸ hs)
    have hrange := h.inRange
    have hcursor : sum d.cursor new.size = some (d.cursor + new.size) :=
      sum_eq (by have := hrange.cursor_le; omega)
    have hkept : CheckedTokenCache.invalidate? p d.cache = some (TokenCache.invalidate p d.cache) :=
      LawfulCheckedTokenCache.invalidate?_eq fun k t ht => by
        have := hrange.cached k t ht
        omega
    have hmoved : CheckedTokenCache.shift? p new.size (TokenCache.invalidate p d.cache) =
        some (TokenCache.shift p new.size (TokenCache.invalidate p d.cache)) :=
      LawfulCheckedTokenCache.shift?_eq fun k t ht => by
        have := hrange.cached k t (LawfulTokenCache.get?_invalidate ht).1
        omega
    rw [splice, if_pos ⟨Nat.le_refl _, hp, hp, hs⟩, hcursor, hkept]
    simp only [Option.bind_some, hmoved]
    split <;> rfl

omit [LawfulTokenCache κ] in
theorem remove_eq (h : d.Sound) (hs : d.buffer.size < bufferLimit) (one other : Int) :
    remove one other d = some (d.remove one other) := by
  rw [remove, locate_eq, locate_eq, Document.remove]
  simp only [Option.bind_eq_bind, Option.bind_some]
  split
  · rfl
  · next hne =>
    have hstart := (d.isBoundary_locate one).min (d.isBoundary_locate other)
    have hstop := (d.isBoundary_locate one).max (d.isBoundary_locate other)
    have hle : min (d.locate one) (d.locate other) ≤ max (d.locate one) (d.locate other) := by
      omega
    generalize min (d.locate one) (d.locate other) = start at hstart hle ⊢
    generalize max (d.locate one) (d.locate other) = stop at hstop hle ⊢
    have hsize : (d.buffer.before start ++ d.buffer.after stop).size < bufferLimit := by
      have hcut := Text.floor_add_size_after stop d.buffer
      rw [hstop] at hcut
      rw [Text.size_append, hstart.size_before]
      omega
    have hkept : CheckedTokenCache.invalidate? start d.cache =
        some (TokenCache.invalidate start d.cache) :=
      LawfulCheckedTokenCache.invalidate?_eq fun k t ht => by
        have := h.inRange.cached k t ht
        exact lt_wordSize_of_lt_bufferLimit (by omega)
    have hspliced : splice d.buffer start stop [] =
        some (d.buffer.before start ++ d.buffer.after stop) := by
      rw [splice, List.append_nil, if_pos ⟨hle, hstart, hstop, hsize⟩]
    have hevicted :
        CheckedTokenCache.remove? start stop (TokenCache.invalidate start d.cache) = _ :=
      LawfulCheckedTokenCache.remove?_eq hle
    rw [hspliced, difference_eq hle, hkept]
    simp only [Option.bind_some, hevicted]
    split
    · rw [difference_eq (by omega)]
      rfl
    · split
      · next hlt => rw [Nat.min_eq_right (Nat.le_of_lt hlt)]
      · next hge => rw [Nat.min_eq_left (Nat.le_of_not_lt hge)]

end Checked

end LatexTokens
