import LatexTokens.Proofs.Document.Faithful
import LatexTokens.Proofs.Document.Session

/-!
# The text on either side of the cursor

The cursor of a document cuts its text into what is passed and what is left to read
(`Document.rest`). An edit up to the cursor keeps the rest, an edit behind it keeps what is
passed, and reading takes one token off the rest. So every step of a session leaves the cursor
between two characters (`Sound.run`).
-/

set_option autoImplicit false

namespace LatexTokens

namespace Document
variable {κ : Type}

/-- The text from the cursor on. -/
def rest (d : Document κ) : Text := d.buffer.after d.cursor

def passed (d : Document κ) : Text := d.buffer.before d.cursor

theorem buffer_eq_passed_append_rest (d : Document κ) : d.buffer = d.passed ++ d.rest :=
  (Text.before_append_after _ _).symm

variable [TokenCache κ]

/-- A faithful document whose cursor stands between two characters. -/
structure Sound (d : Document κ) : Prop where
  faithful : d.Faithful
  boundary : d.buffer.IsBoundary d.cursor

omit [TokenCache κ] in
theorem rest_of_buffer_eq {d : Document κ} {u v : Text} (hb : d.buffer = u ++ v)
    (hc : d.cursor = u.size) : d.rest = v := by
  rw [rest, hb, hc, Text.after_size_append]

omit [TokenCache κ] in
theorem passed_of_buffer_eq {d : Document κ} {u v : Text} (hb : d.buffer = u ++ v)
    (hc : d.cursor = u.size) : d.passed = u := by
  rw [passed, hb, hc, Text.before_size_append]

theorem Sound.of_append {d : Document κ} (h : d.Faithful) {u v : Text} (hb : d.buffer = u ++ v)
    (hc : d.cursor = u.size) : d.Sound := by
  refine ⟨h, ?_⟩
  rw [hb, hc]
  exact Text.isBoundary_size_append u v

theorem Sound.size_passed {d : Document κ} (h : d.Sound) : d.passed.size = d.cursor :=
  h.boundary.size_before

/-! ## Reading the next token -/

/-- What asking for the token at the start of a text answers, if the text starts at an offset. -/
def answerAt (p : Nat) (t : Text) : Except Fault (Option Token) :=
  (readToken? t).mapError (Fault.shift p)

/-- What the token at the start of a text leaves of it. -/
def afterToken (t : Text) : Text :=
  match readToken? t with
  | .ok (some token) => t.drop token.literal.length
  | _ => t

theorem Sound.tokenAt?_cursor {d : Document κ} (h : d.Sound) :
    tokenAt? d.buffer d.cursor = answerAt d.cursor d.rest := by
  rw [tokenAt?, answerAt, h.boundary, rest]
  cases readToken? (d.buffer.after d.cursor) with
  | error f => rfl
  | ok r => rfl

theorem Sound.fst_next {d : Document κ} (h : d.Sound) : d.next.1 = answerAt d.cursor d.rest := by
  have hp := h.faithful.fst_peekAhead 0
  rw [Nat.add_zero, h.tokenAt?_cursor] at hp
  rw [← hp, next, peek]
  split
  · next heq => rw [heq]
  · rfl

/-- Reading takes the token off the text that is left, or leaves all where it is. -/
theorem Sound.exists_next {d : Document κ} (h : d.Sound) :
    ∃ u, d.next.2.buffer = u ++ afterToken d.rest ∧ d.next.2.cursor = u.size := by
  have hp := h.faithful.fst_peekAhead 0
  have hbuffer := d.buffer_peekAhead 0
  have hcursor := d.cursor_peekAhead 0
  rw [Nat.add_zero, h.tokenAt?_cursor, answerAt] at hp
  rw [next, peek, afterToken]
  rcases hpeek : d.peekAhead 0 with ⟨r, d'⟩
  rw [hpeek] at hp hbuffer hcursor
  simp only at hp hbuffer hcursor
  subst hp
  have stay : ∃ u, d'.buffer = u ++ d.rest ∧ d'.cursor = u.size := by
    refine ⟨d.passed, ?_, ?_⟩
    · rw [hbuffer, d.buffer_eq_passed_append_rest]
    · rw [hcursor, h.size_passed]
  cases hread : readToken? d.rest with
  | error f => exact stay
  | ok token =>
    cases token with
    | none => exact stay
    | some t =>
      obtain ⟨v, hv, _⟩ := readToken?_eq_some_iff.mp hread
      refine ⟨d.passed ++ t.literal, ?_, ?_⟩
      · change d'.buffer = d.passed ++ t.literal ++ d.rest.drop t.literal.length
        rw [hbuffer, List.append_assoc, hv, List.drop_left, ← hv, d.buffer_eq_passed_append_rest]
      · change d'.cursor + t.size = _
        rw [Text.size_append, h.size_passed, hcursor, Token.size]

theorem Sound.rest_next {d : Document κ} (h : d.Sound) : d.next.2.rest = afterToken d.rest := by
  obtain ⟨u, hb, hc⟩ := h.exists_next
  exact rest_of_buffer_eq hb hc

/-! ## Edits in front of the cursor and behind it -/

theorem Sound.exists_insert_of_le {d : Document κ} (h : d.Sound) {position : Int} (text : Text)
    (hp : d.locate position ≤ d.cursor) :
    ∃ u, (d.insert position text).buffer = u ++ d.rest ∧
      (d.insert position text).cursor = u.size ∧
      (d.insert position text).cursor = d.cursor + text.protect.size := by
  simp only [insert]
  split
  · next hnil =>
    have hnil : text.protect = [] := List.isEmpty_iff.mp hnil
    refine ⟨d.passed, d.buffer_eq_passed_append_rest, h.size_passed.symm, ?_⟩
    rw [hnil, Text.size_nil, Nat.add_zero]
  · have hcut := d.isBoundary_locate position
    obtain ⟨z, hpassed, hafter⟩ := Text.exists_append_of_size_le
      (d.buffer_eq_passed_append_rest.symm.trans (Text.before_append_after _ _).symm)
      (by rwa [hcut.size_before, h.size_passed])
    have hsize := congrArg Text.size hpassed
    rw [h.size_passed, Text.size_append, hcut.size_before] at hsize
    refine ⟨d.buffer.before (d.locate position) ++ text.protect ++ z, ?_, ?_, ?_⟩
    · simp only [hafter, List.append_assoc]
    · simp only [Text.size_append, hcut.size_before]
      omega
    · rfl

theorem Sound.exists_insert_of_lt {d : Document κ} (h : d.Sound) {position : Int} (text : Text)
    (hp : d.cursor < d.locate position) :
    ∃ v, (d.insert position text).buffer = d.passed ++ v ∧
      (d.insert position text).cursor = d.cursor := by
  simp only [insert]
  split
  · exact ⟨d.rest, d.buffer_eq_passed_append_rest, rfl⟩
  · have hcut := d.isBoundary_locate position
    obtain ⟨z, hbefore, _⟩ := Text.exists_append_of_size_le
      ((Text.before_append_after _ _).trans d.buffer_eq_passed_append_rest)
      (by rw [hcut.size_before, h.size_passed]; exact Nat.le_of_lt hp)
    refine ⟨z ++ (text.protect ++ d.buffer.after (d.locate position)), ?_, ?_⟩
    · simp only [hbefore, List.append_assoc]
    · exact if_neg (Nat.not_le_of_lt hp)

theorem Sound.exists_remove_of_le {d : Document κ} (h : d.Sound) {one other : Int}
    (hp : max (d.locate one) (d.locate other) ≤ d.cursor) :
    ∃ u, (d.remove one other).buffer = u ++ d.rest ∧ (d.remove one other).cursor = u.size ∧
      (d.remove one other).cursor =
        d.cursor - (max (d.locate one) (d.locate other) - min (d.locate one) (d.locate other)) := by
  simp only [remove]
  split
  · next heq =>
    refine ⟨d.passed, d.buffer_eq_passed_append_rest, h.size_passed.symm, ?_⟩
    rw [heq, Nat.sub_self, Nat.sub_zero]
  · have hstart := (d.isBoundary_locate one).min (d.isBoundary_locate other)
    have hstop := (d.isBoundary_locate one).max (d.isBoundary_locate other)
    have hle : min (d.locate one) (d.locate other) ≤ max (d.locate one) (d.locate other) := by
      omega
    generalize min (d.locate one) (d.locate other) = start at hstart hle ⊢
    generalize max (d.locate one) (d.locate other) = stop at hp hstop hle ⊢
    obtain ⟨z, hpassed, hafter⟩ := Text.exists_append_of_size_le
      (d.buffer_eq_passed_append_rest.symm.trans (Text.before_append_after _ _).symm)
      (by rwa [hstop.size_before, h.size_passed])
    have hsize := congrArg Text.size hpassed
    rw [h.size_passed, Text.size_append, hstop.size_before] at hsize
    refine ⟨d.buffer.before start ++ z, ?_, ?_, ?_⟩
    · simp only [hafter, List.append_assoc]
    · simp only [Text.size_append, hstart.size_before]
      omega
    · rfl

theorem Sound.exists_remove_of_ge {d : Document κ} (h : d.Sound) {one other : Int}
    (hp : d.cursor ≤ min (d.locate one) (d.locate other)) :
    ∃ v, (d.remove one other).buffer = d.passed ++ v ∧ (d.remove one other).cursor = d.cursor := by
  simp only [remove]
  split
  · exact ⟨d.rest, d.buffer_eq_passed_append_rest, rfl⟩
  · have hstart := (d.isBoundary_locate one).min (d.isBoundary_locate other)
    have hlt : min (d.locate one) (d.locate other) < max (d.locate one) (d.locate other) := by
      omega
    generalize min (d.locate one) (d.locate other) = start at hp hstart hlt ⊢
    generalize max (d.locate one) (d.locate other) = stop at hlt ⊢
    obtain ⟨z, hbefore, _⟩ := Text.exists_append_of_size_le
      ((Text.before_append_after start d.buffer).trans d.buffer_eq_passed_append_rest)
      (by rwa [hstart.size_before, h.size_passed])
    refine ⟨z ++ d.buffer.after stop, ?_, ?_⟩
    · simp only [hbefore, List.append_assoc]
    · rw [if_neg (by omega), Nat.min_eq_left hp]

/-- A cursor inside the removed text moves to where that text started. -/
theorem exists_remove_of_mem (d : Document κ) {one other : Int}
    (hstart : min (d.locate one) (d.locate other) ≤ d.cursor)
    (hstop : d.cursor < max (d.locate one) (d.locate other)) :
    ∃ u v, (d.remove one other).buffer = u ++ v ∧ (d.remove one other).cursor = u.size := by
  have hcut := (d.isBoundary_locate one).min (d.isBoundary_locate other)
  simp only [remove]
  rw [if_neg (by omega)]
  refine ⟨_, _, rfl, ?_⟩
  rw [if_neg (by omega), hcut.size_before, Nat.min_eq_right hstart]

/-- What edits on either side of the cursor leave as it is. -/
structure EditsAroundCursor (d : Document κ) : Prop where
  insertUpTo : ∀ position text, d.locate position ≤ d.cursor →
    (d.insert position text).rest = d.rest ∧
      (d.insert position text).cursor = d.cursor + text.protect.size
  removeUpTo : ∀ one other, max (d.locate one) (d.locate other) ≤ d.cursor →
    (d.remove one other).rest = d.rest ∧ (d.remove one other).cursor =
      d.cursor - (max (d.locate one) (d.locate other) - min (d.locate one) (d.locate other))
  insertBehind : ∀ position text, d.cursor < d.locate position →
    (d.insert position text).passed = d.passed ∧ (d.insert position text).cursor = d.cursor
  removeBehind : ∀ one other, d.cursor ≤ min (d.locate one) (d.locate other) →
    (d.remove one other).passed = d.passed ∧ (d.remove one other).cursor = d.cursor

theorem Sound.editsAroundCursor {d : Document κ} (h : d.Sound) : d.EditsAroundCursor where
  insertUpTo := by
    intro position text hp
    obtain ⟨u, hb, hc, hmoved⟩ := h.exists_insert_of_le text hp
    exact ⟨rest_of_buffer_eq hb hc, hmoved⟩
  removeUpTo := by
    intro one other hp
    obtain ⟨u, hb, hc, hmoved⟩ := h.exists_remove_of_le hp
    exact ⟨rest_of_buffer_eq hb hc, hmoved⟩
  insertBehind := by
    intro position text hp
    obtain ⟨v, hb, hc⟩ := h.exists_insert_of_lt text hp
    exact ⟨passed_of_buffer_eq hb (hc.trans h.size_passed.symm), hc⟩
  removeBehind := by
    intro one other hp
    obtain ⟨v, hb, hc⟩ := h.exists_remove_of_ge hp
    exact ⟨passed_of_buffer_eq hb (hc.trans h.size_passed.symm), hc⟩

/-! ## Every step keeps a document sound -/

theorem sound_ofSource {source : Text} {cache : κ} (h : (ofSource source cache).Faithful) :
    (ofSource source cache).Sound := .of_append h (List.nil_append _).symm rfl

theorem Sound.seek {d : Document κ} (h : d.Sound) (position : Int) : (d.seek position).Sound :=
  ⟨h.faithful.seek position, d.isBoundary_locate position⟩

variable [LawfulTokenCache κ]

theorem Sound.insert {d : Document κ} (h : d.Sound) (position : Int) (text : Text) :
    (d.insert position text).Sound := by
  have hf := h.faithful.insert position text
  by_cases hp : d.locate position ≤ d.cursor
  · obtain ⟨u, hb, hc, _⟩ := h.exists_insert_of_le text hp
    exact .of_append hf hb hc
  · obtain ⟨v, hb, hc⟩ := h.exists_insert_of_lt text (Nat.lt_of_not_le hp)
    exact .of_append hf hb (hc.trans h.size_passed.symm)

theorem Sound.remove {d : Document κ} (h : d.Sound) (one other : Int) :
    (d.remove one other).Sound := by
  have hf := h.faithful.remove one other
  by_cases hstop : max (d.locate one) (d.locate other) ≤ d.cursor
  · obtain ⟨u, hb, hc, _⟩ := h.exists_remove_of_le hstop
    exact .of_append hf hb hc
  by_cases hstart : d.cursor ≤ min (d.locate one) (d.locate other)
  · obtain ⟨v, hb, hc⟩ := h.exists_remove_of_ge hstart
    exact .of_append hf hb (hc.trans h.size_passed.symm)
  · have hlt := Nat.lt_of_not_le hstop
    obtain ⟨u, v, hb, hc⟩ := d.exists_remove_of_mem (Nat.le_of_not_le hstart) hlt
    exact .of_append hf hb hc

theorem Sound.next {d : Document κ} (h : d.Sound) : d.next.2.Sound := by
  obtain ⟨u, hb, hc⟩ := h.exists_next
  exact .of_append h.faithful.next hb hc

theorem Sound.peekAhead {d : Document κ} (h : d.Sound) (bytes : Nat) :
    (d.peekAhead bytes).2.Sound := by
  refine ⟨h.faithful.peekAhead bytes, ?_⟩
  rw [buffer_peekAhead, cursor_peekAhead]
  exact h.boundary

theorem Sound.stream {d : Document κ} (h : d.Sound) (failed : Bool) (times : Nat) :
    (TokenStream.take times ⟨d, failed⟩).2.document.Sound := by
  induction times generalizing d failed with
  | zero => exact h
  | succ n ih =>
    have hn : (TokenStream.next ⟨d, failed⟩).2.document.Sound := by
      have hnext := h.next
      rw [TokenStream.next]
      split
      · exact h
      · split <;> next heq => rw [heq] at hnext; exact hnext
    exact ih hn _

theorem Sound.drainTo {d : Document κ} (h : d.Sound) (stop : Nat) :
    (d.drainTo stop).document.Sound := by
  fun_induction d.drainTo stop with
  | case1 d f d' heq | case2 d d' heq | case4 d t d' heq =>
    have hnext := h.next
    rw [heq] at hnext
    exact hnext
  | case3 d t d' heq hlt r ih =>
    have hnext := h.next
    rw [heq] at hnext
    exact ih hnext

theorem Sound.perform {d : Document κ} (h : d.Sound) (step : Step) :
    (d.perform step).2.Sound := by
  cases step with
  | seek position => exact h.seek position
  | insert position text => exact h.insert position text
  | remove one other => exact h.remove one other
  | next => exact h.next
  | peekAhead bytes => exact h.peekAhead bytes
  | stream times => exact h.stream false times
  | readToEnd => exact (h.seek 0).drainTo _

theorem Sound.run {d : Document κ} (h : d.Sound) (steps : List Step) : (d.run steps).2.Sound := by
  induction steps generalizing d with
  | nil => exact h
  | cons step steps ih => exact ih (h.perform step)

end Document

end LatexTokens
