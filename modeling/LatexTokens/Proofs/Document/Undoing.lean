import LatexTokens.Proofs.Document.Source
import LatexTokens.Proofs.Document.Transparency

/-!
# Taking an insertion back

Removing what was just inserted gives back the text and the cursor, wherever the cursor stood and
whatever became of the text when it was protected (`remove_insert_forget`). The cache has then
forgotten some tokens, but none of those that are left is wrong, so that no later step of a session
shows that there was an edit (`run_remove_insert`).
-/

set_option autoImplicit false

namespace LatexTokens

namespace Document

section
variable {κ : Type} {d : Document κ} {u x v : Text}

theorem range_of_append (hb : d.buffer = u ++ x ++ v) :
    min (d.locate u.size) (d.locate (u ++ x).size) = u.size ∧
      max (d.locate u.size) (d.locate (u ++ x).size) = (u ++ x).size := by
  have hone : d.locate u.size = u.size := locate_size_append (hb.trans (List.append_assoc _ _ _))
  have hother : d.locate (u ++ x).size = (u ++ x).size := locate_size_append hb
  have hle : u.size ≤ (u ++ x).size := by
    rw [Text.size_append]
    omega
  omega

variable [TokenCache κ]

theorem insert_of_protect_eq_nil {text : Text} (h : text.protect = []) (d : Document κ)
    (position : Int) : d.insert position text = d := by
  simp only [insert, h, List.isEmpty_nil, if_true]

theorem remove_self (d : Document κ) (position : Int) : d.remove position position = d := by
  simp only [remove, Nat.min_self, Nat.max_self, if_true]

theorem insert_of_locate_eq {position : Int} {text : Text} (hb : d.buffer = u ++ v)
    (hp : d.locate position = u.size) (hne : text.protect ≠ []) :
    (d.insert position text).buffer = u ++ text.protect ++ v ∧
      (d.insert position text).cursor =
        if u.size ≤ d.cursor then d.cursor + text.protect.size else d.cursor := by
  have hempty : ¬ text.protect.isEmpty := mt List.isEmpty_iff.mp hne
  simp only [insert, hp, hempty, hb, Text.before_size_append, Text.after_size_append]
  exact ⟨rfl, rfl⟩

theorem remove_of_append (hb : d.buffer = u ++ x ++ v) (hx : x ≠ []) :
    (d.remove u.size (u ++ x).size).buffer = u ++ v ∧
      (d.remove u.size (u ++ x).size).cursor =
        if u.size + x.size ≤ d.cursor then d.cursor - x.size else min d.cursor u.size := by
  obtain ⟨hstart, hstop⟩ := range_of_append hb
  have hne : u.size ≠ (u ++ x).size := by
    have hpos := Text.size_pos_of_ne_nil hx
    rw [Text.size_append]
    omega
  have hbefore : Text.before u.size (u ++ x ++ v) = u := by
    rw [List.append_assoc, Text.before_size_append]
  simp only [remove, hstart, hstop, hne, if_false, hb, hbefore, Text.after_size_append, true_and]
  rw [Text.size_append, Nat.add_sub_cancel_left]

end

/-- Removing an insertion gives back the text and the cursor. -/
theorem remove_insert_forget {κ : Type} [TokenCache κ] (d : Document κ) (position : Int)
    (text : Text) :
    let p := d.locate position
    ((d.insert position text).remove p (p + text.protect.size : Nat)).forget = d.forget := by
  intro p
  by_cases hnil : text.protect = []
  · rw [insert_of_protect_eq_nil hnil, hnil, Text.size_nil, Nat.add_zero, remove_self]
  obtain ⟨u, v, hb, hu⟩ := Text.isBoundary_iff.mp (d.isBoundary_locate position)
  obtain ⟨hinserted, hmoved⟩ := insert_of_locate_eq hb hu.symm hnil
  obtain ⟨hremoved, hback⟩ := remove_of_append hinserted hnil
  rw [hmoved] at hback
  have hp : p = u.size := hu.symm
  rw [hp, ← Text.size_append, forget, forget, hremoved, hback, hb]
  congr 1
  split <;> split <;> omega

variable {κ : Type} [TokenCache κ] [LawfulTokenCache κ]

/-- Documents with the same text and cursor, both of them faithful, cannot be told apart. -/
theorem Faithful.run_eq_of_forget_eq {d e : Document κ} (hd : d.Faithful) (he : e.Faithful)
    (h : d.forget = e.forget) (steps : List Step) : (d.run steps).1 = (e.run steps).1 := by
  have hrun := (hd.run_forget steps).1
  rw [h, (he.run_forget steps).1] at hrun
  exact (congrArg Prod.fst hrun).symm

/-- In every document that a session leads to, an insertion that is taken back at once leaves the
text and the cursor as they were, and no later step shows that it was ever there. The session can
start with no cache, with an empty table or with one that is right about the text. -/
theorem run_remove_insert (source : Text) (cache : κ) (h : (ofSource source cache).Faithful)
    (steps : List Step) (position : Int) (text : Text) :
    let d := ((ofSource source cache).run steps).2
    let p := d.locate position
    let d' := (d.insert position text).remove p (p + text.protect.size : Nat)
    d'.buffer = d.buffer ∧ d'.cursor = d.cursor ∧
      ∀ later, (d'.run later).1 = (d.run later).1 := by
  intro d p d'
  have hd : d.Faithful := (h.run_forget steps).2
  have hd' : d'.Faithful := (hd.insert position text).remove _ _
  have hforget : d'.forget = d.forget := d.remove_insert_forget position text
  exact ⟨congrArg (·.buffer) hforget, congrArg (·.cursor) hforget,
    fun later => hd'.run_eq_of_forget_eq hd hforget later⟩

/-- An opening brace typed inside a character of two bytes, in front of a remembered group. -/
theorem run_remove_insert_brace :
    let source : Text := ['a', 'é', '{', 'b', '}']
    let table := TokenTable.empty.add 3 (.block [.ofText ['b']] ['{', 'b', '}'])
    let d := ((ofSource source table).run [.peekAhead 3, .readToEnd, .seek 4]).2
    let p := d.locate (-4)
    let d' := (d.insert (-4) ['\\', '%', '{']).remove p
      (p + Text.size (Text.protect ['\\', '%', '{']) : Nat)
    (ofSource source table).Faithful ∧ p = 1 ∧ d'.buffer = d.buffer ∧ d'.cursor = d.cursor ∧
      ∀ later, (d'.run later).1 = (d.run later).1 := by
  intro source table d p d'
  have h : (ofSource source table).Faithful := by
    intro q t ht
    rcases TokenTable.get?_add_eq_some_iff.mp ht with ⟨rfl, rfl⟩ | ⟨_, ht⟩
    · exact ⟨by cbv, by cbv⟩
    · cases ht
  have hp : p = 1 := by
    subst p d table source
    cbv
  exact ⟨h, hp, run_remove_insert source table h _ (-4) ['\\', '%', '{']⟩

end Document

end LatexTokens
