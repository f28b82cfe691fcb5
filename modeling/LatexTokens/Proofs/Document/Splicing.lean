import LatexTokens.Proofs.Document.Entries
import LatexTokens.Proofs.Document.Joining

/-!
# Putting tokens that are read already into a table

A text that goes into another one can be read by itself, and its tokens be put into the table of
the other at once. All of them but the last stand before the same character as before; only the
last one may read on into the text behind it. If it does not, the table is right about the new text
(`TokenTable.insert_lexed`).
-/

set_option autoImplicit false

namespace LatexTokens

section
variable {l m r : Text}

theorem LexesAt.keep {p : Nat} {t : Token} (h : LexesAt (l ++ r) p t)
    (hend : p + t.size < l.size) (m : Text) : LexesAt (l ++ m ++ r) p t := by
  have hkept := h.before_cut (Text.isBoundary_size_append l r) hend (m ++ r)
  rwa [Text.before_size_append, ← List.append_assoc] at hkept

theorem LexesAt.move {p : Nat} {t : Token} (h : LexesAt (l ++ r) p t) (hp : l.size ≤ p)
    (m : Text) : LexesAt (l ++ m ++ r) (p + m.size) t := by
  have hmoved := h.after_cut (Text.isBoundary_size_append l r) hp (l ++ m)
  have hoffset : p - l.size + (l ++ m).size = p + m.size := by
    rw [Text.size_append]
    omega
  rwa [Text.after_size_append, hoffset] at hmoved

/-- Where the tokens of a text that stands between two others start. -/
theorem isBoundary_of_tokenize {ts us : List Token} (hm : tokenize m = .ok (ts ++ us))
    (l r : Text) : (l ++ m ++ r).IsBoundary (l.size + TokenTable.extent ts) := by
  obtain ⟨rfl, _⟩ := Lexing.tokens_eq_ok_iff.mp hm
  refine Text.isBoundary_iff.mpr ⟨l ++ ts.flatMap Token.literal, us.flatMap Token.literal ++ r, ?_,
    Text.size_append _ _⟩
  simp only [List.flatMap_append, List.append_assoc]

/-- All tokens of a text but the last one are read between any two other texts. -/
theorem lexesAt_of_tokenize {ts us : List Token} {t : Token}
    (hm : tokenize m = .ok (ts ++ t :: us)) (hus : us ≠ []) (l r : Text) :
    LexesAt (l ++ m ++ r) (l.size + TokenTable.extent ts) t := by
  obtain ⟨rfl, hrow⟩ := Lexing.tokens_eq_ok_iff.mp hm
  obtain ⟨hstands, hbehind⟩ := hrow.of_append
  refine lexesAt_iff.mpr ⟨l ++ ts.flatMap Token.literal, us.flatMap Token.literal ++ r, ?_,
    Text.size_append _ _, ?_⟩
  · simp only [List.flatMap_append, List.flatMap_cons, List.append_assoc]
  · rwa [List.head?_append_of_ne_nil _ (hbehind.literals_ne_nil hus)]

end

namespace TokenTable

theorem exists_of_mem_placed {p : Nat} {ts : List Token} {e : Nat × Token}
    (he : e ∈ placed p ts) : ∃ us vs, ts = us ++ e.2 :: vs ∧ e.1 = p + extent us := by
  obtain ⟨i, hi, rfl⟩ := List.mem_mapIdx.mp he
  exact ⟨ts.take i, ts.drop (i + 1), by simp, rfl⟩

theorem mem_placed_of_getElem? {p i : Nat} {ts : List Token} {t : Token} (h : ts[i]? = some t) :
    (p + extent (ts.take i), t) ∈ placed p ts := by
  obtain ⟨hi, rfl⟩ := List.getElem?_eq_some_iff.mp h
  exact List.mem_mapIdx.mpr ⟨i, hi, rfl⟩

section
variable {l m r : Text} {ts : List Token}

/-- The tokens of a text are read where they are placed, if the last one does not read on. -/
theorem lexesAt_of_mem_placed (hm : tokenize m = .ok ts)
    (hlast : ∀ t ∈ ts.getLast?, tokenAt? (l ++ m ++ r) (l.size + extent ts.dropLast) = .ok (some t))
    {e : Nat × Token} (he : e ∈ placed l.size ts) : LexesAt (l ++ m ++ r) e.1 e.2 := by
  obtain ⟨us, vs, rfl, hp⟩ := exists_of_mem_placed he
  rw [hp]
  by_cases hvs : vs = []
  · subst hvs
    have hread := hlast e.2 List.getLast?_concat
    rw [List.dropLast_concat] at hread
    exact ⟨isBoundary_of_tokenize hm l r, hread⟩
  · exact lexesAt_of_tokenize hm hvs l r

/-- What a table holds once the tokens of a text between two others are put into it. -/
theorem entries_insert_lexed (hm : tokenize m = .ok ts) (p : Nat) (c : TokenTable) :
    ((c.invalidate p).insert p ts).entries =
      c.endingBefore p ++ placed p ts ++ moved (· + m.size) (c.startingFrom p) := by
  have hextent : extent ts = m.size :=
    congrArg Text.size (Lexing.tokens_eq_ok_iff.mp hm).1.symm
  rw [entries_insert p fun _ ht => size_pos_of_tokenize hm ht, startingBefore_invalidate,
    startingFrom_invalidate (Nat.le_refl p), hextent]

/-- A table that is right about a text stays so when another text is put into the middle of it and
the tokens of that are put into the table, if the last of them does not read on. -/
theorem insert_lexed {c : TokenTable} (hm : tokenize m = .ok ts)
    (hlast : ∀ t ∈ ts.getLast?, tokenAt? (l ++ m ++ r) (l.size + extent ts.dropLast) = .ok (some t))
    (hc : ∀ p t, c.get? p = some t → LexesAt (l ++ r) p t) :
    let spliced := (c.invalidate l.size).insert l.size ts
    (∀ p t, spliced.get? p = some t → LexesAt (l ++ m ++ r) p t) ∧
      (∀ i t, ts[i]? = some t → spliced.get? (l.size + extent (ts.take i)) = some t) ∧
      spliced.entries = c.endingBefore l.size ++ placed l.size ts ++
        moved (· + m.size) (c.startingFrom l.size) := by
  intro spliced
  have hentries : spliced.entries = _ := entries_insert_lexed hm l.size c
  refine ⟨?_, ?_, hentries⟩
  · intro p t ht
    have hmem : (p, t) ∈ spliced.entries := get?_eq_some_iff.mp ht
    rw [hentries, List.mem_append, List.mem_append] at hmem
    -- An entry was kept in front of the new text, or is one of its tokens, or was moved behind it.
    rcases hmem with (hmem | hmem) | hmem
    · obtain ⟨hmem, hend⟩ := List.mem_filter.mp hmem
      exact (hc p t (get?_eq_some_iff.mpr hmem)).keep (of_decide_eq_true hend) m
    · exact lexesAt_of_mem_placed hm hlast hmem
    · obtain ⟨⟨q, u⟩, hq, he⟩ := List.mem_map.mp hmem
      obtain ⟨rfl, rfl⟩ := Prod.mk.inj he
      obtain ⟨hq, hle⟩ := mem_startingFrom_iff.mp hq
      exact (hc q u (get?_eq_some_iff.mpr hq)).move hle m
  · intro i t ht
    refine get?_eq_some_iff.mpr ?_
    rw [hentries]
    exact List.mem_append_left _ (List.mem_append_right _ (mem_placed_of_getElem? ht))

/-- A command and a comment between two groups that are remembered. The first of these ends where
the text goes in, so it is forgotten. -/
theorem insert_lexed_comment :
    let group : Token := .block [.ofText ['b']] ['{', 'b', '}']
    let command : Token := .command ['x'] [] ['\\', 'x']
    let comment : Token := .comment ['d'] ['%', 'd', '\n']
    let l : Text := ['é', '{', 'b', '}']
    let m : Text := ['\\', 'x', '%', 'd', '\n']
    let r : Text := ['{', 'b', '}']
    let c := ((empty.add 0 (.ofText ['é'])).add 2 group).add 5 group
    let spliced := (c.invalidate l.size).insert l.size [command, comment]
    tokenize m = .ok [command, comment] ∧
      (∀ p t, c.get? p = some t → LexesAt (l ++ r) p t) ∧
      (∀ p t, spliced.get? p = some t → LexesAt (l ++ m ++ r) p t) ∧
      spliced.entries = [(0, .ofText ['é']), (5, command), (7, comment), (10, group)] := by
  intro group command comment l m r c spliced
  have hm : tokenize m = .ok [command, comment] := by
    simp only [m, command, comment]
    cbv
  have hlast : ∀ t ∈ [command, comment].getLast?,
      tokenAt? (l ++ m ++ r) (l.size + extent [command, comment].dropLast) = .ok (some t) := by
    rintro t ⟨⟩
    simp only [l, m, r, command, comment]
    cbv
  have hc : ∀ p t, c.get? p = some t → LexesAt (l ++ r) p t := by
    intro p t ht
    rcases get?_add_eq_some_iff.mp ht with ⟨rfl, rfl⟩ | ⟨_, ht⟩
    · exact ⟨by cbv, by cbv⟩
    rcases get?_add_eq_some_iff.mp ht with ⟨rfl, rfl⟩ | ⟨_, ht⟩
    · exact ⟨by cbv, by cbv⟩
    rcases get?_add_eq_some_iff.mp ht with ⟨rfl, rfl⟩ | ⟨_, ht⟩
    · exact ⟨by cbv, by cbv⟩
    · cases ht
  obtain ⟨hright, _, hentries⟩ := insert_lexed hm hlast hc
  exact ⟨hm, hc, hright, hentries⟩

end

end TokenTable

end LatexTokens
