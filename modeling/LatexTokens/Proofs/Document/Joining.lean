import LatexTokens.Proofs.Document.Nesting
import LatexTokens.Proofs.Lexing.Following

/-!
# Texts side by side

Two texts that are read each on its own are read to the same tokens when one is put behind the
other, unless the first character of the second continues the last token of the first.
-/

set_option autoImplicit false

namespace LatexTokens

namespace Lexing
variable {nested : RegionLexer}

theorem StandInRow.of_false {opened opened' : Nat} {ts : List Token}
    (h : StandInRow nested false opened ts) : StandInRow nested false opened' ts := by
  induction ts generalizing opened opened' with
  | nil => trivial
  | cons t ts ih => exact ⟨h.1.of_false, ih h.2⟩

theorem StandInRow.of_append {opened : Nat} {ts us : List Token}
    (h : StandInRow nested false opened (ts ++ us)) : StandInRow nested false 0 us := by
  induction ts generalizing opened with
  | nil => exact h.of_false
  | cons t ts ih => exact ih h.2

theorem StandInRow.literals_ne_nil {opened : Nat} {ts : List Token}
    (h : StandInRow nested false opened ts) (hts : ts ≠ []) : ts.flatMap Token.literal ≠ [] := by
  cases ts with
  | nil => exact absurd rfl hts
  | cons t ts =>
    rw [List.flatMap_cons]
    exact List.append_ne_nil_of_left_ne_nil h.1.literal_ne_nil _

/-- Behind a row of tokens others stand in a row if they do by themselves and the last token of
the first row stands before them. -/
theorem StandInRow.append_iff {opened : Nat} {ts us : List Token} {t : Token}
    (h : StandInRow nested false opened (ts ++ [t])) :
    StandInRow nested false opened (ts ++ [t] ++ us) ↔
      Stands nested false (us.flatMap Token.literal).head? 0 t ∧
        StandInRow nested false 0 us := by
  induction ts generalizing opened with
  | nil =>
    constructor
    · intro hrow
      exact ⟨hrow.1.of_false, hrow.2.of_false⟩
    · intro hrow
      exact ⟨hrow.1.of_false, hrow.2.of_false⟩
  | cons s ts ih =>
    have hs : Stands nested false ((ts ++ [t]).flatMap Token.literal).head? opened s := h.1
    have hts : StandInRow nested false (openBrackets opened s.literal) (ts ++ [t]) := h.2
    rw [← ih hts]
    constructor
    · intro hrow
      exact hrow.2
    · intro hrow
      -- The tokens behind the first one start with the same character as before.
      have hne := hts.literals_ne_nil (List.append_ne_nil_of_right_ne_nil _ (List.cons_ne_nil t []))
      refine ⟨?_, hrow⟩
      change Stands nested false ((ts ++ [t] ++ us).flatMap Token.literal).head? opened s
      rwa [List.flatMap_append, List.head?_append_of_ne_nil _ hne]

end Lexing

theorem size_pos_of_tokenize {s : Text} {ts : List Token} (h : tokenize s = .ok ts) {t : Token}
    (ht : t ∈ ts) : 0 < t.size := by
  obtain ⟨_, _, hstands⟩ := (Lexing.tokens_eq_ok_iff.mp h).2.exists_stands ht
  exact Text.size_pos_of_ne_nil hstands.literal_ne_nil

/-- Two texts side by side are read as each on its own precisely if the second does not continue
the last token of the first. -/
theorem tokenize_append_eq_ok_iff {a b : Text} {ta tb : List Token} {t : Token} {x : Char}
    (ha : tokenize a = .ok ta) (hb : tokenize b = .ok tb) (ht : ta.getLast? = some t)
    (hx : b.head? = some x) : tokenize (a ++ b) = .ok (ta ++ tb) ↔ ¬ t.IsContinuedBy x := by
  obtain ⟨ts, rfl⟩ := List.getLast?_eq_some_iff.mp ht
  obtain ⟨rfl, hrow⟩ := Lexing.tokens_eq_ok_iff.mp ha
  obtain ⟨rfl, hrow'⟩ := Lexing.tokens_eq_ok_iff.mp hb
  have halone : Lexing.StandInRow (lexRegion maxNesting) false 0 (ts ++ [t] ++ []) := by
    rwa [List.append_nil]
  have hlast : Lexing.Stands (lexRegion maxNesting) false none 0 t :=
    (hrow.append_iff.mp halone).1
  rw [← hlast.before_iff, ← hx]
  constructor
  · intro h
    exact (hrow.append_iff.mp (Lexing.tokens_eq_ok_iff.mp h).2).1
  · intro h
    refine Lexing.tokens_eq_ok_iff.mpr ⟨List.flatMap_append.symm, ?_⟩
    exact hrow.append_iff.mpr ⟨h, hrow'⟩

/-- A star behind a script over a command belongs to its name, but not behind a control symbol. -/
theorem tokenize_append_eq_ok_iff_star :
    let command : Token := .script .superscript (.command ['x'] [] ['\\', 'x']) ['^', '\\', 'x']
    let symbol : Token := .script .superscript (.command [','] [] ['\\', ',']) ['^', '\\', ',']
    tokenize ['&', '^', '\\', 'x'] = .ok [.columnAlign, command] ∧
      tokenize ['&', '^', '\\', ','] = .ok [.columnAlign, symbol] ∧
      tokenize ['*'] = .ok [.ofText ['*']] ∧
      tokenize ['&', '^', '\\', 'x', '*'] ≠ .ok [.columnAlign, command, .ofText ['*']] ∧
      tokenize ['&', '^', '\\', ',', '*'] = .ok [.columnAlign, symbol, .ofText ['*']] := by
  intro command symbol
  have hcommand : tokenize ['&', '^', '\\', 'x'] = .ok [.columnAlign, command] := by
    simp only [command]
    cbv
  have hsymbol : tokenize ['&', '^', '\\', ','] = .ok [.columnAlign, symbol] := by
    simp only [symbol]
    cbv
  have hstar : tokenize ['*'] = .ok [.ofText ['*']] := by cbv
  have hcontinued : command.IsContinuedBy '*' :=
    ⟨⟨'x', rfl, by decide⟩, .inr (.inr ⟨rfl, by decide, .inl rfl⟩)⟩
  have hnot : ¬ symbol.IsContinuedBy '*' := by
    rintro ⟨⟨a, ha, halpha⟩, _⟩
    cases ha
    cases halpha
  refine ⟨hcommand, hsymbol, hstar, ?_, ?_⟩
  · intro h
    exact (tokenize_append_eq_ok_iff hcommand hstar rfl rfl).mp h hcontinued
  · exact (tokenize_append_eq_ok_iff hsymbol hstar rfl rfl).mpr hnot

end LatexTokens
