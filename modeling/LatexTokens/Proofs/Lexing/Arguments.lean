import LatexTokens.Proofs.Lexing.TextRun

/-!
# Regions, arguments and command names

Which regions, arguments and names of commands can be read from a text: those that stand there,
each with the text behind it.
-/

set_option autoImplicit false

namespace LatexTokens

namespace Lexing

section
variable {nested : RegionLexer} {math : Bool}

theorem region_eq_ok_iff {e : Enclosure} {t literal : Text} {tokens : List Token} :
    region nested math e t = .ok (literal, tokens) ↔
      ∃ inner rest, literal = e.around inner ∧ t = inner ++ (e.closing ++ rest) ∧
        IsRegion nested math e inner tokens := by
  constructor
  · intro h
    rw [region] at h
    split at h
    · cases h
    · next inner rest hs =>
      split at h
      · cases h
      · next ts hn =>
        cases h
        obtain ⟨ht, he⟩ := Enclosure.split_eq_ok_iff.mp hs
        exact ⟨inner, rest, by simp [Enclosure.around], ht, he, hn⟩
  · intro h₀
    obtain ⟨inner, rest, rfl, rfl, h⟩ := h₀
    rw [region, h.encloses rest]
    simp only [h.lexed, Enclosure.around, List.append_assoc]

theorem opening_injective {d e : Delimiter} (h : d.opening = e.opening) : d = e := by
  cases d <;> cases e <;> first | rfl | cases h

theorem argument_eq_ok_iff {d : Delimiter} {t : Text} {a : Argument Token} :
    argument nested math d t = .ok a ↔
      ∃ rest, d.opening :: t = a.literal ++ rest ∧ IsArgument nested math a := by
  constructor
  · intro h
    rw [argument] at h
    split at h
    · cases h
    · next literal tokens hr =>
      obtain ⟨inner, rest, rfl, rfl, hi⟩ := region_eq_ok_iff.mp hr
      cases d with
      | brace =>
        cases h
        exact ⟨rest, (Enclosure.around_group_append _ _ _).symm, .required hi⟩
      | bracket =>
        simp only at h
        split at h <;> cases h
        next hv => exact ⟨rest, (Enclosure.around_group_append _ _ _).symm, .optional hi hv⟩
  · intro h₀
    obtain ⟨rest, ht, h⟩ := h₀
    cases h with
    | @required inner tokens hi =>
      obtain ⟨hd, he⟩ := List.cons.inj (ht.trans (Enclosure.around_group_append _ _ _))
      cases opening_injective hd
      have hr := region_eq_ok_iff.mpr ⟨inner, rest, rfl, he, hi⟩
      rw [argument, hr]
    | @optional inner tokens value hi hv =>
      obtain ⟨hd, he⟩ := List.cons.inj (ht.trans (Enclosure.around_group_append _ _ _))
      cases opening_injective hd
      have hr := region_eq_ok_iff.mpr ⟨inner, rest, rfl, he, hi⟩
      rw [argument, hr]
      simp only [hv]

theorem IsArgument.exists_cons {a : Argument Token} (h : IsArgument nested math a) :
    ∃ d : Delimiter, ∃ l, a.literal = d.opening :: l := by
  cases h with
  | required => exact ⟨.brace, _, rfl⟩
  | optional => exact ⟨.bracket, _, rfl⟩

theorem IsArgument.literal_ne_nil {a : Argument Token} (h : IsArgument nested math a) :
    a.literal ≠ [] := by
  obtain ⟨d, l, hl⟩ := h.exists_cons
  rw [hl]
  exact List.cons_ne_nil _ _

theorem ofOpening?_opening (d : Delimiter) : Delimiter.ofOpening? d.opening = some d := by
  cases d <;> rfl

theorem eq_opening_of_ofOpening? {c : Char} {d : Delimiter}
    (h : Delimiter.ofOpening? c = some d) : c = d.opening := by
  unfold Delimiter.ofOpening? at h
  split at h <;> cases h <;> rfl

/-- The arguments that a text starts with are all that can stand there. -/
theorem arguments_eq_ok_iff {t : Text} {as : List (Argument Token)} :
    arguments nested math t = .ok as ↔
      ∃ rest, t = as.flatMap Argument.literal ++ rest ∧ (∀ a ∈ as, IsArgument nested math a) ∧
        ∀ c ∈ rest.head?, Delimiter.ofOpening? c = none := by
  constructor
  · intro h
    fun_induction arguments nested math t generalizing as with
    | case1 =>
      cases h
      exact ⟨[], rfl, by simp, by simp⟩
    | case2 c t hd =>
      cases h
      exact ⟨c :: t, rfl, by simp, by simpa using hd⟩
    | case3 => cases h
    | case4 => cases h
    | case5 c t d hd a ha as' hr ih =>
      cases h
      obtain ⟨rest₀, ht, hi⟩ := argument_eq_ok_iff.mp ha
      obtain ⟨rest, hrest, has, hn⟩ := ih hr
      rw [← eq_opening_of_ofOpening? hd] at ht
      rw [Text.drop_length_tail hi.literal_ne_nil ht] at hrest
      refine ⟨rest, ?_, ?_, hn⟩
      · rw [List.flatMap_cons, ht, hrest, List.append_assoc]
      · intro b hb
        rcases List.mem_cons.mp hb with rfl | hb
        · exact hi
        · exact has b hb
  · intro h₀
    obtain ⟨rest, rfl, has, hn⟩ := h₀
    induction as with
    | nil =>
      cases rest with
      | nil => rw [List.flatMap_nil, List.nil_append, arguments]
      | cons c rest =>
        have hc : Delimiter.ofOpening? c = none := hn c rfl
        rw [List.flatMap_nil, List.nil_append, arguments, hc]
    | cons a as ih =>
      have ha := has a List.mem_cons_self
      have ih := ih fun b hb => has b (List.mem_cons_of_mem a hb)
      obtain ⟨d, l, hl⟩ := ha.exists_cons
      have harg : argument nested math d (l ++ (as.flatMap Argument.literal ++ rest)) = .ok a :=
        argument_eq_ok_iff.mpr ⟨as.flatMap Argument.literal ++ rest, by rw [hl]; rfl, ha⟩
      rw [List.flatMap_cons, hl]
      simp only [List.cons_append, List.append_assoc]
      rw [arguments, ofOpening?_opening]
      simp only [harg, hl, List.tail_cons, List.drop_left, ih]

end

/-- The name of the command that stands behind a backslash. -/
def commandName (t : Text) : Text :=
  let letters := t.takeWhile Char.isAlphanum
  letters ++ ((t.drop letters.length).take 1).filter (· = '*')

theorem exists_isName_commandName {c : Char} {t : Text} (hc : c.isAlphanum)
    (ha : ¬ (isLetterAccent c = true ∧ t.head? = some '{')) :
    ∃ rest, c :: t = commandName (c :: t) ++ rest ∧ IsName rest.head? (commandName (c :: t)) := by
  obtain ⟨rest, ht, hrun⟩ := Text.exists_isRun_takeWhile Char.isAlphanum (c :: t)
  have hne : (c :: t).takeWhile Char.isAlphanum ≠ [] := by simp [hc]
  have hdrop := Text.drop_length_of_eq_append ht
  by_cases hs : rest.head? = some '*'
  · obtain ⟨rest', rfl⟩ := List.head?_eq_some_iff.mp hs
    have hname : commandName (c :: t) = (c :: t).takeWhile Char.isAlphanum ++ ['*'] := by
      simp only [commandName, hdrop]
      rfl
    refine ⟨rest', ?_, ?_⟩
    · rw [hname, List.append_assoc]
      exact ht
    · rw [hname]
      exact .starred hne hrun.all
  · have hname : commandName (c :: t) = (c :: t).takeWhile Char.isAlphanum := by
      simp only [commandName, hdrop]
      cases rest with
      | nil => simp
      | cons d rest =>
        have hd : d ≠ '*' := by simpa using hs
        simp [hd]
    refine ⟨rest, ?_, ?_⟩
    · rw [hname]
      exact ht
    · rw [hname]
      refine .plain hne hrun hs ?_
      intro d hd hacc hbrace
      rw [hd] at ht
      obtain ⟨rfl, rfl⟩ := List.cons.inj ht
      exact ha ⟨hacc, hbrace⟩

theorem IsName.commandName_append {name rest : Text} (h : IsName rest.head? name) :
    commandName (name ++ rest) = name := by
  cases h with
  | plain hne hrun hs _ =>
    simp only [commandName, hrun.takeWhile_append, List.drop_left]
    cases rest with
    | nil => simp
    | cons d rest =>
      have hd : d ≠ '*' := by simpa using hs
      simp [hd]
  | @starred letters hne hall =>
    have hrun : Text.IsRun Char.isAlphanum letters ('*' :: rest).head? :=
      ⟨hall, by rintro c ⟨⟩; decide⟩
    simp only [commandName, List.append_assoc, List.cons_append, List.nil_append,
      hrun.takeWhile_append, List.drop_left]
    rfl

theorem IsName.exists_cons {name : Text} {after : Option Char} (h : IsName after name) :
    ∃ c l, name = c :: l ∧ c.isAlphanum := by
  have key : ∀ letters : Text, letters ≠ [] → (∀ c ∈ letters, c.isAlphanum) → ∀ star : Text,
      ∃ c l, letters ++ star = c :: l ∧ c.isAlphanum := by
    intro letters hne hall star
    obtain ⟨c, l, rfl⟩ := List.exists_cons_of_ne_nil hne
    exact ⟨c, l ++ star, rfl, hall c List.mem_cons_self⟩
  cases h with
  | plain hne hrun => simpa using key name hne hrun.all []
  | starred hne hall => exact key _ hne hall ['*']

/-- The name of a command is not the mark of a letter accent. -/
theorem IsName.not_letterAccent {c : Char} {l rest : Text} (h : IsName rest.head? (c :: l)) :
    ¬ (isLetterAccent c = true ∧ (l ++ rest).head? = some '{') := by
  intro h₀
  obtain ⟨hacc, hbrace⟩ := h₀
  cases l with
  | nil =>
    generalize hname : [c] = name at h
    cases h with
    | plain _ _ _ ha => exact ha c hname.symm hacc hbrace
    | @starred letters hne _ =>
      have hlen := congrArg List.length hname
      simp only [List.length_cons, List.length_append, List.length_nil] at hlen
      exact hne (List.length_eq_zero_iff.mp (by omega))
  | cons d l =>
    -- The character behind the mark belongs to the name.
    have hd : d = '{' := Option.some.inj hbrace
    subst hd
    generalize hname : c :: '{' :: l = name at h
    have hmem : '{' ∈ name := hname ▸ by simp
    cases h with
    | plain _ hrun _ _ => cases hrun.all _ hmem
    | starred _ hall =>
      rcases List.mem_append.mp hmem with hm | hm
      · cases hall _ hm
      · cases List.mem_singleton.mp hm

section
variable {nested : RegionLexer} {math : Bool}

theorem command_eq_ok_iff {t : Text} {token : Token} :
    command nested math t = .ok token ↔ ∃ as,
      arguments nested math (t.drop (commandName t).length) = .ok as ∧
      token = .command (commandName t) as
        ('\\' :: (commandName t ++ as.flatMap Argument.literal)) := by
  simp only [command, ← commandName.eq_def]
  cases arguments nested math (t.drop (commandName t).length) with
  | error f => simp
  | ok as => simp [eq_comm]

/-- What a command name starts, given the text behind the backslash. -/
theorem isUnit_of_command {c : Char} {t : Text} {token : Token} (hc : c.isAlphanum)
    (ha : ¬ (isLetterAccent c = true ∧ t.head? = some '{'))
    (h : command nested math (c :: t) = .ok token) :
    ∃ rest, '\\' :: c :: t = token.literal ++ rest ∧ IsUnit nested math rest.head? token := by
  obtain ⟨as, has, rfl⟩ := command_eq_ok_iff.mp h
  obtain ⟨rest₀, ht, hname⟩ := exists_isName_commandName hc ha
  have hdrop := Text.drop_length_of_eq_append ht
  rw [hdrop] at has
  obtain ⟨rest, rfl, hall, hn⟩ := arguments_eq_ok_iff.mp has
  rw [List.head?_append] at hname
  refine ⟨rest, (congrArg ('\\' :: ·) ht).trans ?_, .command hname hall hn⟩
  simp [Token.literal]

theorem command_of_isName {name rest : Text} {as : List (Argument Token)}
    (hname : IsName ((as.flatMap Argument.literal).head?.or rest.head?) name)
    (has : ∀ a ∈ as, IsArgument nested math a)
    (hn : ∀ c ∈ rest.head?, Delimiter.ofOpening? c = none) :
    command nested math (name ++ (as.flatMap Argument.literal ++ rest)) =
      .ok (.command name as ('\\' :: (name ++ as.flatMap Argument.literal))) := by
  rw [← List.head?_append] at hname
  have hc := hname.commandName_append
  rw [command_eq_ok_iff]
  refine ⟨as, ?_, ?_⟩
  · rw [hc, List.drop_left]
    exact arguments_eq_ok_iff.mpr ⟨rest, rfl, has, hn⟩
  · rw [hc]

end

end Lexing

end LatexTokens
