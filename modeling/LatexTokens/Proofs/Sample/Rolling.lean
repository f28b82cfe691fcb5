import LatexTokens.Proofs.Offset.Cut
import LatexTokens.Sample

/-!
# Rolling a sample

The samples come from a generator of random documents, in which eight weights say how often a
paragraph takes an item of each kind. The generator is modelled with the dice as a parameter: they
give numbers in a range and draw places from a row of weights, and may carry any state.

With one weight that is not zero there is one thing to draw (`gives_items`). Paragraphs are then
equal, and the loop over them stops after the least number that reaches the wanted size
(`gives_paragraphs`), which is the number that `Sample.paragraphCount` computes.
-/

set_option autoImplicit false

namespace LatexTokens

/-- A source of random numbers. Weights that add up to nothing cannot be drawn from. -/
structure Dice (ρ : Type) where
  /-- A number from a range, without its end. -/
  between (low high : Nat) : low < high → ρ → {n // low ≤ n ∧ n < high} × ρ
  /-- A place in a row of weights, more often one with a greater weight. -/
  place? {n : Nat} (weights : Vector UInt32 n) : Option (ρ → Fin n × ρ)

namespace Dice

/-- What is promised of the places: weights that are not all zero can be drawn from while a word
can hold their sum, and a place with the weight zero is never drawn. -/
def DrawsByWeight {ρ : Type} (dice : Dice ρ) : Prop :=
  ∀ {n : Nat} (weights : Vector UInt32 n), (weights.map UInt32.toNat).sum < UInt32.size →
    (∃ i, weights.get i ≠ 0) →
      ∃ draw, dice.place? weights = some draw ∧ ∀ s, weights.get (draw s).1 ≠ 0

/-- Dice that give the lowest number and the first place whose weight is not zero. -/
def lowest : Dice Unit where
  between low _ h s := (⟨low, Nat.le_refl low, h⟩, s)
  place? {n} weights :=
    ((List.finRange n).find? fun i => weights.get i ≠ 0).map fun i s => (i, s)

theorem drawsByWeight_lowest : lowest.DrawsByWeight := by
  intro n weights _ hweights
  obtain ⟨i, hi⟩ := hweights
  cases hfind : (List.finRange n).find? fun i => decide (weights.get i ≠ 0) with
  | none => exact absurd (decide_eq_true hi) (List.find?_eq_none.mp hfind i (List.mem_finRange i))
  | some j =>
    have hj : weights.get j ≠ 0 := by simpa using List.find?_some hfind
    exact ⟨fun s => (j, s), congrArg (Option.map _) hfind, fun _ => hj⟩

end Dice

/-- A result that depends on rolls of the dice. There is none where the generator panics. -/
abbrev Rolling (ρ α : Type) := StateT ρ Option α

namespace Rolling
variable {ρ α β : Type}

def between (dice : Dice ρ) (low high : Nat) (h : low < high) :
    Rolling ρ {n // low ≤ n ∧ n < high} :=
  fun s => some (dice.between low high h s)

/-- Prepares weights to draw places from them. -/
def weighed (dice : Dice ρ) {n : Nat} (weights : Vector UInt32 n) :
    Rolling ρ (Rolling ρ (Fin n)) := do
  let draw ← StateT.lift (dice.place? weights)
  return fun s => some (draw s)

def oneOf (dice : Dice ρ) (texts : List Text) (h : 0 < texts.length) : Rolling ρ Text := do
  let i ← between dice 0 texts.length h
  return texts.get ⟨i.1, i.2.2⟩

/-- The texts of so many rolls, one behind the other. -/
def repeated (roll : Rolling ρ Text) : Nat → Rolling ρ Text
  | 0 => pure []
  | n + 1 => do
    let first ← roll
    return first ++ (← repeated roll n)

/-- Whether every roll gives the same. -/
def Gives (roll : Rolling ρ α) (a : α) : Prop := ∀ s, ∃ s', roll s = some (a, s')

theorem gives_pure (a : α) : Gives (pure a : Rolling ρ α) a := fun s => ⟨s, rfl⟩

theorem Gives.bind {roll : Rolling ρ α} {next : α → Rolling ρ β} {a : α} {b : β}
    (h : Gives roll a) (hnext : Gives (next a) b) : Gives (roll >>= next) b := by
  intro s
  obtain ⟨s₁, hroll⟩ := h s
  obtain ⟨s₂, hresult⟩ := hnext s₁
  refine ⟨s₂, ?_⟩
  change (roll s).bind (fun r => next r.1 r.2) = _
  rw [hroll]
  exact hresult

theorem gives_guard {P : Prop} [Decidable P] (h : P) : Gives (guard P : Rolling ρ Unit) () := by
  rw [guard, if_pos h]
  exact gives_pure ()

theorem Gives.repeated {roll : Rolling ρ Text} {t : Text} (h : Gives roll t) (n : Nat) :
    Gives (repeated roll n) (List.replicate n t).flatten := by
  induction n with
  | zero => exact gives_pure []
  | succ n ih => exact h.bind (ih.bind (gives_pure _))

end Rolling

namespace Sample
open Rolling

/-- How often a paragraph takes an item of each kind. -/
structure Weights where
  word : UInt32
  space : UInt32
  escape : UInt32
  command : UInt32
  group : UInt32
  formula : UInt32
  comment : UInt32
  alignment : UInt32
  deriving DecidableEq, Repr

namespace Weights

def row (w : Weights) : Vector UInt32 8 :=
  #v[w.word, w.space, w.escape, w.command, w.group, w.formula, w.comment, w.alignment]

/-- All weights zero but that of one filler. -/
def only (f : Filler) (weight : UInt32) : Weights where
  word := 0
  space := if f = .space then weight else 0
  escape := 0
  command := 0
  group := 0
  formula := 0
  comment := if f = .comment then weight else 0
  alignment := if f = .alignment then weight else 0

end Weights

def escapes : List Text :=
  ["\\%", "\\&", "\\$", "\\#", "\\\x7b", "\\\x7d"].map String.toList

def commandNames : List Text :=
  ["textbf", "emph", "section", "label", "ref", "cite", "alpha", "beta", "frac", "sqrt", "item",
    "includegraphics", "hspace", "mathbb", "left", "right"].map String.toList

def formulas : List Text :=
  ["$x^2 + y_\x7bi\x7d$", "\\[ \\frac\x7ba\x7d\x7bb\x7d \\]", "$\\alpha_1$",
    "$$\\sum_\x7bn=1\x7d^\x7b\\infty\x7d n$$"].map String.toList

/-- How deep groups are nested at most. -/
def maxDepth : Nat := 3

section
variable {ρ : Type} (dice : Dice ρ)

def rollWord : Rolling ρ Text := do
  let n ← between dice 1 10 (by decide)
  repeated (do return [Char.ofNat (97 + (← between dice 0 26 (by decide)).1)]) n.1

/-- A group of a few items, given how so many items are rolled. -/
def rollGroup (items : Nat → Rolling ρ Text) : Rolling ρ Text := do
  let n ← between dice 1 8 (by decide)
  return '{' :: (← items n.1) ++ ['}']

/-- A command, often with a group behind it if groups can be rolled. Otherwise a space keeps a
word that follows out of its name. -/
def rollCommand (group? : Option (Rolling ρ Text)) : Rolling ρ Text := do
  let name ← oneOf dice commandNames (by decide)
  let optional :=
    if (← between dice 0 4 (by decide)).1 = 0 then "[width=3cm, angle=90]".toList else []
  let rest ← match group? with
    | none => pure [' ']
    | some group => do
      if (← between dice 0 2 (by decide)).1 = 0 then group else return [' ']
  return '\\' :: name ++ optional ++ rest

/-- An item of a kind, the kinds in the order of the weights. Groups and comments are left out
where they cannot be. -/
def rollItem (outermost : Bool) (group? : Option (Rolling ρ Text)) : Fin 8 → Rolling ρ Text
  | 0 => rollWord dice
  | 1 => pure (item .space)
  | 2 => oneOf dice escapes (by decide)
  | 3 => rollCommand dice group?
  | 4 => group?.getD (pure [])
  | 5 => oneOf dice formulas (by decide)
  | 6 => pure (if outermost then item .comment else [])
  | 7 => pure (item .alignment)

variable (weights : Weights)

/-- Items in a row, at a depth at which so many more levels of groups are possible. -/
def rollItems : Nat → Nat → Rolling ρ Text
  | levels, n => do
    let place ← weighed dice weights.row
    let group? := match levels with
      | 0 => none
      | levels + 1 => some (rollGroup dice (rollItems levels))
    repeated (do rollItem dice (levels = maxDepth) group? (← place)) n

variable (least most : Nat)

/-- The number of items of a paragraph. A range whose end is no word cannot be rolled from. -/
def rollLength : Rolling ρ Nat :=
  if h : most ≤ least then pure most
  else do
    guard (most + 1 < wordSize)
    return (← between dice least (most + 1) (by omega)).1

/-- Adds paragraphs to a text until it has a size. -/
def rollParagraphs (wanted : Nat) (text : Text) : Rolling ρ Text :=
  if text.size < wanted then do
    let n ← rollLength dice least most
    let items ← rollItems dice weights maxDepth n
    rollParagraphs wanted (text ++ (items ++ ['\n', '\n']))
  else pure text
termination_by wanted - text.size
decreasing_by
  have hbreak : Text.size ['\n', '\n'] = 2 := rfl
  simp only [Text.size_append]
  omega

/-- A random document of at least a size. Room for it and some more is made at first. -/
def generate (wanted : Nat) : Rolling ρ Text := do
  guard (wanted + 1000 < bufferLimit)
  return (← rollParagraphs dice weights least most wanted preamble) ++ ending

end

/-! ## With one weight -/

/-- The place of a filler among the weights. -/
def place : Filler → Fin 8
  | .space => 1
  | .comment => 6
  | .alignment => 7

theorem get_row_only (f : Filler) (weight : UInt32) (i : Fin 8) :
    (Weights.only f weight).row.get i = if i = place f then weight else 0 := by
  cases f <;> fin_cases i <;> rfl

theorem sum_row_only (f : Filler) (weight : UInt32) :
    ((Weights.only f weight).row.map UInt32.toNat).sum = weight.toNat := by
  cases f <;> simp [Weights.only, Weights.row]

theorem size_flatten_replicate (n : Nat) (t : Text) :
    Text.size (List.replicate n t).flatten = n * t.size := by
  induction n with
  | zero => simp
  | succ n ih =>
    rw [List.replicate_succ, List.flatten_cons, Text.size_append, ih, Nat.succ_mul, Nat.add_comm]

theorem size_paragraph (n : Nat) (f : Filler) :
    (paragraph n f).size = n * (item f).size + 2 := by
  rw [paragraph, Text.size_append, size_flatten_replicate]
  rfl

theorem paragraphCount_le_iff (wanted fillers n : Nat) (f : Filler) :
    paragraphCount wanted fillers f ≤ n ↔
      wanted ≤ preamble.size + n * (paragraph fillers f).size := by
  have hpos : 0 < (paragraph fillers f).size := by
    rw [size_paragraph]
    omega
  rw [paragraphCount, Nat.div_le_iff_le_mul_add_pred hpos, Nat.mul_comm]
  omega

theorem isLeast_paragraphCount (wanted fillers : Nat) (f : Filler) :
    IsLeast {n | wanted ≤ preamble.size + n * (fillers * (item f).size + 2)}
      (paragraphCount wanted fillers f) := by
  rw [← size_paragraph]
  constructor
  · exact (paragraphCount_le_iff wanted fillers _ f).mp (Nat.le_refl _)
  · intro n hn
    exact (paragraphCount_le_iff wanted fillers n f).mpr hn

section
variable {ρ : Type} {dice : Dice ρ}

theorem gives_item (f : Filler) (group? : Option (Rolling ρ Text)) :
    Gives (rollItem dice true group? (place f)) (item f) := by
  cases f <;> exact gives_pure _

/-- Of weights that are all zero but one, its place is drawn each time. -/
theorem exists_gives_weighed (h : dice.DrawsByWeight) {n : Nat} {weights : Vector UInt32 n}
    (hsum : (weights.map UInt32.toNat).sum < UInt32.size) {i : Fin n} (hi : weights.get i ≠ 0)
    (hothers : ∀ j, weights.get j ≠ 0 → j = i) :
    ∃ draw, Gives (weighed dice weights) draw ∧ Gives draw i := by
  obtain ⟨draw, hdraw, hplace⟩ := h weights hsum ⟨i, hi⟩
  refine ⟨fun s => some (draw s), fun s => ⟨s, ?_⟩, fun s => ⟨(draw s).2, ?_⟩⟩
  · rw [weighed, hdraw]
    rfl
  · exact congrArg some (Prod.ext (hothers _ (hplace s)) rfl)

theorem gives_items (h : dice.DrawsByWeight) {weight : UInt32} (hw : weight ≠ 0) (f : Filler)
    (n : Nat) :
    Gives (rollItems dice (.only f weight) maxDepth n) (List.replicate n (item f)).flatten := by
  have hsum := (sum_row_only f weight).trans_lt weight.toNat_lt
  have hplace : (Weights.only f weight).row.get (place f) ≠ 0 := by
    rwa [get_row_only, if_pos rfl]
  have hothers (i : Fin 8) (hi : (Weights.only f weight).row.get i ≠ 0) : i = place f := by
    rw [get_row_only] at hi
    exact (ite_ne_right_iff.mp hi).1
  obtain ⟨draw, hweighed, hdraw⟩ := exists_gives_weighed h hsum hplace hothers
  unfold rollItems
  exact hweighed.bind ((hdraw.bind (gives_item f _)).repeated n)

/-- The loop over paragraphs that are all equal ends after the least number of them with which the
text has the wanted size. -/
theorem gives_paragraphs {weights : Weights} {least most wanted : Nat} (hbounds : most ≤ least)
    {items : Text} (hitems : Gives (rollItems dice weights maxDepth most) items) {n : Nat}
    {text : Text}
    (hn : ∀ k, n ≤ k ↔ wanted ≤ text.size + k * (items ++ ['\n', '\n']).size) :
    Gives (rollParagraphs dice weights least most wanted text)
      (text ++ (List.replicate n (items ++ ['\n', '\n'])).flatten) := by
  -- Each round puts one paragraph behind the text and leaves one less to come.
  induction n generalizing text with
  | zero =>
    have henough := (hn 0).mp (Nat.le_refl 0)
    rw [Nat.zero_mul, Nat.add_zero] at henough
    rw [rollParagraphs, if_neg (Nat.not_lt.mpr henough), List.replicate_zero, List.flatten_nil,
      List.append_nil]
    exact gives_pure text
  | succ n ih =>
    have hmore : text.size < wanted := by
      have h := (hn 0).not.mp (Nat.not_succ_le_zero n)
      omega
    have hlength : Gives (rollLength dice least most) most := by
      rw [rollLength, dif_pos hbounds]
      exact gives_pure most
    rw [rollParagraphs, if_pos hmore, List.replicate_succ, List.flatten_cons, ← List.append_assoc]
    refine hlength.bind (hitems.bind (ih fun k => ?_))
    rw [← Nat.succ_le_succ_iff, hn, Text.size_append text, Nat.succ_mul, Nat.add_assoc,
      Nat.add_comm (k * _)]

/-- The sample is what the generator gives with one weight. -/
theorem gives_document (h : dice.DrawsByWeight) {weight : UInt32} (hw : weight ≠ 0) (f : Filler)
    {wanted least most : Nat} (hroom : wanted + 1000 < bufferLimit) (hbounds : most ≤ least) :
    Gives (generate dice (.only f weight) least most wanted) (document wanted most f) := by
  have hloop := gives_paragraphs hbounds (gives_items h hw f most)
    (fun k => paragraphCount_le_iff wanted most k f)
  exact (gives_guard hroom).bind (hloop.bind (gives_pure _))

end

end Sample

end LatexTokens
