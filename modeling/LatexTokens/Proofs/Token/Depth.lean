import Mathlib.Order.Nat
import LatexTokens.Proofs.Setting.Keeping

/-!
# How deep the regions of a token nest

A block, a formula, brackets and each argument of a command are regions of their own; accents and
scripts are not. Settings have the depth of the body they are read from
(`OptionValue.regionDepth_of_ofTokens`), though they leave tokens of it out.
-/

set_option autoImplicit false

namespace LatexTokens

/-- Whether the tokens directly inside a token are in a region, or some regions, of its own. -/
def Token.enclosesRegions : Token → Bool
  | math .. | block .. | bracket .. => true
  | command _ as _ => !as.isEmpty
  | _ => false

/-- The largest number of regions of a token that are nested in each other. -/
def Token.regionDepth (t : Token) : Nat :=
  (t.parts.attach.map fun ⟨p, h⟩ =>
    have := sizeOf_lt_of_mem_parts h
    p.2.regionDepth).foldr max 0 + if t.enclosesRegions then 1 else 0
termination_by sizeOf t

/-- The largest number of regions that are nested in each other in some tokens. -/
def regionDepth (ts : List Token) : Nat := (ts.map Token.regionDepth).foldr max 0

theorem regionDepth_le_iff {ts : List Token} {n : Nat} :
    regionDepth ts ≤ n ↔ ∀ t ∈ ts, t.regionDepth ≤ n := by
  induction ts with
  | nil => simp [regionDepth]
  | cons t ts ih =>
    rw [List.forall_mem_cons, ← ih]
    exact Nat.max_le

theorem regionDepth_singleton (t : Token) : regionDepth [t] = t.regionDepth := Nat.max_zero _

theorem Token.regionDepth_eq (t : Token) : t.regionDepth =
    LatexTokens.regionDepth (t.parts.map Prod.snd) + if t.enclosesRegions then 1 else 0 := by
  rw [regionDepth, List.map_subtype (fun _ _ => rfl), List.unattach_attach]
  simp only [LatexTokens.regionDepth, List.map_map]
  rfl

theorem Token.regionDepth_add_le_of_mem_parts {t : Token} {p : Role × Token} (h : p ∈ t.parts) :
    p.2.regionDepth + (if t.enclosesRegions then 1 else 0) ≤ t.regionDepth := by
  have hparts := regionDepth_le_iff.mp (Nat.le_refl _) p.2 (List.mem_map_of_mem h)
  rw [t.regionDepth_eq]
  exact Nat.add_le_add_right hparts _

theorem map_snd_map_pair (role : Role) (ts : List Token) :
    (ts.map fun t => (role, t)).map Prod.snd = ts := by
  rw [List.map_map]
  exact List.map_id' ts

namespace Token

theorem regionDepth_of_children {t : Token} (h : t.arguments = []) : t.regionDepth =
    LatexTokens.regionDepth t.children + if t.enclosesRegions then 1 else 0 := by
  rw [regionDepth_eq, parts, h, List.flatMap_nil, List.append_nil, map_snd_map_pair]

@[simp] theorem regionDepth_math (position : MathPosition) (ts : List Token) (l : Text) :
    (math position ts l).regionDepth = LatexTokens.regionDepth ts + 1 :=
  regionDepth_of_children rfl

@[simp] theorem regionDepth_block (ts : List Token) (l : Text) :
    (block ts l).regionDepth = LatexTokens.regionDepth ts + 1 := regionDepth_of_children rfl

@[simp] theorem regionDepth_bracket (ts : List Token) (l : Text) :
    (bracket ts l).regionDepth = LatexTokens.regionDepth ts + 1 := regionDepth_of_children rfl

@[simp] theorem regionDepth_accent (form : AccentForm) (mark : Char) (body : Token) (l : Text) :
    (accent form mark body l).regionDepth = body.regionDepth :=
  (regionDepth_of_children rfl).trans (regionDepth_singleton body)

@[simp] theorem regionDepth_script (kind : ScriptKind) (body : Token) (l : Text) :
    (script kind body l).regionDepth = body.regionDepth :=
  (regionDepth_of_children rfl).trans (regionDepth_singleton body)

theorem regionDepth_of_leaf {t : Token} (ha : t.arguments = []) (hc : t.children = [])
    (he : t.enclosesRegions = false) : t.regionDepth = 0 := by
  rw [regionDepth_of_children ha, hc, he]
  rfl

theorem regionDepth_ofText (l : Text) : (ofText l).regionDepth = 0 := regionDepth_of_leaf rfl rfl rfl

theorem regionDepth_of_isDroppable {t : Token} (h : t.isDroppable) : t.regionDepth = 0 := by
  cases t with
  | comment | content => exact regionDepth_of_leaf rfl rfl rfl
  | _ => cases h

end Token

/-- The depth of the tokens of an argument, with its own region. -/
def Argument.regionDepth (a : Argument Token) : Nat :=
  LatexTokens.regionDepth (a.parts.map Prod.snd) + 1

@[simp] theorem Argument.regionDepth_required (ts : List Token) (l : Text) :
    (required ts l).regionDepth = LatexTokens.regionDepth ts + 1 := by
  rw [Argument.regionDepth, parts, map_snd_map_pair]

theorem Token.regionDepth_command_le_iff {name l : Text} {as : List (Argument Token)} {n : Nat} :
    (command name as l).regionDepth ≤ n ↔ ∀ a ∈ as, a.regionDepth ≤ n := by
  cases as with
  | nil => simp [regionDepth_of_leaf (t := command name [] l) rfl rfl rfl]
  | cons a as =>
    have hparts : (command name (a :: as) l).parts = (a :: as).flatMap Argument.parts := rfl
    rw [regionDepth_eq, hparts, enclosesRegions, List.isEmpty_cons, Bool.not_false, if_pos rfl]
    cases n with
    | zero => exact iff_of_false (Nat.not_succ_le_zero _) fun h =>
        Nat.not_succ_le_zero _ (h a List.mem_cons_self)
    | succ n =>
      simp only [Argument.regionDepth, Nat.add_le_add_iff_right, regionDepth_le_iff,
        List.forall_mem_map, List.forall_mem_flatMap]

/-- Settings are as deep as the body they are read from: only text and comments are dropped, and
only text is new. -/
theorem OptionValue.regionDepth_of_ofTokens {ts : List Token} {value : OptionValue Token}
    (h : ofTokens ts = .ok value) (l : Text) :
    (Argument.optional value l).regionDepth = regionDepth ts + 1 := by
  rw [Argument.regionDepth]
  congr 1
  rcases cases_of_ofTokens h with ⟨kvs, hm, rfl⟩ | ⟨t, rfl, _, rfl⟩ | rfl
  · apply eq_of_forall_ge_iff
    intro n
    simp only [regionDepth_le_iff, Argument.parts, List.forall_mem_map, List.forall_mem_flatMap]
    constructor
    · intro hvalues t ht
      cases hd : t.isDroppable with
      | true =>
        rw [Token.regionDepth_of_isDroppable hd]
        exact Nat.zero_le n
      | false =>
        obtain ⟨kv, hkv, ht⟩ := exists_mem_value hm ht hd
        exact hvalues kv hkv t ht
    · intro hts kv hkv t ht
      rcases comesFrom_of_mapM_read hm kv hkv t ht with ht | ⟨l, rfl⟩
      · exact hts t ht
      · rw [Token.regionDepth_ofText]
        exact Nat.zero_le n
  · rfl
  · rw [Argument.parts, map_snd_map_pair]

end LatexTokens
