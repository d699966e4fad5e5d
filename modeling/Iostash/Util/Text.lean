import Mathlib.Data.List.Infix

/-!
# Searching a text

`strstr` on texts that end with their list, over any alphabet.
-/

namespace Iostash

namespace Util

variable {α : Type} {needle s t : List α}

/-- The text from the first occurrence of `needle` on. -/
def strstr [DecidableEq α] (needle : List α) : List α → Option (List α)
  | [] => if needle.isPrefixOf [] then some [] else none
  | c :: s => if needle.isPrefixOf (c :: s) then some (c :: s) else strstr needle s

theorem strstr_append [DecidableEq α] (needle t : List α) : strstr needle (needle ++ t) = some (needle ++ t) := by
  have here : needle.isPrefixOf (needle ++ t) = true := List.isPrefixOf_iff_prefix.mpr (List.prefix_append _ _)
  cases whole : needle ++ t with
  | nil =>
    rw [whole] at here
    rw [strstr, if_pos here]
  | cons c s =>
    rw [whole] at here
    rw [strstr, if_pos here]

theorem strstr_eq_none [DecidableEq α] : strstr needle s = none ↔ ¬ needle <:+: s := by
  induction s with
  | nil =>
    unfold strstr
    split
    · rename_i here
      simp [List.isPrefixOf_iff_prefix.mp here |>.isInfix]
    · rename_i none
      simpa [List.isPrefixOf_iff_prefix] using none
  | cons c s ih =>
    unfold strstr
    split
    · rename_i here
      simp [(List.isPrefixOf_iff_prefix.mp here).isInfix]
    · rename_i none
      rw [ih, List.infix_cons_iff]
      have none : ¬ needle <+: c :: s := fun here => none (List.isPrefixOf_iff_prefix.mpr here)
      simp [none]

/-- A text without letters of the needle in front does not matter. -/
theorem infix_append_left (some : needle ≠ []) (clear : ∀ c ∈ t, c ∉ needle) : needle <:+: t ++ s ↔ needle <:+: s := by
  induction t with
  | nil => rfl
  | cons c t ih =>
    rw [List.cons_append, List.infix_cons_iff, ih fun c member => clear c (List.mem_cons_of_mem _ member)]
    refine or_iff_right ?_
    intro here
    cases needle with
    | nil => exact some rfl
    | cons n rest =>
      obtain ⟨rfl, _⟩ := List.cons_prefix_cons.mp here
      exact clear n List.mem_cons_self List.mem_cons_self

theorem infix_append_right (some : needle ≠ []) (clear : ∀ c ∈ t, c ∉ needle) : needle <:+: s ++ t ↔ needle <:+: s := by
  have back : ∀ c ∈ t.reverse, c ∉ needle.reverse := by
    intro c member
    rw [List.mem_reverse] at member ⊢
    exact clear c member
  rw [← List.reverse_infix, List.reverse_append, infix_append_left (by simpa using some) back, List.reverse_infix]

end Util

end Iostash
