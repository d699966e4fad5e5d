import Mathlib.Data.List.Basic

/-!
# Logs of recent entries

A fixed number of cells is written round and round. The entry written `k` writes ago stands `k + 1`
cells before the head, and it is there as long as it has not been written over.
-/

namespace Iostash.Util.Recent

variable {α : Type*} {cap head k : Nat} {cell : Nat → α} {x : α} {hist : List α}

/-- The cell of the entry written `k` writes ago. -/
def back (cap head k : Nat) : Nat := if k + 1 ≤ head then head - (k + 1) else cap - (k + 1 - head)

/-- The cell after the head. -/
def next (cap head : Nat) : Nat := if head + 1 = cap then 0 else head + 1

/-- The cells hold the newest entries of a history, which has its newest entry first. -/
structure Holds (cap : Nat) (cell : Nat → α) (head : Nat) (hist : List α) : Prop where
  inside : head < cap
  recent : ∀ k x, k < cap → hist[k]? = some x → cell (back cap head k) = x

theorem next_lt (inside : head < cap) : next cap head < cap := by
  unfold next
  split <;> omega

theorem back_next_zero : back cap (next cap head) 0 = head := by
  unfold back next
  split <;> split <;> omega

theorem back_next_succ (near : k + 1 < cap) : back cap (next cap head) (k + 1) = back cap head k := by
  unfold back next
  split <;> split <;> split <;> omega

/-- An entry that is still there is not where the next one is written. -/
theorem back_ne (near : k + 1 < cap) : back cap head k ≠ head := by
  unfold back
  split <;> omega

theorem Holds.empty (pos : 0 < cap) : Holds cap cell 0 [] := ⟨pos, fun _ _ _ here => nomatch here⟩

theorem Holds.put (h : Holds cap cell head hist) (x : α) :
    Holds cap (fun j => if j = head then x else cell j) (next cap head) (x :: hist) := by
  refine ⟨next_lt h.inside, ?_⟩
  intro k y near here
  cases k with
  | zero =>
    rw [back_next_zero, if_pos rfl]
    exact Option.some.inj here
  | succ k =>
    rw [back_next_succ near, if_neg (back_ne near)]
    exact h.recent k y (by omega) here

end Iostash.Util.Recent
