import Mathlib.Data.Int.CardIntervalMod

/-!
# Second-chance clocks

A hand moves over places. Each place may hold a candidate with a count; a visit lowers a positive count
by one, and the candidate whose count is used up is taken. The way of the hand does not depend on the
counts, so what a sweep does is said by how often the hand has been at a place.
-/

namespace Iostash.Util.Clock

variable {α : Type*} [DecidableEq α] {pos : Nat → α} {ref : α → Option Nat} {a : α} {n r t u : Nat}

/-- How often the hand has been at `a` in its first `n` visits. -/
def passes (pos : Nat → α) (a : α) (n : Nat) : Nat := Nat.count (fun t => pos t = a) n

@[simp] theorem passes_zero : passes pos a 0 = 0 := Nat.count_zero _

theorem passes_succ : passes pos a (n + 1) = passes pos a n + if pos n = a then 1 else 0 := Nat.count_succ _ _

theorem passes_mono : Monotone (passes pos a) := Nat.count_monotone _

theorem passes_eq_zero (never : ∀ t, t < n → pos t ≠ a) : passes pos a n = 0 := Nat.count_of_forall_not never

/-- The candidate at the hand is used up at visit `t`. -/
def Due (pos : Nat → α) (ref : α → Option Nat) (t : Nat) : Prop := ∃ r, ref (pos t) = some r ∧ r ≤ passes pos (pos t) t

/-- Visit `t` is the first at which a candidate is used up. -/
def Takes (pos : Nat → α) (ref : α → Option Nat) (t : Nat) : Prop := Due pos ref t ∧ ∀ u, u < t → ¬ Due pos ref u

/-- Until something is taken, no candidate has been visited more often than it counts. -/
theorem passes_le (none : ∀ u, u < t → ¬ Due pos ref u) (candidate : ref a = some r) : passes pos a t ≤ r := by
  induction t with
  | zero => simp
  | succ t ih =>
    have before := ih fun u lt => none u (Nat.lt_succ_of_lt lt)
    rw [passes_succ]
    split
    · rename_i here
      by_contra beyond
      refine none t (Nat.lt_succ_self t) ⟨r, ?_, ?_⟩
      · rw [here]
        exact candidate
      · rw [here]
        omega
    · exact before

theorem Takes.passes_le (h : Takes pos ref t) (candidate : ref a = some r) : passes pos a t ≤ r :=
  Clock.passes_le h.2 candidate

theorem Takes.count (h : Takes pos ref t) : ref (pos t) = some (passes pos (pos t) t) := by
  obtain ⟨r, candidate, used⟩ := h.1
  rw [candidate, Nat.le_antisymm used (h.passes_le candidate)]

theorem exists_takes (due : Due pos ref t) : ∃ u, u ≤ t ∧ Takes pos ref u := by
  classical
  have some : ∃ t, Due pos ref t := ⟨t, due⟩
  exact ⟨Nat.find some, Nat.find_min' some due, Nat.find_spec some, fun u lt => Nat.find_min some lt⟩

/-- Something is taken within `n` visits exactly when a candidate is visited more often than it counts. -/
theorem takes_iff : (∃ t, t < n ∧ Takes pos ref t) ↔ ∃ a r, ref a = some r ∧ r < passes pos a n := by
  constructor
  · rintro ⟨t, lt, takes⟩
    refine ⟨pos t, _, takes.count, ?_⟩
    have more : passes pos (pos t) (t + 1) ≤ passes pos (pos t) n := passes_mono lt
    rw [passes_succ, if_pos rfl] at more
    exact more
  · rintro ⟨a, r, candidate, beyond⟩
    by_contra none
    refine absurd (passes_le (t := n) (fun t lt due => ?_) candidate) (Nat.not_le.mpr beyond)
    obtain ⟨u, le, takes⟩ := exists_takes due
    exact none ⟨u, Nat.lt_of_le_of_lt le lt, takes⟩

/-! ### A hand that goes round -/

/-- The hand goes round the places of `on`, of which there are `size`; `dist` is the distance of a place
from where it starts. -/
structure Ring (pos : Nat → α) (size : Nat) (on : α → Prop) (dist : α → Nat) : Prop where
  mem : ∀ t, on (pos t)
  lt : ∀ a, on a → dist a < size
  at_iff : ∀ t a, on a → (pos t = a ↔ t % size = dist a)

variable {size : Nat} {on : α → Prop} {dist : α → Nat}

theorem Ring.passes (ring : Ring pos size on dist) (here : on a) (n : Nat) :
    passes pos a n = n / size + if dist a < n % size then 1 else 0 := by
  have lt := ring.lt a here
  have small : dist a % size = dist a := Nat.mod_eq_of_lt lt
  have same : (fun t => pos t = a) = fun t => t ≡ dist a [MOD size] := by
    funext t
    rw [ring.at_iff t a here, Nat.ModEq, small]
  have count := Nat.count_modEq_card (b := n) (Nat.zero_lt_of_lt lt) (dist a)
  rw [small] at count
  unfold Clock.passes
  rw [← count]
  simp only [same]

/-- A whole number of rounds visits every place alike. -/
theorem Ring.passes_rounds (ring : Ring pos size on dist) (here : on a)
    (k : Nat) : Clock.passes pos a (size * k) = k := by
  have pos := Nat.zero_lt_of_lt (ring.lt a here)
  rw [ring.passes here, Nat.mul_div_cancel_left k pos, Nat.mul_mod_right]
  simp

omit [DecidableEq α] in
theorem Ring.round (ring : Ring pos size on dist) : ((List.range size).map pos).Nodup ∧
    ∀ a, on a → a ∈ (List.range size).map pos := by
  constructor
  · refine List.Nodup.map_on (fun t before u after same => ?_) List.nodup_range
    have here := (ring.at_iff t (pos t) (ring.mem t)).mp rfl
    have there := (ring.at_iff u (pos t) (ring.mem t)).mp same.symm
    rw [Nat.mod_eq_of_lt (List.mem_range.mp before)] at here
    rw [Nat.mod_eq_of_lt (List.mem_range.mp after)] at there
    exact here.trans there.symm
  · intro a here
    have lt := ring.lt a here
    exact List.mem_map.mpr ⟨dist a, List.mem_range.mpr lt, (ring.at_iff _ _ here).mpr (Nat.mod_eq_of_lt lt)⟩

/-- What is taken has the least pair of count and distance. -/
theorem Ring.least (ring : Ring pos size on dist) (takes : Takes pos ref t) : ref (pos t) = some (t / size) ∧
    dist (pos t) = t % size ∧ ∀ a r, on a → ref a = some r →
      t / size < r ∨ t / size = r ∧ t % size ≤ dist a := by
  have here := (ring.at_iff t (pos t) (ring.mem t)).mp rfl
  refine ⟨?_, here.symm, ?_⟩
  · rw [takes.count, ring.passes (ring.mem t), ← here, if_neg (Nat.lt_irrefl _), Nat.add_zero]
  · intro a r on candidate
    have le := takes.passes_le candidate
    rw [ring.passes on] at le
    split at le
    · exact Or.inl (by omega)
    · rename_i far
      omega

end Iostash.Util.Clock
