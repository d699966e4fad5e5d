import Mathlib.Data.List.Nodup
import Mathlib.Data.List.Perm.Basic
import Mathlib.Data.List.Range

/-!
# Hash tables of chains

A table is the list of each bucket. An entry carries its key, and the hash of the key is its bucket.
-/

namespace Iostash.Util

variable {α κ : Type*}

/-- The first entry with the key in its bucket. -/
def bucketFind [DecidableEq κ] (hash : κ → Nat) (key : α → κ) (table : Nat → List α) (k : κ) : Option α :=
  (table (hash k)).find? fun a => decide (key a = k)

/-- A new entry at the head of its bucket. -/
def bucketAdd (hash : κ → Nat) (key : α → κ) (table : Nat → List α) (a : α) : Nat → List α :=
  fun b => if b = hash (key a) then a :: table b else table b

/-- Each entry is in its bucket, and no two have one key. -/
structure Buckets (hash : κ → Nat) (key : α → κ) (table : Nat → List α) : Prop where
  placed : ∀ b, ∀ a ∈ table b, hash (key a) = b
  distinct : ∀ b, ((table b).map key).Nodup

variable {hash : κ → Nat} {key key' : α → κ} {table : Nat → List α} {a a' : α} {k : κ} {b n : Nat}

namespace Buckets

theorem unique (h : Buckets hash key table) {b' : Nat} (here : a ∈ table b) (there : a' ∈ table b')
    (same : key a = key a') : a = a' := by
  have bucket := h.placed b a here
  rw [same, h.placed b' a' there] at bucket
  subst bucket
  exact List.inj_on_of_nodup_map (h.distinct b') here there same

theorem find_eq_some [DecidableEq κ] (h : Buckets hash key table) :
    bucketFind hash key table k = some a ↔ a ∈ table (hash k) ∧ key a = k := by
  constructor
  · intro found
    exact ⟨List.mem_of_find?_eq_some found, of_decide_eq_true (List.find?_some (p := fun a => decide (key a = k)) found)⟩
  · rintro ⟨here, same⟩
    cases found : bucketFind hash key table k with
    | none => exact absurd (decide_eq_true same) (List.find?_eq_none.mp found a here)
    | some a' =>
      have same' := of_decide_eq_true (List.find?_some (p := fun a => decide (key a = k)) found)
      rw [h.unique (List.mem_of_find?_eq_some found) here (same'.trans same.symm)]

theorem empty : Buckets hash key fun _ => [] := ⟨fun _ _ none => absurd none List.not_mem_nil, fun _ => List.nodup_nil⟩

theorem congr (h : Buckets hash key table) (same : ∀ b, ∀ a ∈ table b, key' a = key a) : Buckets hash key' table := by
  refine ⟨fun b a here => ?_, fun b => ?_⟩
  · rw [same b a here]
    exact h.placed b a here
  · rw [List.map_congr_left (same b)]
    exact h.distinct b

theorem add (h : Buckets hash key table) (new : ∀ b, ∀ a' ∈ table b, key a' ≠ key a) :
    Buckets hash key (bucketAdd hash key table a) := by
  constructor
  · intro b a' here
    unfold bucketAdd at here
    split at here
    · rename_i bucket
      rcases List.mem_cons.mp here with rfl | old
      · exact bucket.symm
      · exact h.placed b a' old
    · exact h.placed b a' here
  · intro b
    unfold bucketAdd
    split
    · rw [List.map_cons, List.nodup_cons]
      refine ⟨fun there => ?_, h.distinct b⟩
      obtain ⟨a', old, same⟩ := List.mem_map.mp there
      exact new b a' old same
    · exact h.distinct b

/-- Entries taken out of their buckets. -/
theorem sub (h : Buckets hash key table) {table' : Nat → List α} (fewer : ∀ b, (table' b).Sublist (table b)) :
    Buckets hash key table' :=
  ⟨fun b a here => h.placed b a ((fewer b).subset here), fun b => ((fewer b).map key).nodup (h.distinct b)⟩

end Buckets

theorem mem_bucketAdd : a' ∈ bucketAdd hash key table a b ↔ a' ∈ table b ∨ a' = a ∧ b = hash (key a) := by
  unfold bucketAdd
  split
  · rename_i bucket
    rw [List.mem_cons, or_comm]
    simp [bucket]
  · rename_i other
    simp [other]

/-- The entries of the first `n` buckets. -/
def entries (table : Nat → List α) (n : Nat) : List α := (List.range n).flatMap table

theorem entries_succ : entries table (n + 1) = entries table n ++ table n := by
  simp [entries, List.range_succ]

theorem entries_add (inside : hash (key a) < n) :
    (entries (bucketAdd hash key table a) n).Perm (a :: entries table n) := by
  have before : ∀ m, m ≤ hash (key a) → entries (bucketAdd hash key table a) m = entries table m := by
    intro m le
    refine List.flatMap_congr fun b here => ?_
    have ne : b ≠ hash (key a) := Nat.ne_of_lt (Nat.lt_of_lt_of_le (List.mem_range.mp here) le)
    exact if_neg ne
  induction n with
  | zero => exact absurd inside (Nat.not_lt_zero _)
  | succ n ih =>
    rw [entries_succ, entries_succ]
    by_cases here : n = hash (key a)
    · rw [before n (Nat.le_of_eq here), bucketAdd, if_pos here]
      exact List.perm_middle
    · rw [bucketAdd, if_neg here]
      exact (ih (by omega)).append_right (table n)

end Iostash.Util
