import Mathlib.Data.List.Nodup

/-!
# Linked lists threaded through a store

A list is a start word and, for each node, the word that links to its successor. `key` reads the
node a word points to, so a word may carry flag bits besides the pointer; `null` ends the list.
`Seg` is a piece of a list and `Chain` a whole one. The store is only seen through `next`, so an
update of the store is a second function `next'` and the frame is what the two agree on.
-/

namespace Iostash.Util

variable {κ ω : Type*}

/-- Following links from `w` passes exactly the nodes `ks` and arrives at `w'`. -/
inductive Seg (key : ω → κ) (null : ω) (next : κ → ω) : ω → List κ → ω → Prop
  | nil (w : ω) : Seg key null next w [] w
  | cons {w w' : ω} {ks : List κ} : w ≠ null → Seg key null next (next (key w)) ks w' →
      Seg key null next w (key w :: ks) w'

/-- A list that ends. -/
def Chain (key : ω → κ) (null : ω) (next : κ → ω) (w : ω) (ks : List κ) : Prop :=
  Seg key null next w ks null

variable {key : ω → κ} {null : ω} {next next' : κ → ω}

theorem Seg.frame {w w' : ω} {ks : List κ} (h : Seg key null next w ks w')
    (same : ∀ k ∈ ks, next' k = next k) : Seg key null next' w ks w' := by
  induction h with
  | nil w => exact .nil w
  | cons ne tail ih =>
    refine .cons ne ?_
    rw [same _ List.mem_cons_self]
    exact ih fun k member => same k (List.mem_cons_of_mem _ member)

theorem Seg.append {w w' w'' : ω} {ks ks' : List κ} (h : Seg key null next w ks w')
    (h' : Seg key null next w' ks' w'') : Seg key null next w (ks ++ ks') w'' := by
  induction h with
  | nil w => exact h'
  | cons ne _ ih => exact .cons ne (ih h')

/-- Links are a function of the node, so the nodes passed before `null` are determined. -/
theorem Chain.unique {w : ω} {ks ks' : List κ} (h : Chain key null next w ks)
    (h' : Chain key null next w ks') : ks = ks' := by
  induction ks generalizing w ks' with
  | nil =>
    cases h
    cases h' with
    | nil => rfl
    | cons ne _ => exact absurd rfl ne
  | cons k ks ih =>
    cases h with
    | cons ne tail =>
      cases h' with
      | nil => exact absurd rfl ne
      | cons _ tail' => rw [ih tail tail']

theorem chain_null : Chain key null next null [] := .nil null

theorem Chain.eq_nil {ks : List κ} (h : Chain key null next null ks) : ks = [] :=
  h.unique chain_null

theorem Chain.uncons {w : ω} {ks : List κ} (h : Chain key null next w ks) (ne : w ≠ null) :
    ∃ ks', ks = key w :: ks' ∧ Chain key null next (next (key w)) ks' := by
  unfold Chain at h
  cases h with
  | nil => exact absurd rfl ne
  | cons _ tail => exact ⟨_, rfl, tail⟩

theorem Chain.frame {w : ω} {ks : List κ} (h : Chain key null next w ks)
    (same : ∀ k ∈ ks, next' k = next k) : Chain key null next' w ks :=
  Seg.frame h same

theorem Chain.push {w head : ω} {ks : List κ} (h : Chain key null next w ks) (ne : head ≠ null)
    (link : next' (key head) = w) (same : ∀ k ∈ ks, next' k = next k) :
    Chain key null next' head (key head :: ks) :=
  .cons ne (link ▸ h.frame same)

/-- Redirecting the last node's link moves the end of a piece and nothing before it. -/
theorem Seg.redirect {w w' w'' : ω} {ks : List κ} {last : κ}
    (h : Seg key null next w (ks ++ [last]) w') (fresh : last ∉ ks)
    (same : ∀ k ∈ ks, next' k = next k) (link : next' last = w'') :
    Seg key null next' w (ks ++ [last]) w'' := by
  induction ks generalizing w with
  | nil =>
    cases h with
    | cons ne _ => exact .cons ne (by rw [link]; exact .nil _)
  | cons k ks ih =>
    cases h with
    | cons ne tail =>
      refine .cons ne ?_
      rw [same _ List.mem_cons_self]
      exact ih tail (fun member => fresh (List.mem_cons_of_mem _ member))
        (fun k member => same k (List.mem_cons_of_mem _ member))

end Iostash.Util
