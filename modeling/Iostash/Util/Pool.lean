import Iostash.Util.Run
import Mathlib.Algebra.GroupWithZero.Nat
import Mathlib.Algebra.Order.BigOperators.Group.List
import Mathlib.Algebra.Order.Group.Nat

/-!
# Threads on a shared state

A pool is a state and the threads that work on it, each at the place it has come to. A step takes any
thread that is not blocked and puts in its place what it goes on as, with the threads it has started.
-/

namespace Iostash.Util

variable {σ τ ε : Type*}

structure Pool (σ τ : Type*) where
  shared : σ
  threads : List τ

namespace Pool

/-- The step of the `act.1`-th thread, with `act.2` for what the environment answers. -/
def exec (run : τ → ε → σ → Option (σ × List τ)) (p : Pool σ τ) (act : Nat × ε) : Option (Pool σ τ) :=
  p.threads[act.1]?.bind fun t => (run t act.2 p.shared).map fun r =>
    ⟨r.1, p.threads.take act.1 ++ (r.2 ++ p.threads.drop (act.1 + 1))⟩

/-- What the threads weigh together. -/
def total (weight : τ → Nat) (p : Pool σ τ) : Nat := (p.threads.map weight).sum

/-- The thread `t` goes on as `new`, and `others` are the threads beside it. -/
structure Moves (p : Pool σ τ) (t : τ) (new others : List τ) (p' : Pool σ τ) : Prop where
  before : ∀ weight, p.total weight = weight t + (others.map weight).sum
  after : ∀ weight, p'.total weight = (new.map weight).sum + (others.map weight).sum
  mem : ∀ u, u ∈ p.threads ↔ u = t ∨ u ∈ others
  mem' : ∀ u, u ∈ p'.threads ↔ u ∈ new ∨ u ∈ others

variable {run : τ → ε → σ → Option (σ × List τ)} {p p' : Pool σ τ} {act : Nat × ε} {weight : τ → Nat}

theorem exec_moves (moves : p.exec run act = some p') : ∃ t new others,
    p.threads[act.1]? = some t ∧ run t act.2 p.shared = some (p'.shared, new) ∧ p.Moves t new others p' := by
  obtain ⟨t, here, step⟩ := Option.bind_eq_some_iff.mp moves
  obtain ⟨⟨s', new⟩, ran, rfl⟩ := Option.map_eq_some_iff.mp step
  obtain ⟨lt, rfl⟩ := id (List.getElem?_eq_some_iff.mp here)
  have split : p.threads = p.threads.take act.1 ++ p.threads[act.1] :: p.threads.drop (act.1 + 1) := by
    rw [List.getElem_cons_drop, List.take_append_drop]
  refine ⟨p.threads[act.1], new, p.threads.take act.1 ++ p.threads.drop (act.1 + 1), here, ran, ?_, ?_, ?_, ?_⟩
  · intro weight
    unfold total
    rw [congrArg (List.map weight) split]
    simp only [List.map_append, List.map_cons, List.sum_append, List.sum_cons]
    omega
  · intro weight
    simp only [total, List.map_append, List.sum_append]
    omega
  · intro u
    rw [congrArg (u ∈ ·) split]
    simp only [List.mem_append, List.mem_cons]
    tauto
  · intro u
    simp only [List.mem_append]
    tauto

theorem total_eq_zero : p.total weight = 0 ↔ ∀ t ∈ p.threads, weight t = 0 := by
  unfold total
  rw [List.sum_eq_zero_iff]
  simp

theorem total_pos {t : τ} (member : t ∈ p.threads) (pos : 0 < weight t) : 0 < p.total weight := by
  refine Nat.pos_of_ne_zero fun zero => ?_
  rw [total_eq_zero.mp zero t member] at pos
  exact Nat.lt_irrefl 0 pos

end Pool

end Iostash.Util
