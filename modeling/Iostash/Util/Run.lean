import Mathlib.Data.List.Basic

/-!
# Runs of a partial transition function

`exec` is defined on the actions a state can take; `allow` restricts which of them a client takes.
A run lists its actions newest first.
-/

namespace Iostash.Util

variable {σ lab : Type*}

inductive Run (exec : σ → lab → Option σ) (allow : σ → lab → Prop) (start : σ) : List lab → σ → Prop
  | nil : Run exec allow start [] start
  | step {acts : List lab} {s s' : σ} {act : lab} : Run exec allow start acts s → allow s act →
      exec s act = some s' → Run exec allow start (act :: acts) s'

/-- A state some run reaches. -/
def Reachable (exec : σ → lab → Option σ) (allow : σ → lab → Prop) (start s : σ) : Prop :=
  ∃ acts, Run exec allow start acts s

variable {exec : σ → lab → Option σ} {allow allow' : σ → lab → Prop} {start s s' : σ}

theorem Reachable.init : Reachable exec allow start start := ⟨[], .nil⟩

theorem Reachable.next {act : lab} (h : Reachable exec allow start s) (ok : allow s act)
    (moves : exec s act = some s') : Reachable exec allow start s' := by
  obtain ⟨acts, run⟩ := h
  exact ⟨act :: acts, .step run ok moves⟩

/-- What holds at the start and is preserved by every allowed step holds in every reachable state. -/
theorem Reachable.invariant {I : σ → Prop} (h : Reachable exec allow start s) (initial : I start)
    (preserved : ∀ s act s', I s → allow s act → exec s act = some s' → I s') : I s := by
  obtain ⟨acts, run⟩ := h
  induction run with
  | nil => exact initial
  | step _ ok moves ih => exact preserved _ _ _ ih ok moves

/-- A run is no longer than what its steps take from a measure. -/
theorem Run.length_le {I : σ → Prop} {acts : List lab} (run : Run exec allow start acts s) (size : σ → Nat)
    (initial : I start) (step : ∀ s act s', I s → exec s act = some s' → I s' ∧ size s' < size s) :
    I s ∧ acts.length + size s ≤ size start := by
  induction run with
  | nil => exact ⟨initial, by simp⟩
  | step _ _ moves ih =>
    obtain ⟨here, le⟩ := ih
    obtain ⟨there, lt⟩ := step _ _ _ here moves
    refine ⟨there, ?_⟩
    rw [List.length_cons]
    omega

/-- An invariant proved for runs under a weaker restriction holds under a stronger one. -/
theorem Reachable.mono (h : Reachable exec allow start s) (weaker : ∀ s act, allow s act → allow' s act) :
    Reachable exec allow' start s :=
  h.invariant .init fun _ _ _ reached ok moves => reached.next (weaker _ _ ok) moves

theorem Reachable.trans {mid : σ} (h : Reachable exec allow start mid) (h' : Reachable exec allow mid s) :
    Reachable exec allow start s :=
  h'.invariant h fun _ _ _ reached ok moves => reached.next ok moves

/-- Runs a list of actions, oldest first, checking each against a decidable restriction. -/
def execAll (exec : σ → lab → Option σ) (check : σ → lab → Bool) : σ → List lab → Option σ
  | s, [] => some s
  | s, act :: rest => if check s act then (exec s act).bind (execAll exec check · rest) else none

/-- A checked list of actions goes on from a run. -/
theorem Run.execAll {check : σ → lab → Bool} {acts later : List lab} {mid : σ} (run : Run exec allow start acts mid)
    (sound : ∀ s act, check s act = true → allow s act) (h : execAll exec check mid later = some s) :
    Run exec allow start (later.reverse ++ acts) s := by
  induction later generalizing acts mid with
  | nil =>
    obtain rfl : mid = s := Option.some.inj h
    exact run
  | cons act rest ih =>
    unfold Util.execAll at h
    split at h
    · rename_i ok
      obtain ⟨next, moves, tail⟩ := Option.bind_eq_some_iff.mp h
      have longer := ih (run.step (sound _ _ ok) moves) tail
      rwa [List.reverse_cons, List.append_assoc]
    · cases h

/-- The run of a checked list of actions, when every action can be taken. -/
theorem run_getD {check : σ → lab → Bool} {acts : List lab} {other : σ}
    (sound : ∀ s act, check s act = true → allow s act) (ok : (execAll exec check start acts).isSome = true) :
    Run exec allow start acts.reverse ((execAll exec check start acts).getD other) := by
  obtain ⟨s, run⟩ := Option.isSome_iff_exists.mp ok
  rw [run]
  have whole : Run exec allow start (acts.reverse ++ []) s := Run.nil.execAll sound run
  rwa [List.append_nil] at whole

/-- The state a checked list of actions leads to, when every action can be taken. -/
theorem reachable_getD {check : σ → lab → Bool} {acts : List lab} {other : σ}
    (sound : ∀ s act, check s act = true → allow s act) (ok : (execAll exec check start acts).isSome = true) :
    Reachable exec allow start ((execAll exec check start acts).getD other) :=
  ⟨_, run_getD sound ok⟩

end Iostash.Util
