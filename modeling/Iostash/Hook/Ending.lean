import Iostash.Hook.Life

/-!
# How a read request ends

What becomes of the base bio, of the hold on the fragment and of the request itself, in every order of
the steps of its threads.
-/

namespace Iostash

open Util

/-- Any thread may take the next step. -/
def Hook.free (_ : Hook) (_ : Nat) : Prop := True

section Outcomes

variable {fate : Fate} {legacy : Bool} {hook : Hook}

theorem Hook.inv_of_reachable (reached : Reachable (Hook.exec fate legacy) Hook.free (.created fate) hook) :
    hook.Inv fate legacy :=
  reached.invariant Hook.inv_created fun _ _ _ h _ moves => h.step moves

/-- Lets the first of the threads run, `n` times. -/
def Hook.drive (fate : Fate) (legacy : Bool) : Nat → Hook → Hook
  | 0, hook => hook
  | _ + 1, ⟨io, []⟩ => ⟨io, []⟩
  | n + 1, ⟨io, t :: rest⟩ => drive fate legacy n ⟨(t.run fate legacy io).1, (t.run fate legacy io).2 ++ rest⟩

theorem Hook.reachable_drive (fate : Fate) (legacy : Bool) {start : Hook} (n : Nat) :
    ∀ hook, Reachable (Hook.exec fate legacy) Hook.free start hook →
      Reachable (Hook.exec fate legacy) Hook.free start (hook.drive fate legacy n) := by
  induction n with
  | zero =>
    intro hook reached
    exact reached
  | succ n ih =>
    rintro ⟨io, threads⟩ reached
    cases threads with
    | nil => exact reached
    | cons t rest => exact ih _ (reached.next (show Hook.free _ 0 from trivial) rfl)

theorem Hook.fair_of_reachable (even : ¬ fate.overdrawn)
    (reached : Reachable (Hook.exec fate legacy) Hook.free (.created fate) hook) :
    hook.Inv fate legacy ∧ hook.Fair fate :=
  reached.invariant (I := fun hook => hook.Inv fate legacy ∧ hook.Fair fate) ⟨Hook.inv_created, Hook.fair_created⟩
    fun _ _ _ ⟨h, fair⟩ _ moves => ⟨h.step moves, fair.step even h moves⟩

/-- Once the base bio is completed every busy thread is gone. -/
theorem Hook.Inv.idle (h : hook.Inv fate legacy) (ended : hook.shared.endios ≠ [] ∨ hook.threads = []) :
    hook.total Thread.busy = 0 := by
  refine Pool.total_eq_zero.mpr fun t member => ?_
  cases tail : t.isTail with
  | true => simp [Thread.busy, tail]
  | false =>
    rcases ended with ended | empty
    · exact absurd (h.now t member tail).1 ended
    · rw [empty] at member
      cases member

theorem Hook.drive_ends (fate : Fate) (legacy : Bool) :
    ((created fate).drive fate legacy 17).threads = [] ∧
      (fate.leak = 0 → ((created fate).drive fate legacy 17).shared.endios ≠ []) ∧
      (fate.overdrawn → ((created fate).drive fate legacy 17).shared.ioPending = -1) := by
  unfold Fate.leak Fate.overdrawn Fate.flows
  cases ssd : fate.clone4ssd <;> cases online : fate.cloneOnline <;> cases hdd : fate.clone4hdd <;>
    by_cases good : fate.ssdError = 0 <;>
    simp [drive, created, Request.blank, Request.ioAlloc, Thread.run, Request.incPending, Request.decPending,
      Request.release, Request.put4read, ssd, online, hdd, good]

theorem Fate.leak_eq_zero : fate.leak = 0 ↔ ¬ (fate.retries ∧ fate.clone4hdd = false) := by
  unfold leak retries reads
  cases fate.clone4ssd <;> cases fate.cloneOnline <;> cases fate.clone4hdd <;>
    by_cases good : fate.ssdError = 0 <;> simp [good]

end Outcomes

/-! ### The life of the request -/

/-- The request is released once, when no thread is left to use it, and its base bio completed with it. -/
structure Hook.Sane (hook : Hook) : Prop where
  count : 0 ≤ hook.shared.ioPending
  once : hook.shared.released ≤ 1
  endio : hook.shared.endios.length = hook.shared.released
  last : hook.shared.released = 1 ↔ hook.threads = []

theorem Thread.At.refs_nonneg {fate : Fate} {t : Thread} {io : Request} {refs : Int} {tails : Nat}
    (here : t.At fate io refs tails) : 0 ≤ refs := by
  cases t <;> simp only [At] at here <;> omega

/-- Every run of a request ends, and it is released once and by the last thread exactly when the HDD is not
asked for an SSD gone offline and a retry gets its clone. -/
theorem Hook.life_iff (fate : Fate) (legacy : Bool) :
    ((∀ hook, Reachable (Hook.exec fate legacy) Hook.free (.created fate) hook → hook.Sane) ↔
      ¬ (fate.flows ∧ fate.clone4hdd = true) ∧ ¬ (fate.retries ∧ fate.clone4hdd = false)) ∧
    ∀ acts hook, Run (Hook.exec fate legacy) Hook.free (.created fate) acts hook → acts.length ≤ 17 := by
  constructor
  · rw [← Fate.leak_eq_zero]
    obtain ⟨empty, ended, count⟩ := drive_ends fate legacy
    constructor
    · intro sane
      have final := sane _ (reachable_drive fate legacy 17 _ .init)
      have even : ¬ fate.overdrawn := by
        intro below
        have pending := final.count
        rw [count below] at pending
        cases pending
      refine ⟨even, ?_⟩
      obtain ⟨h, fair⟩ := fair_of_reachable even (reachable_drive fate legacy 17 _ .init)
      have idle := h.idle (Or.inr empty)
      rcases fair idle with ⟨kept, _⟩ | ⟨leak, _⟩
      · rw [final.last.mpr empty] at kept
        cases kept
      · exact leak
    · rintro ⟨even, leak⟩ hook reached
      obtain ⟨h, fair⟩ := fair_of_reachable even reached
      by_cases busy : hook.total Thread.busy = 0
      · rcases fair busy with ⟨kept, open_, held, pos⟩ | ⟨_, released, completed, zero, empty⟩
        · refine ⟨by omega, by omega, by rw [open_, kept]; rfl, by omega, fun empty => ?_⟩
          have none : hook.total Thread.tail = 0 := Pool.total_eq_zero.mpr (by rw [empty]; simp)
          omega
        · exact ⟨by omega, by omega, completed.trans released.symm, fun _ => empty, fun _ => released⟩
      · obtain ⟨t, member, weighs⟩ : ∃ t ∈ hook.threads, t.busy ≠ 0 := by
          by_contra none
          exact busy (Pool.total_eq_zero.mpr fun t member => by_contra fun weighs => none ⟨t, member, weighs⟩)
        have tail : t.isTail = false := by
          cases tail : t.isTail with
          | true => simp [Thread.busy, tail] at weighs
          | false => rfl
        obtain ⟨open_, kept, here⟩ := h.now t member tail
        have refs := here.refs_nonneg
        refine ⟨by omega, by omega, by rw [open_, kept]; rfl, by omega, fun empty => ?_⟩
        rw [empty] at member
        cases member
  · intro acts hook run
    have bound := run.length_le (fun hook => hook.total (Thread.left hook.shared.error)) Hook.inv_created
      fun _ _ _ h moves => ⟨h.step moves, Hook.left_step h moves⟩
    have start : (created fate).total (Thread.left (created fate).shared.error) = 17 := by
      simp [created, Pool.total, Thread.left, Request.ioAlloc]
    omega

/-- The SSD goes offline between `iostash_mkrequest` and `_clone_init`; all else goes well. -/
def Fate.wentOffline : Fate := ⟨⟨0, 4096, 0⟩, true, 1024, true, true, false, 0, true, 0⟩

/-- The HDD completion gives back the reference of a retry that never was. -/
theorem Hook.underrun : ∃ hook, Reachable (Hook.exec .wentOffline true) Hook.free (.created .wentOffline) hook ∧
    hook.shared.released = 1 ∧ hook.threads = [.ioWorkerEnd] :=
  ⟨_, reachable_drive _ _ 8 _ .init, by decide, by decide⟩

/-! ### The status the caller sees -/

theorem Fate.errorAtEnd_iff {fate : Fate} : fate.errorAtEnd = 0 ↔ fate.servedAtEnd = true := by
  have failed : (-enomem : Int) ≠ 0 := by decide
  unfold errorAtEnd servedAtEnd
  cases fate.clone4ssd <;> cases fate.cloneOnline <;> cases fate.clone4hdd <;>
    by_cases good : fate.ssdError = 0 <;> simp [failed, good]

/-- Before 4.2 the base bio is always completed with what became of its clones. From 4.2 on it is exactly
when a clone is served, or when it is never completed. -/
theorem Hook.endio_served_iff (fate : Fate) (legacy : Bool) :
    (∀ hook, Reachable (Hook.exec fate legacy) Hook.free (.created fate) hook →
      ∀ st ∈ hook.shared.endios, (st = 0 ↔ hook.shared.served = true)) ↔
    legacy = true ∨ fate.servedAtEnd = true ∨ fate.retries ∧ fate.clone4hdd = false := by
  constructor
  · intro truthful
    by_contra lies
    simp only [not_or, Bool.not_eq_true, ← Fate.leak_eq_zero] at lies
    obtain ⟨modern, unserved, leak⟩ := lies
    have reached : Reachable (Hook.exec fate legacy) Hook.free (.created fate) ((created fate).drive fate legacy 17) :=
      reachable_drive fate legacy 17 _ .init
    have h := inv_of_reachable reached
    have ended := (drive_ends fate legacy).2.1 leak
    obtain ⟨st, member⟩ := List.exists_mem_of_ne_nil _ ended
    have zero := h.ends st member
    rw [modern] at zero
    have served := (truthful _ reached st (modern ▸ member)).mp zero
    rw [(h.done (h.idle (Or.inl ended))).served, unserved] at served
    cases served
  · intro holds hook reached st member
    have h := inv_of_reachable reached
    have idle := h.idle (Or.inl (List.ne_nil_of_mem member))
    have done := h.done idle
    rw [done.served, h.ends st member, done.error]
    cases legacy with
    | true => exact Fate.errorAtEnd_iff
    | false =>
      rcases holds with old | served | retry
      · cases old
      · rw [served]
        exact iff_of_true rfl rfl
      · -- the base bio of a retry without a clone is never completed
        have even : ¬ fate.overdrawn := fun below => by simp [below.2] at retry
        have leak : fate.leak ≠ 0 := fun zero => Fate.leak_eq_zero.mp zero retry
        rcases (fair_of_reachable even reached).2 idle with ⟨_, open_, _⟩ | ⟨zero, _⟩
        · rw [open_] at member
          cases member
        · exact absurd zero leak

/-- Neither the SSD nor the HDD can read the sectors. -/
def Fate.unreadable : Fate := ⟨⟨0, 4096, 0⟩, true, 1024, true, true, true, -5, true, -5⟩

theorem Hook.silent_error : ∃ hook, Reachable (Hook.exec .unreadable false) Hook.free (.created .unreadable) hook ∧
    hook.shared.endios = [0] ∧ hook.shared.served = false :=
  ⟨_, reachable_drive _ _ 17 _ .init, by decide, by decide⟩

/-! ### The hold on the fragment -/

/-- `iostash_mkrequest` turns the request away. -/
def Fate.passes (fate : Fate) : Prop := fate.online = false ∨ fate.queueMaxHwSectors < fate.bio.nrSctr

section Mkrequest

variable {fate : Fate} {legacy : Bool} {io : Request}

theorem Thread.mkrequest_passes (passes : fate.passes) : Thread.mkrequest.run fate legacy io =
    (io.put4read fate.bio.psn fate.bio.nrSctr, [.mkrequestOut]) := if_pos passes

theorem Thread.mkrequest_queues (taken : ¬ fate.passes) (alloc : fate.ioAlloc = true) :
    Thread.mkrequest.run fate legacy io = (io.ioAlloc fate.bio, [.ioWorker]) := (if_neg taken).trans (if_pos alloc)

theorem Thread.mkrequest_fails (taken : ¬ fate.passes) (alloc : fate.ioAlloc = false) :
    Thread.mkrequest.run fate legacy io = (io, [.mkrequestOut]) := (if_neg taken).trans (if_neg (by simp [alloc]))

end Mkrequest

/-- The base bio is completed or handed on, or nothing is left to do for it. -/
def Hook.Over (hook : Hook) : Prop :=
  hook.shared.endios ≠ [] ∨ hook.shared.handed = true ∨ hook.threads = []

/-- What `iostash_mkrequest` has done when it does not queue the request. -/
def Request.passed (fate : Fate) (io : Request) : Prop :=
  io.endios = [] ∧ (fate.passes ∧ io.puts = [(fate.bio.psn, fate.bio.nrSctr)] ∨
    ¬ fate.passes ∧ fate.ioAlloc = false ∧ io.puts = [])

/-- Where a run from the hit on is. -/
inductive Hook.Stage (fate : Fate) (legacy : Bool) : Hook → Prop
  | hit : Stage fate legacy .hit
  | out {io : Request} (passed : io.passed fate) (kept : io.handed = false) : Stage fate legacy ⟨io, [.mkrequestOut]⟩
  | handed {io : Request} (passed : io.passed fate) : Stage fate legacy ⟨io, []⟩
  | queued {hook : Hook} (taken : ¬ fate.passes ∧ fate.ioAlloc = true) (inv : hook.Inv fate legacy) :
      Stage fate legacy hook

theorem Hook.exec_single {fate : Fate} {legacy : Bool} {io : Request} {t : Thread} {hook : Hook} {k : Nat}
    (moves : Hook.exec fate legacy ⟨io, [t]⟩ k = some hook) :
    hook = ⟨(t.run fate legacy io).1, (t.run fate legacy io).2⟩ := by
  cases k with
  | zero =>
    have same := Option.some.inj moves
    rw [← same]
    simp
  | succ k => cases moves

theorem Hook.Stage.step {fate : Fate} {legacy : Bool} {hook hook' : Hook} {k : Nat} (h : hook.Stage fate legacy)
    (moves : hook.exec fate legacy k = some hook') : hook'.Stage fate legacy := by
  cases h with
  | hit =>
    rw [exec_single moves]
    by_cases passes : fate.passes
    · rw [Thread.mkrequest_passes passes]
      exact .out ⟨rfl, Or.inl ⟨passes, rfl⟩⟩ rfl
    · cases alloc : fate.ioAlloc with
      | true =>
        rw [Thread.mkrequest_queues passes alloc]
        exact .queued ⟨passes, alloc⟩ inv_created
      | false =>
        rw [Thread.mkrequest_fails passes alloc]
        exact .out ⟨rfl, Or.inr ⟨passes, alloc, rfl⟩⟩ rfl
  | out passed =>
    rw [exec_single moves]
    exact .handed passed
  | handed => cases moves
  | queued taken inv => exact .queued taken (inv.step moves)

/-- The hold is given back once, with the range of the hit, exactly when the request is turned away, or is
allocated with its SSD clone and the SSD is offline by then or reads without error. -/
theorem Hook.put4read_once_iff (fate : Fate) (legacy : Bool) :
    (∀ hook, Reachable (Hook.exec fate legacy) Hook.free .hit hook → hook.Over →
      hook.shared.puts = [(fate.bio.psn, fate.bio.nrSctr)]) ↔
    fate.online = false ∨ fate.queueMaxHwSectors < fate.bio.nrSctr ∨
      fate.ioAlloc = true ∧ fate.clone4ssd = true ∧ (fate.cloneOnline = false ∨ fate.ssdError = 0) := by
  have puts : fate.putsAtEnd = [(fate.bio.psn, fate.bio.nrSctr)] ↔
      fate.clone4ssd = true ∧ (fate.cloneOnline = false ∨ fate.ssdError = 0) := by
    unfold Fate.putsAtEnd
    cases fate.clone4ssd <;> cases fate.cloneOnline <;> by_cases good : fate.ssdError = 0 <;> simp [good]
  rw [← or_assoc, ← puts]
  constructor
  · intro once
    by_contra held
    have passes : ¬ fate.passes := fun passes => held (Or.inl passes)
    cases alloc : fate.ioAlloc with
    | false =>
      -- handed on with the hold
      have reached : Reachable (Hook.exec fate legacy) Hook.free .hit (Hook.hit.drive fate legacy 2) :=
        reachable_drive fate legacy 2 _ .init
      have final : Hook.hit.drive fate legacy 2 = ⟨{ Request.blank with handed := true }, []⟩ := by
        show drive fate legacy 1 ⟨(Thread.mkrequest.run fate legacy .blank).1,
            (Thread.mkrequest.run fate legacy .blank).2 ++ []⟩ = _
        rw [Thread.mkrequest_fails passes alloc]
        rfl
      rw [final] at reached
      cases once _ reached (Or.inr (Or.inl rfl))
    | true =>
      have queued : Reachable (Hook.exec fate legacy) Hook.free .hit (created fate) := by
        refine Reachable.init.next (show Hook.free _ 0 from trivial) ?_
        show some (⟨(Thread.mkrequest.run fate legacy .blank).1,
            (Thread.mkrequest.run fate legacy .blank).2 ++ []⟩ : Hook) = _
        rw [Thread.mkrequest_queues passes alloc]
        rfl
      have reached := reachable_drive fate legacy 17 _ queued
      have empty := (drive_ends fate legacy).1
      have inv := inv_of_reachable (reachable_drive fate legacy 17 (created fate) .init)
      have all := once _ reached (Or.inr (Or.inr empty))
      rw [(inv.done (inv.idle (Or.inr empty))).puts] at all
      exact held (Or.inr ⟨alloc, all⟩)
  · intro given hook reached at_end
    have stage : hook.Stage fate legacy := reached.invariant .hit fun _ _ _ h _ moves => h.step moves
    have passed : ∀ io : Request, io.passed fate → io.puts = [(fate.bio.psn, fate.bio.nrSctr)] := by
      rintro io ⟨_, ⟨_, put⟩ | ⟨passes, alloc, _⟩⟩
      · exact put
      · rcases given with turned | ⟨granted, _⟩
        · exact absurd turned passes
        · rw [alloc] at granted
          cases granted
    cases stage with
    | hit => rcases at_end with ended | handed | empty <;> contradiction
    | out ok | handed ok => exact passed _ ok
    | queued taken inv =>
      have ended : hook.shared.endios ≠ [] ∨ hook.threads = [] := by
        rcases at_end with ended | handed | empty
        · exact Or.inl ended
        · rw [inv.kept] at handed
          cases handed
        · exact Or.inr empty
      rw [(inv.done (inv.idle ended)).puts]
      rcases given with turned | ⟨_, all⟩
      · exact absurd turned taken.1
      · exact all

/-- The SSD fails to read and the HDD does not. -/
def Fate.retried : Fate := ⟨⟨0, 4096, 0⟩, true, 1024, true, true, true, -5, true, 0⟩

theorem Hook.hold_leaked : ∃ hook, Reachable (Hook.exec .retried true) Hook.free .hit hook ∧
    hook.shared.endios = [0] ∧ hook.threads = [] ∧ hook.shared.puts = [] :=
  ⟨_, reachable_drive _ _ 18 _ .init, by decide, by decide, by decide⟩

end Iostash
