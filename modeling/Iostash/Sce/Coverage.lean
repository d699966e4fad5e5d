import Iostash.Sce.Sweep
import Iostash.Sce.Runs

/-!
# What the clock arm covers

A device keeps the slot it was given, and the arm looks for device `n` of `nr_cdev` in slot `n`.
-/

namespace Iostash

open Util

namespace Sce

/-- What `n` consecutive calls of `_get_frag_advance_clockarm` return. -/
def armCalls : Nat → Sce → List (Option Phys)
  | 0, _ => []
  | n + 1, s => (getFragAdvanceClockarm s).1 :: armCalls n (getFragAdvanceClockarm s).2

/-- `nr_frag` calls return every fragment of every present device exactly once, and never `NULL`. -/
structure Covered (s : Sce) : Prop where
  found : none ∉ armCalls s.nrFrag s
  once : ∀ a, (s.frag? a).isSome → (armCalls s.nrFrag s).count (some a) = 1

/-- No device has more fragments than a pfid can tell apart. -/
def Short (s : Sce) : Prop := ∀ d ctx n, s.dev d = some (ctx, n) → n ≤ 2 ^ 24

/-- The present devices are in the first slots. -/
def Gapless (s : Sce) : Prop := ∀ d, (s.dev d).isSome ↔ d < s.nrCdev

variable {s : Sce} {a : Phys} {d n : Nat} {w : Word}

theorem turned_advance : s.advance.turned n = s.turned (n + 1) := by
  induction n with
  | zero => rfl
  | succ n ih =>
    show (s.advance.turned n).advance = _
    rw [ih]
    rfl

theorem armCalls_eq : armCalls n s = (List.range n).map s.armAt := by
  induction n generalizing s with
  | zero => rfl
  | succ n ih =>
    have next : s.advance.armAt = s.armAt ∘ Nat.succ := by
      funext t
      unfold armAt
      rw [turned_advance]
      rfl
    rw [List.range_succ_eq_map, List.map_cons, List.map_map, ← next, ← ih]
    rfl

/-- A device that is not in its place leaves a slot empty. -/
theorem gapless_or (h : Devices s) : s.Gapless ∨ ∃ d, (s.dev d).isSome ∧ s.nrCdev ≤ d := by
  by_cases high : ∃ d, (s.dev d).isSome ∧ s.nrCdev ≤ d
  · exact Or.inr high
  · have low : ∀ d, (s.dev d).isSome → d < s.nrCdev := fun d present =>
      Nat.lt_of_not_le fun le => high ⟨d, present, le⟩
    have sub : ((Finset.range sceMaxCdev).filter fun d => (s.dev d).isSome) ⊆ Finset.range s.nrCdev := by
      intro d member
      exact Finset.mem_range.mpr (low d (Finset.mem_filter.mp member).2)
    have all := Finset.eq_of_subset_of_card_le sub (by rw [Finset.card_range, h.nrCdev])
    refine Or.inl fun d => ⟨low d, fun lt => ?_⟩
    rw [← Finset.mem_range, ← all] at lt
    exact (Finset.mem_filter.mp lt).2

theorem ringSize_eq (h : Devices s) (packed : s.Packed) : s.ringSize = s.nrFrag := by
  have most := nrCdev_le h packed
  have absent : ∀ d, d ∈ Finset.range sceMaxCdev → d ∉ Finset.range s.nrCdev → devSize s.dev d = 0 := by
    intro d _ out
    have none : s.dev d = none := by
      by_contra present
      exact out (Finset.mem_range.mpr ((packed.present d).mp (Option.isSome_iff_ne_none.mpr present)))
    simp [devSize, none]
  have total : s.ringSize = ∑ d ∈ Finset.range sceMaxCdev, devSize s.dev d :=
    Finset.sum_subset (Finset.range_subset_range.mpr most) absent
  have small : ∑ d ∈ Finset.range sceMaxCdev, devSize s.dev d ≤ sceMaxCdev * 2 ^ 24 := by
    refine (Finset.sum_le_card_nsmul _ _ (2 ^ 24) fun d _ => ?_).trans (by simp)
    unfold devSize
    cases dev : s.dev d with
    | none => simp
    | some p => exact packed.short d p.1 p.2 dev
  rw [h.nrFrag, ← total, u32_of_lt]
  rw [total]
  exact lt_of_le_of_lt small (by decide)

/-- The arm stays below slot `nr_cdev`. -/
theorem armAt_dev (arm : s.armAt n = some a) : a.dev < s.nrCdev := by
  have same : (s.turned n).nrCdev = s.nrCdev := turned_fields.1
  unfold armAt armFrag getFragAdvanceClockarm at arm
  split at arm
  · cases arm
  · rename_i filled
    simp only at arm
    split at arm
    · cases arm
    · rw [← Option.some.inj arm, ← same]
      exact Nat.mod_lt _ (Nat.pos_of_ne_zero filled)

/-- Wherever the arm stands, `nr_frag` calls cover the cache exactly when no slot before a present device is
empty. -/
theorem covered_iff (reached : s.Reached) (short : s.Short) (filled : 0 < s.nrCdev) (w : Word) :
    ({ s with arm := w } : Sce).Covered ↔ s.Gapless := by
  obtain ⟨t, ht⟩ : ∃ t : Sce, t = { s with arm := w } := ⟨_, rfl⟩
  rw [← ht]
  have nrCdev : t.nrCdev = s.nrCdev := by rw [ht]
  have dev : t.dev = s.dev := by rw [ht]; rfl
  have nrFrag : t.nrFrag = s.nrFrag := by rw [ht]
  have devices : Devices t := reached.inv.shape.devices.congr dev nrCdev nrFrag
  constructor
  · intro covered
    rcases gapless_or reached.inv.shape.devices with gapless | ⟨d, present, high⟩
    · exact gapless
    · exfalso
      rw [← dev] at present
      obtain ⟨⟨ctx, n⟩, here⟩ := Option.isSome_iff_exists.mp present
      have pos := (devices.bounds d ctx n here).2.2.2
      have once := covered.once ⟨d, 0⟩ (frag?_isSome.mpr ⟨ctx, n, here, pos⟩)
      have member : some ⟨d, 0⟩ ∈ armCalls t.nrFrag t := List.count_pos_iff.mp (by omega)
      rw [armCalls_eq] at member
      obtain ⟨k, _, arm⟩ := List.mem_map.mp member
      have low := armAt_dev arm
      rw [nrCdev] at low
      exact absurd low (Nat.not_lt.mpr high)
  · intro gapless
    have packed : t.Packed := by
      refine ⟨fun d => ?_, fun d ctx n here => short d ctx n (dev ▸ here)⟩
      rw [dev, nrCdev]
      exact gapless d
    have round := ring devices packed (nrCdev ▸ filled)
    rw [ringSize_eq devices packed] at round
    obtain ⟨nodup, all⟩ := round.round
    rw [← armCalls_eq] at nodup all
    refine ⟨fun null => ?_, fun a present => ?_⟩
    · rw [armCalls_eq] at null
      obtain ⟨k, _, arm⟩ := List.mem_map.mp null
      obtain ⟨p, some_, _⟩ := round.mem k
      cases some_.symm.trans arm
    · obtain ⟨ctx, n, here, lt⟩ := frag?_isSome.mp present
      have on : t.onRing a := by
        refine ⟨(packed.present a.dev).mp (Option.isSome_of_eq_some here), ?_⟩
        simpa [devSize, here] using lt
      exact List.count_eq_one_of_mem nodup (all (some a) ⟨a, rfl, on⟩)

theorem Reached.short (reached : s.Reached)
    (low : ∀ d, d < sceMaxCdev → (s.dev d).all (fun p => decide (p.2 ≤ 2 ^ 24)) = true) : s.Short := by
  intro d ctx n here
  have le := low d (reached.inv.shape.devices.bounds d ctx n here).1
  rw [here] at le
  exact of_decide_eq_true le

/-- Two devices, the second with two fragments. -/
def bothPlugged : Sce := Sce.after [.addcdev 2048 7 true, .addcdev 4096 8 true]

theorem covered_bothPlugged : ({ bothPlugged with arm := 0#32 } : Sce).Covered ↔ bothPlugged.Gapless := by
  have reached : bothPlugged.Reached := Sce.after_reached (by decide +kernel)
  exact covered_iff reached (reached.short (by decide +kernel)) (by decide +kernel) 0#32

/-- The second of two devices, once the first is removed. -/
def firstUnplugged : Sce := Sce.after [.addcdev 2048 7 true, .addcdev 2048 8 true, .rmcdev 0]

/-- Slot 0 is empty, and the arm never gets to slot 1. -/
theorem firstUnplugged_uncovered : firstUnplugged.Reached ∧ firstUnplugged.Short ∧ 0 < firstUnplugged.nrCdev ∧
    ¬ ({ firstUnplugged with arm := 0#32 } : Sce).Covered := by
  have reached : firstUnplugged.Reached := Sce.after_reached (by decide +kernel)
  refine ⟨reached, reached.short (by decide +kernel), by decide +kernel, fun covered => covered.found ?_⟩
  decide +kernel

end Sce

end Iostash
