import Iostash.Sce.Scores

/-!
# Removing a cache device

`sce_rmcdev` drops the fragments of the device from the free list, turns the descriptors that map to it
into miss counts and empties its slot. It touches nothing else.
-/

namespace Iostash

open Util

/-- `s'` is `s` without device `d`, which had `n` fragments. Of the fragments of the other devices only links of
the free list change, of the LUNs only the mappings to `d` and what they count, and no other field of the engine. -/
structure Sce.Removed (s s' : Sce) (d n : Nat) : Prop where
  list : ∃ fl, FreeList s fl ∧ FreeList s' (fl.filter fun b => decide (b.dev ≠ d)) ∧
    s'.nrFreefrag + (fl.filter fun b => decide (b.dev = d)).length = s.nrFreefrag
  cleared : ∀ i f w, s.entry i f = some w → isMapped w = true → (phys w).dev = d → ∃ g w', s.frag? (phys w) = some g ∧
    s'.entry i f = some w' ∧ isMapped w' = false ∧ (fragdescData w').toNat = g.nrMiss % 2 ^ 28
  kept : ∀ i f w, s.entry i f = some w → ¬ (isMapped w = true ∧ (phys w).dev = d) → s'.entry i f = some w
  luns : ∀ i, (s'.luntbl i).map Lun.volume = (s.luntbl i).map Lun.volume
  counts : ∀ i l, s.luntbl i = some l → s'.counts i = some (l.counts -
    (((s.view.total i (onDev d fun _ _ => 1) : Nat) : Int),
      ((sceSctrPerPage * s.view.total i (onDev d fun _ => Cell.pages) : Nat) : Int)))
  score : s'.score = s.score
  nrCdev : s'.nrCdev + 1 = s.nrCdev
  nrFrag : s'.nrFrag = sub32 s.nrFrag n
  slot : s'.cdevtbl d = none
  others : ∀ e, e ≠ d → s'.dev e = s.dev e
  frags : ∀ b, b.dev ≠ d → (s'.frag? b).map Frag.unlinked = (s.frag? b).map Frag.unlinked
  mapped : ∀ i f b, s.place i f = some b → b.dev ≠ d → s'.frag? b = s.frag? b
  rest : { s' with cdevtbl := s.cdevtbl, luntbl := s.luntbl, freefraglist := s.freefraglist, nrFreefrag := s.nrFreefrag,
                   nrCdev := s.nrCdev, nrFrag := s.nrFrag } = s

variable {s s' : Sce} {d ctx n : Nat}

theorem Devices.nrCdev_pos (h : Devices s) (present : s.dev d = some (ctx, n)) : 0 < s.nrCdev := by
  rw [h.nrCdev, Finset.card_pos]
  refine ⟨d, Finset.mem_filter.mpr ⟨Finset.mem_range.mpr (h.bounds d ctx n present).1, ?_⟩⟩
  rw [present]
  rfl

/-- A LUN that stays keeps what it counts of its requests. -/
theorem Sce.Steady.score_eq (steady : s.Steady s') (luns : ∀ i, (s'.luntbl i).map Lun.volume = (s.luntbl i).map Lun.volume) :
    s'.score = s.score := by
  funext i
  have present := luns i
  cases left : s'.score i with
  | some c => exact (steady.score i c left).symm
  | none =>
    unfold Sce.score at left ⊢
    rw [Option.map_eq_none_iff.mp left, Option.map_none] at present
    rw [Option.map_eq_none_iff.mp present.symm, Option.map_none]

/-- The call ends, and removes the device and nothing else. -/
theorem sceRmcdev_removed (h : Inv nowhere s) (present : s.dev d = some (ctx, n)) :
    ∃ s', sceRmcdev s d = .ok (.success, s') ∧ s.Removed s' d n := by
  obtain ⟨cdev, here, rfl, rfl⟩ := Sce.dev_eq_some.mp present
  obtain ⟨fl, s₁, s₂, list, walk₁, linked, mapped, backed, swept, _, run⟩ := sceRmcdev_parts h here
  obtain ⟨tbl, eq₂⟩ := swept.same
  have slots : ∀ i, i < sceMaxLun ↔ i ∈ List.range sceMaxLun := fun i => List.mem_range.symm
  -- the descriptors are as they were before the walk of the free list
  have entry₁ : ∀ i f, s₁.entry i f = s.entry i f := by
    intro i f
    unfold Sce.entry
    rw [linked.luntbl]
  have place₁ : ∀ i f, s₁.place i f = s.place i f := by
    intro i f
    unfold Sce.place
    rw [linked.luntbl]
  have place : ∀ {i f w}, s.entry i f = some w → isMapped w = true → s.place i f = some (phys w) := by
    intro i f w there isMap
    rw [Sce.place_eq_entry, there, Option.bind_some, if_pos isMap]
  have luns : ∀ i, (s₂.luntbl i).map Lun.volume = (s.luntbl i).map Lun.volume := by
    intro i
    rw [← linked.luntbl]
    exact swept.volume i
  refine ⟨_, run, ?_, ?_, ?_, luns, ?_, ?_, ?_, ?_, ?_, ?_, ?_, ?_, ?_⟩
  · have list' := list.unplugged (n := cdev.nrFrag) walk₁ linked swept
    refine ⟨fl, list, list', ?_⟩
    rw [list'.nrFreefrag, list.nrFreefrag]
    have both := List.length_eq_length_filter_add (l := fl) fun b => decide (b.dev ≠ d)
    simpa using both.symm
  · intro i f w there isMap dev
    have mapsTo := place there isMap
    obtain ⟨l, lun, _⟩ := Sce.place_eq_some.mp mapsTo
    have bound := (h.shape.luns.bounds i _ _ (Sce.extent_eq_some.mpr ⟨l, lun, rfl, rfl⟩)).1
    rw [← entry₁] at there
    rcases swept.entry i f w there with same | ⟨g, _, _, frag, gone⟩
    · -- a descriptor that is still there would still map to the device
      have still : s₂.place i f = some (phys w) := by
        rw [Sce.place_eq_entry, same, Option.bind_some, if_pos isMap]
      rw [swept.cleared i f ((slots i).mp bound), place₁, mapsTo] at still
      simp [Option.filter, dev] at still
    · rw [mapped i f _ mapsTo] at frag
      exact ⟨g, _, frag, gone, isMapped_data _, fragdescData_ofNat _⟩
  · intro i f w there off
    rw [← entry₁] at there
    rcases swept.entry i f w there with same | ⟨g, isMap, dev, _⟩
    · exact same
    · exact absurd ⟨isMap, dev⟩ off
  · intro i l lun
    exact sceRmcdev_counts h run lun
  · exact (sceRmcdev_steady run).score_eq luns
  · have pos := h.shape.devices.nrCdev_pos present
    show s₂.nrCdev - 1 + 1 = s.nrCdev
    rw [show s₂.nrCdev = s.nrCdev by rw [eq₂]; exact linked.nrCdev]
    omega
  · show sub32 s₂.nrFrag cdev.nrFrag = _
    rw [show s₂.nrFrag = s.nrFrag by rw [eq₂]; exact linked.nrFrag]
  · simp [Sce.withoutCdev]
  · intro e ne
    rw [Sce.withoutCdev_dev, if_neg ne]
    rw [show s₂.dev = s₁.dev by rw [eq₂]; rfl, linked.dev]
  · intro b ne
    rw [unplugged_frag? swept, if_neg ne]
    exact linked.frag b
  · intro i f b there ne
    rw [unplugged_frag? swept, if_neg ne]
    exact mapped i f b there
  · rw [eq₂]
    have same := congrArg (fun t : Sce => { t with luntbl := s.luntbl, nrCdev := s.nrCdev, nrFrag := s.nrFrag }) linked.same
    exact same

theorem Sce.sceRmcdev_exact (reached : s.Reached) (present : s.dev d = some (ctx, n)) :
    ∃ s', sceRmcdev s d = .ok (.success, s') ∧ s.Removed s' d n :=
  sceRmcdev_removed reached.inv present

/-- Two devices, a LUN, and one of its fragments being populated. -/
def Sce.twoDevices : Sce := Sce.after
  [.addcdev 4096 7 true, .addcdev 2048 8 true, .addlun 4096 9 true, .get4read 0 0 8, .get4pop fun _ _ => 0#32]

theorem Sce.twoDevices_reached : Sce.twoDevices.Reached := Sce.after_reached (by decide +kernel)

theorem Sce.sceRmcdev_exact_twoDevices :
    ∃ s', sceRmcdev Sce.twoDevices 0 = .ok (.success, s') ∧ Sce.twoDevices.Removed s' 0 2 := by
  have present : Sce.twoDevices.dev 0 = some (7, 2) := by decide +kernel
  exact Sce.sceRmcdev_exact Sce.twoDevices_reached present

end Iostash
