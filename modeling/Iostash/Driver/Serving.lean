import Iostash.Driver.Enrolling

/-!
# Where the cached data lies

The engine answers with the address of an `ssd_info` and the number of a fragment. The address is that of an SSD
that is registered, and the sectors that are read and written lie on its disk. Whether the SSD is online is for the
caller to look at.
-/

namespace Iostash

open Util

namespace Caches

variable {hash32 : Nat → Nat → Nat} {s : State} {p d n off x m : Nat}

/-- Sectors of a fragment after the header, of a fragment number that the product may have cut short. -/
theorem cloneSector_bounds (one : x % sceSctrPerFrag + n ≤ sceSctrPerFrag) :
    iostashHeaderSct ≤ cloneSector off x ∧
    cloneSector off x + n ≤ iostashHeaderSct + off * sceSctrPerFrag + sceSctrPerFrag := by
  simp only [cloneSector, sceSctrPerFrag, iostashHeaderSct] at one ⊢
  have cut : u32 (off * 2048) ≤ off * 2048 := Nat.mod_le _ _
  have lt := u32_lt (off * 2048)
  rw [u64_of_lt (n := u32 (off * 2048) + x % 2048) (by omega), u64_of_lt (by omega)]
  omega

theorem poptaskWriteRegion_bounds (off : Nat) : (poptaskWriteRegion off).sector + (poptaskWriteRegion off).count ≤
      iostashHeaderSct + off * sceSctrPerFrag + sceSctrPerFrag ∧
    (iostashHeaderSct ≤ (poptaskWriteRegion off).sector ↔ (off + 1) % 2 ^ 21 ≠ 0) := by
  simp only [poptaskWriteRegion, sceSctrPerFrag, iostashHeaderSct, u32]
  omega

/-- A fragment of a device of the engine is on the disk of the SSD with its context. -/
theorem Registry.onDisk (h : Registry hash32 s) (present : s.sce.dev d = some (p, n)) (inside : off < n) :
    ∃ info disk, s.ssd p = some info ∧ info.bdev = some disk ∧
      iostashHeaderSct + off * sceSctrPerFrag + sceSctrPerFrag ≤ disk.nrSects := by
  obtain ⟨info, here, cdev⟩ := h.devices d p n present
  obtain ⟨disk, d', bdev, size, cdev', present'⟩ := h.usable p info here
  obtain rfl := Option.some.inj (cdev.symm.trans cdev')
  obtain ⟨_, rfl⟩ := Prod.mk.inj (Option.some.inj (present.symm.trans present'))
  refine ⟨info, disk, here, bdev, ?_⟩
  have fits : off + 1 ≤ info.nrSctr / sceSctrPerFrag := Nat.le_trans inside (Nat.mod_le _ _)
  have sectors := Nat.mul_le_of_le_div _ _ _ fits
  simp only [sceSctrPerFrag, iostashHeaderSct] at sectors size ⊢
  omega

end Caches

end Iostash
