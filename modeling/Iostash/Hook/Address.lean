import Iostash.Sce.Invalidated

/-!
# Addresses of a fragment

`poptask_read` and `poptask_write` of `iostash_population.c` and `_clone_init` of `iostash_iohook.c` each
compute where a fragment lies. A block device is its sectors by number, a fragment buffer the sectors of
one fragment.
-/

namespace Iostash

/-- `IOSTASH_HEADERSCT` -/
abbrev iostashHeaderSct : Nat := 2048

attribute [simp] iostashHeaderSct

/-- The bytes of a sector. -/
abbrev Sector := Fin 512 → BitVec 8

/-- The fields of `struct dm_io_region` beside the device. -/
structure DmIoRegion where
  sector : Nat
  count : Nat

/-- `_do_rw` with `READ`. `dmIo` says that there is a device and a client and that `dm_io` succeeds. -/
def doRead (dmIo : Bool) (bdev : Nat → Sector) (io : DmIoRegion) (data : Nat → Sector) : Option (Nat → Sector) :=
  if dmIo then some fun o => if o < io.count then bdev (io.sector + o) else data o else none

/-- `_do_rw` with `WRITE` -/
def doWrite (dmIo : Bool) (bdev : Nat → Sector) (io : DmIoRegion) (data : Nat → Sector) : Option (Nat → Sector) :=
  if dmIo then some fun a =>
    if io.sector ≤ a ∧ a < io.sector + io.count then data (a - io.sector) else bdev a
  else none

/-- What `poptask_read` asks for on a disk of `nrSctr` sectors. The product is a `uint32_t`. -/
def poptaskReadRegion (nrSctr lunFragnum : Nat) : DmIoRegion :=
  let sctrnum := u32 (lunFragnum * sceSctrPerFrag)
  ⟨sctrnum, if nrSctr ≤ u64 (sctrnum + sceSctrPerFrag) then u32 (sub64 nrSctr sctrnum) else sceSctrPerFrag⟩

/-- What `poptask_write` asks for. Product and sum are a `uint32_t`. -/
def poptaskWriteRegion (cdevFragnum : Nat) : DmIoRegion :=
  ⟨u32 (u32 (cdevFragnum * sceSctrPerFrag) + iostashHeaderSct), sceSctrPerFrag⟩

/-- `poptask_read` -/
def poptaskRead (dmIo : Bool) (hdd : Nat → Sector) (nrSctr lunFragnum : Nat) (fragbuf : Nat → Sector) :
    Option (Nat → Sector) :=
  doRead dmIo hdd (poptaskReadRegion nrSctr lunFragnum) fragbuf

/-- `poptask_write`; `online` is `ssd->cdev && ssd->bdev && ssd->online`. -/
def poptaskWrite (dmIo online : Bool) (ssd : Nat → Sector) (cdevFragnum : Nat) (fragbuf : Nat → Sector) :
    Option (Nat → Sector) :=
  if online then doWrite dmIo ssd (poptaskWriteRegion cdevFragnum) fragbuf else none

/-- `BIO_SECTOR(clone)` that `_clone_init` sets for the SSD. The product is a `uint32_t` before the cast. -/
def cloneSector (fragnum psn : Nat) : Nat :=
  u64 (u64 (u32 (fragnum * sceSctrPerFrag) + psn % sceSctrPerFrag) + iostashHeaderSct)

/-- The SSD sector of offset `o` of cache fragment `c`. -/
def ssdSector (c o : Nat) : Nat := iostashHeaderSct + c * sceSctrPerFrag + o

/-- A population of cache fragment `c` or a read of it uses SSD sector `a` for offset `o`. -/
def UsesSector (c o a : Nat) : Prop := a = (poptaskWriteRegion c).sector + o ∨ a = cloneSector c o

/-- On a disk of `nrSctr` sectors in `nrFrag` fragments and a cache device of `cdevFrag` fragments every
address is right. -/
structure AddressesAgree (nrSctr nrFrag cdevFrag : Nat) : Prop where
  copies : ∀ f c o, f < nrFrag → c < min cdevFrag (2 ^ 24) → o < sceSctrPerFrag → f * sceSctrPerFrag + o < nrSctr →
    ∀ hdd ssd fragbuf : Nat → Sector, ∃ buf ssd', poptaskRead true hdd nrSctr f fragbuf = some buf ∧
      poptaskWrite true true ssd c buf = some ssd' ∧ ssd' (ssdSector c o) = hdd (f * sceSctrPerFrag + o)
  ends : ∀ f, f < nrFrag → f * sceSctrPerFrag < nrSctr →
    (poptaskReadRegion nrSctr f).sector + (poptaskReadRegion nrSctr f).count ≤ nrSctr
  clone : ∀ f c o, f < nrFrag → c < min cdevFrag (2 ^ 24) → o < sceSctrPerFrag → f * sceSctrPerFrag + o < nrSctr →
    cloneSector c (f * sceSctrPerFrag + o) = ssdSector c o
  apart : ∀ c o c' o' a, c < min cdevFrag (2 ^ 24) → o < sceSctrPerFrag → c' < min cdevFrag (2 ^ 24) →
    o' < sceSctrPerFrag → UsesSector c o a → UsesSector c' o' a → c = c' ∧ o = o'
  header : ∀ c o a, c < min cdevFrag (2 ^ 24) → o < sceSctrPerFrag → UsesSector c o a → iostashHeaderSct ≤ a

variable {s : Sce} {l : Lun} {i d f c o nrSctr nrFrag cdevFrag : Nat} {cdev : Cdev}

/-! ### Fragments whose sectors have 32-bit numbers -/

theorem poptaskReadRegion_sector (small : f < 2 ^ 21) : (poptaskReadRegion nrSctr f).sector = f * sceSctrPerFrag := by
  simp only [poptaskReadRegion, sceSctrPerFrag]
  exact u32_of_lt (by omega)

/-- A sector of the fragment is read if the disk has it, and no other. -/
theorem poptaskReadRegion_count (small : f < 2 ^ 21) (starts : f * sceSctrPerFrag < nrSctr) (typed : nrSctr < 2 ^ 64) :
    (poptaskReadRegion nrSctr f).count = min sceSctrPerFrag (nrSctr - f * sceSctrPerFrag) := by
  have sum : u64 (f * 2048 + 2048) = f * 2048 + 2048 := u64_of_lt (by clear starts; omega)
  have start : u32 (f * 2048) = f * 2048 := u32_of_lt (by clear starts; omega)
  simp only [poptaskReadRegion, sceSctrPerFrag] at starts ⊢
  rw [start, sum, sub64_of_le (Nat.le_of_lt starts) typed]
  clear sum start small
  split
  · rw [u32_of_lt (by omega)]
    omega
  · omega

theorem poptaskWriteRegion_sector (small : c + 1 < 2 ^ 21) : (poptaskWriteRegion c).sector = ssdSector c 0 := by
  simp only [poptaskWriteRegion, ssdSector, iostashHeaderSct, sceSctrPerFrag]
  rw [u32_of_lt (n := c * 2048) (by omega), u32_of_lt (by omega)]
  omega

theorem cloneSector_eq (small : c < 2 ^ 21) (f : Nat) (ho : o < sceSctrPerFrag) :
    cloneSector c (f * sceSctrPerFrag + o) = ssdSector c o := by
  simp only [sceSctrPerFrag] at ho
  simp only [cloneSector, ssdSector, iostashHeaderSct, sceSctrPerFrag]
  rw [u32_of_lt (by omega), u64_of_lt (n := c * 2048 + _) (by omega), u64_of_lt (by omega)]
  omega

theorem UsesSector.eq (small : c + 1 < 2 ^ 21) (ho : o < sceSctrPerFrag) {a : Nat} (uses : UsesSector c o a) :
    a = ssdSector c o := by
  rcases uses with write | clone
  · rw [write, poptaskWriteRegion_sector small]
    simp [ssdSector]
  · have same := cloneSector_eq (c := c) (by omega) 0 ho
    rw [Nat.zero_mul, Nat.zero_add] at same
    rw [clone, same]

theorem poptaskRead_apply {hdd fragbuf buf : Nat → Sector} (read : poptaskRead true hdd nrSctr f fragbuf = some buf)
    (asked : o < (poptaskReadRegion nrSctr f).count) : buf o = hdd ((poptaskReadRegion nrSctr f).sector + o) := by
  obtain rfl := Option.some.inj read
  exact if_pos asked

theorem poptaskWrite_apply {ssd ssd' buf : Nat → Sector} (write : poptaskWrite true true ssd c buf = some ssd')
    (ho : o < sceSctrPerFrag) : ssd' ((poptaskWriteRegion c).sector + o) = buf o := by
  obtain rfl := Option.some.inj write
  have inside : (poptaskWriteRegion c).sector ≤ (poptaskWriteRegion c).sector + o ∧
      (poptaskWriteRegion c).sector + o < (poptaskWriteRegion c).sector + (poptaskWriteRegion c).count :=
    ⟨Nat.le_add_right _ _, Nat.add_lt_add_left ho _⟩
  show ite _ _ _ = _
  rw [if_pos inside, Nat.add_sub_cancel_left]

theorem addressesAgree_of_small (typed : nrSctr < 2 ^ 64) (disk : nrFrag ≤ 2 ^ 21)
    (cache : min cdevFrag (2 ^ 24) < 2 ^ 21) : AddressesAgree nrSctr nrFrag cdevFrag where
  copies := by
    intro f c o hf hc ho inside hdd ssd fragbuf
    obtain ⟨buf, read⟩ : ∃ buf, poptaskRead true hdd nrSctr f fragbuf = some buf := ⟨_, rfl⟩
    obtain ⟨ssd', write⟩ : ∃ ssd', poptaskWrite true true ssd c buf = some ssd' := ⟨_, rfl⟩
    refine ⟨buf, ssd', read, write, ?_⟩
    have asked : o < (poptaskReadRegion nrSctr f).count := by
      rw [poptaskReadRegion_count (by omega) (Nat.lt_of_le_of_lt (Nat.le_add_right _ _) inside) typed]
      omega
    have target : ssdSector c o = (poptaskWriteRegion c).sector + o := by
      have start := poptaskWriteRegion_sector (c := c) (by omega)
      rw [start, ssdSector, ssdSector]
      omega
    rw [target, poptaskWrite_apply write ho, poptaskRead_apply read asked, poptaskReadRegion_sector (by omega)]
  ends := by
    intro f hf starts
    rw [poptaskReadRegion_sector (by omega), poptaskReadRegion_count (by omega) starts typed]
    omega
  clone := fun f c o _ hc ho _ => cloneSector_eq (by omega) f ho
  apart := by
    intro c o c' o' a hc ho hc' ho' uses uses'
    have same : ssdSector c o = ssdSector c' o' := (uses.eq (by omega) ho).symm.trans (uses'.eq (by omega) ho')
    simp only [ssdSector, iostashHeaderSct, sceSctrPerFrag] at same ho ho'
    omega
  header := by
    intro c o a hc ho uses
    rw [uses.eq (by omega) ho]
    simp only [ssdSector]
    omega

/-! ### Fragments beyond -/

/-- The disk sector that is copied has a number below `2 ^ 32`. -/
theorem AddressesAgree.disk (h : AddressesAgree nrSctr nrFrag cdevFrag) (hc : 0 < cdevFrag)
    (starts : ∀ f, f < nrFrag → f * sceSctrPerFrag < nrSctr) : nrFrag ≤ 2 ^ 21 := by
  by_contra large
  have far : (2 ^ 21 : Nat) < nrFrag := by omega
  have inside := starts _ far
  -- the only sector that is not blank is the first of fragment 2 ^ 21, and sector 0 is read instead
  obtain ⟨buf, ssd', read, write, same⟩ := h.copies (2 ^ 21) 0 0 far (by omega) (by decide) inside
    (fun a _ => if a = 2 ^ 32 then 1#8 else 0#8) (fun _ _ => 0#8) (fun _ _ => 0#8)
  have asked : (poptaskReadRegion nrSctr (2 ^ 21)).count = sceSctrPerFrag := if_neg (by
    simp only [sceSctrPerFrag] at inside
    simp only [u64, u32, sceSctrPerFrag]
    omega)
  have wrapped : (poptaskReadRegion nrSctr (2 ^ 21)).sector = 0 := by
    simp [poptaskReadRegion, u32]
  have target : ssdSector 0 0 = (poptaskWriteRegion 0).sector + 0 := rfl
  rw [target, poptaskWrite_apply write (by decide), poptaskRead_apply read (by rw [asked]; decide),
    wrapped] at same
  exact absurd (congrFun same 0) (by decide)

/-- The last fragment below `2 ^ 21` would be written onto the header. -/
theorem AddressesAgree.cache (h : AddressesAgree nrSctr nrFrag cdevFrag) : min cdevFrag (2 ^ 24) < 2 ^ 21 := by
  by_contra large
  have onHeader : UsesSector (2 ^ 21 - 1) 0 0 := Or.inl rfl
  exact absurd (h.header (2 ^ 21 - 1) 0 0 (by omega) (by decide) onHeader) (by decide)

/-- A disk's fragments all start on it. -/
theorem Sce.Reached.starts (reached : s.Reached) (lun : s.luntbl i = some l) (hf : f < l.nrFrag) :
    f * sceSctrPerFrag < l.nrSctr := by
  obtain ⟨_, _, _, size⟩ := reached.inv.shape.luns.bounds i l.nrSctr l.nrFrag (by simp [Sce.extent, lun])
  have le := Nat.mod_le ((l.nrSctr + (sceSctrPerFrag - 1)) / sceSctrPerFrag) (2 ^ 32)
  rw [size] at hf
  simp only [u32, sceSctrPerFrag] at hf le ⊢
  omega

theorem addresses_agree_iff (reached : s.Reached) (lun : s.luntbl i = some l) (there : s.cdevtbl d = some cdev) :
    AddressesAgree l.nrSctr l.nrFrag cdev.nrFrag ↔ l.nrFrag ≤ 2 ^ 21 ∧ min cdev.nrFrag (2 ^ 24) < 2 ^ 21 := by
  obtain ⟨_, _, typed, _⟩ := reached.inv.shape.luns.bounds i l.nrSctr l.nrFrag (by simp [Sce.extent, lun])
  obtain ⟨_, _, _, pos⟩ := reached.inv.shape.devices.bounds d cdev.cdevctx cdev.nrFrag (by simp [Sce.dev, there])
  constructor
  · intro h
    exact ⟨h.disk pos fun f hf => reached.starts lun hf, h.cache⟩
  · rintro ⟨disk, cache⟩
    exact addressesAgree_of_small (by omega) disk cache

/-- A disk and a device of two fragments each. -/
theorem addresses_agree_populated : (∃ l, (Sce.populated 4096).luntbl 0 = some l ∧ l.nrFrag = 2) ∧
    (∃ cdev, (Sce.populated 4096).cdevtbl 0 = some cdev ∧ cdev.nrFrag = 2) ∧ AddressesAgree 4096 2 2 := by
  have reached : (Sce.populated 4096).Reached := Sce.after_reached (by decide +kernel)
  obtain ⟨l, lun⟩ : ∃ l, (Sce.populated 4096).luntbl 0 = some l := Option.isSome_iff_exists.mp (by decide +kernel)
  obtain ⟨cdev, there⟩ : ∃ cdev, (Sce.populated 4096).cdevtbl 0 = some cdev :=
    Option.isSome_iff_exists.mp (by decide +kernel)
  have volume : ((Sce.populated 4096).luntbl 0).map (fun l => (l.nrSctr, l.nrFrag)) = some (4096, 2) := by
    decide +kernel
  have size : ((Sce.populated 4096).cdevtbl 0).map Cdev.nrFrag = some 2 := by decide +kernel
  rw [lun] at volume
  rw [there] at size
  obtain ⟨sctrs, frags⟩ := Prod.mk.inj (Option.some.inj volume)
  have cells := Option.some.inj size
  have agree := (addresses_agree_iff reached lun there).mpr ⟨by rw [frags]; decide, by rw [cells]; decide⟩
  rw [sctrs, frags, cells] at agree
  exact ⟨⟨l, lun, frags⟩, ⟨cdev, there, cells⟩, agree⟩

/-- On a disk of 2 TiB and 8 sectors the last fragment is populated with the disk's first sectors. -/
theorem addresses_wrap : (Sce.populated (2 ^ 32 + 8)).Reached ∧
    ((Sce.populated (2 ^ 32 + 8)).luntbl 0).map (fun l => (l.nrSctr, l.nrFrag)) = some (2 ^ 32 + 8, 2 ^ 21 + 1) ∧
    ((Sce.populated (2 ^ 32 + 8)).cdevtbl 0).map Cdev.nrFrag = some 2 ∧
    (poptaskReadRegion (2 ^ 32 + 8) (2 ^ 21)).sector = 0 ∧ ¬ AddressesAgree (2 ^ 32 + 8) (2 ^ 21 + 1) 2 := by
  refine ⟨Sce.after_reached (by decide +kernel), by decide +kernel, by decide +kernel, by decide, fun agree => ?_⟩
  have small := agree.disk (by decide) fun f hf => by simp only [sceSctrPerFrag]; omega
  exact absurd small (by decide)

end Iostash
