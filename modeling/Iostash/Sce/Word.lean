import Mathlib.Data.Nat.Bitwise
import Mathlib.Tactic.IntervalCases

/-!
# Constants and descriptor words

The macros of `sce.h` and `sce_internal.h`. A fragment descriptor and a physical fragment id are
32-bit words: bit 31 says mapped, bit 30 valid, bits 28 and 29 are reserved, and the low 28 bits
are data (a miss count, or 4 bits of device number and 24 bits of fragment offset).
-/

namespace Iostash

/-- `uint32_t` words that carry flags. -/
abbrev Word := BitVec 32

abbrev sceMaxCdev : Nat := 16
abbrev sceMaxLun : Nat := 256
abbrev sceRefCeiling : Nat := 4
abbrev sceCacheMissLogSize : Nat := 1024
abbrev sceMissWindow : Nat := 100
abbrev scePagePerFrag : Nat := 256
abbrev sceSctrPerFrag : Nat := 2048
abbrev sceSctrPerPage : Nat := 8
abbrev bitmapEntSize : Nat := 32
abbrev bitmapArraySize : Nat := 8
abbrev fragnumWithinFreeList : Nat := 0xffffffff
abbrev fragnumFree : Nat := 0xfffffffe

attribute [simp] sceMaxCdev sceMaxLun sceRefCeiling sceCacheMissLogSize sceMissWindow
  scePagePerFrag sceSctrPerFrag sceSctrPerPage bitmapEntSize bitmapArraySize
  fragnumWithinFreeList fragnumFree

/-- Conversion to `uint32_t`. -/
def u32 (n : Nat) : Nat := n % 2 ^ 32

/-- Conversion to `uint64_t`, the type of `sector_t`. -/
def u64 (n : Nat) : Nat := n % 2 ^ 64

/-- Conversion to `uint16_t`. -/
def u16 (n : Nat) : Nat := n % 2 ^ 16

/-- `a - b` on `uint32_t`. -/
def sub32 (a b : Nat) : Nat := u32 (a + 2 ^ 32 - b)

/-- `a - b` on `uint64_t`. -/
def sub64 (a b : Nat) : Nat := u64 (a + 2 ^ 64 - b)

theorem u32_lt (n : Nat) : u32 n < 2 ^ 32 := Nat.mod_lt _ (by decide)

theorem u32_of_lt {n : Nat} (h : n < 2 ^ 32) : u32 n = n := Nat.mod_eq_of_lt h

theorem u64_of_lt {n : Nat} (h : n < 2 ^ 64) : u64 n = n := Nat.mod_eq_of_lt h

theorem u16_of_lt {n : Nat} (h : n < 2 ^ 16) : u16 n = n := Nat.mod_eq_of_lt h

theorem sub32_of_le {a b : Nat} (h : b ≤ a) (ha : a < 2 ^ 32) : sub32 a b = a - b := by
  unfold sub32 u32; omega

theorem sub64_of_le {a b : Nat} (h : b ≤ a) (ha : a < 2 ^ 64) : sub64 a b = a - b := by
  unfold sub64 u64; omega

/-- `SCE_SUCCESS` and `SCE_ERROR`. -/
inductive Ret where
  | success | error
  deriving DecidableEq, Repr

/-- How a call can leave the defined behaviour of the code: a `BUG_ON` that fires, a null pointer
that is followed, an access past the end of an array, a loop that does not end. -/
inductive Fault where
  | bugOn | nullDeref | outOfRange | diverge
  deriving DecidableEq, Repr

/-! ### Fragment descriptors -/

def fragdescMapped : Word := 0x80000000#32
def fragdescValid : Word := 0x40000000#32
def fragdescFlagmask : Word := 0xF0000000#32
def fragdescDatamask : Word := 0x0FFFFFFF#32

/-- `FRAGDESC_DATA(d)` -/
def fragdescData (d : Word) : Word := d &&& fragdescDatamask

/-- `FRAGDESC_INC(d)`: the flags are kept, the data bits count up and wrap. -/
def fragdescInc (d : Word) : Word :=
  (d &&& fragdescFlagmask) ||| ((fragdescData d + 1#32) &&& fragdescDatamask)

/-- `d & FRAGDESC_MAPPED` -/
def isMapped (d : Word) : Bool := d &&& fragdescMapped != 0#32

/-- `d & FRAGDESC_VALID` -/
def isValid (d : Word) : Bool := d &&& fragdescValid != 0#32

theorem isMapped_eq (d : Word) : isMapped d = d.getLsbD 31 := by
  have h : d &&& fragdescMapped = if d.getLsbD 31 then fragdescMapped else 0#32 := by
    ext i hi
    interval_cases i <;> simp [fragdescMapped] <;> split <;> simp_all
  unfold isMapped
  rw [h]
  cases d.getLsbD 31 <;> simp [fragdescMapped]

theorem isValid_eq (d : Word) : isValid d = d.getLsbD 30 := by
  have h : d &&& fragdescValid = if d.getLsbD 30 then fragdescValid else 0#32 := by
    ext i hi
    interval_cases i <;> simp [fragdescValid] <;> split <;> simp_all
  unfold isValid
  rw [h]
  cases d.getLsbD 30 <;> simp [fragdescValid]

@[simp] theorem isMapped_or_mapped (d : Word) : isMapped (d ||| fragdescMapped) = true := by
  simp [isMapped_eq, fragdescMapped]

@[simp] theorem isMapped_or_valid (d : Word) : isMapped (d ||| fragdescValid) = isMapped d := by
  simp [isMapped_eq, fragdescValid]

@[simp] theorem isValid_or_valid (d : Word) : isValid (d ||| fragdescValid) = true := by
  simp [isValid_eq, fragdescValid]

@[simp] theorem isMapped_data (d : Word) : isMapped (d &&& fragdescDatamask) = false := by
  simp [isMapped_eq, fragdescDatamask]

@[simp] theorem isMapped_inc (d : Word) : isMapped (fragdescInc d) = isMapped d := by
  simp [isMapped_eq, fragdescInc, fragdescFlagmask, fragdescDatamask]

/-- A fresh mapping is mapped and not yet valid. -/
@[simp] theorem isMapped_new (d : Word) : isMapped (fragdescMapped ||| (d &&& fragdescDatamask)) = true := by
  simp [isMapped_eq, fragdescMapped]

@[simp] theorem isValid_new (d : Word) : isValid (fragdescMapped ||| (d &&& fragdescDatamask)) = false := by
  simp [isValid_eq, fragdescMapped, fragdescDatamask]

theorem fragdescData_toNat (d : Word) : (fragdescData d).toNat = d.toNat % 2 ^ 28 := by
  have mask : fragdescDatamask.toNat = 2 ^ 28 - 1 := by decide
  rw [fragdescData, BitVec.toNat_and, mask, Nat.and_two_pow_sub_one_eq_mod]

theorem fragdescData_ofNat (n : Nat) : (fragdescData (BitVec.ofNat 32 n &&& fragdescDatamask)).toNat = n % 2 ^ 28 := by
  rw [show fragdescData (BitVec.ofNat 32 n &&& fragdescDatamask) = fragdescData (BitVec.ofNat 32 n) by
    rw [fragdescData, fragdescData, BitVec.and_assoc, BitVec.and_self], fragdescData_toNat, BitVec.toNat_ofNat]
  omega

theorem fragdescData_inc (d : Word) : (fragdescData (fragdescInc d)).toNat = ((fragdescData d).toNat + 1) % 2 ^ 28 := by
  have apart : fragdescFlagmask &&& fragdescDatamask = 0#32 := by decide
  have bits : fragdescData (fragdescInc d) = (fragdescData d + 1#32) &&& fragdescDatamask := by
    rw [fragdescInc, fragdescData, BitVec.and_or_distrib_right]
    rw [BitVec.and_assoc d, apart, BitVec.and_zero, BitVec.zero_or, BitVec.and_assoc, BitVec.and_self]
  have count := fragdescData_toNat (fragdescData d + 1#32)
  rw [bits]
  apply count.trans
  have small : (fragdescData d).toNat < 2 ^ 28 := by
    rw [fragdescData_toNat]
    exact Nat.mod_lt _ (by decide)
  rw [BitVec.toNat_add]
  simp only [BitVec.toNat_ofNat]
  omega

theorem ne_zero_of_isMapped {d : Word} (h : isMapped d = true) : d ≠ 0#32 := by
  rintro rfl
  simp [isMapped_eq] at h

theorem or_mapped_ne_zero (d : Word) : d ||| fragdescMapped ≠ 0#32 :=
  ne_zero_of_isMapped (isMapped_or_mapped d)

/-! ### Physical fragment ids -/

/-- `SCE_PFIDDEV(pf)` -/
def scePfidDev (pf : Word) : Nat := ((pf >>> 24) &&& 0xF#32).toNat

/-- `SCE_PFIDOFF(pf)` -/
def scePfidOff (pf : Word) : Nat := (pf &&& 0x00FFFFFF#32).toNat

/-- `SCE_PFID(dev, off)` -/
def scePfid (dev off : Nat) : Word :=
  ((BitVec.ofNat 32 dev &&& 0xF#32) <<< 24) ||| (BitVec.ofNat 32 off &&& 0x00FFFFFF#32)

/-- A physical fragment: a slot of the device table and an offset in its fragment table. -/
structure Phys where
  dev : Nat
  off : Nat
  deriving DecidableEq, Repr

/-- The physical fragment a pfid or a mapped descriptor names; its flag bits play no part. -/
def phys (pf : Word) : Phys := ⟨scePfidDev pf, scePfidOff pf⟩

theorem scePfidDev_eq (pf : Word) : scePfidDev pf = pf.toNat / 2 ^ 24 % 16 := by
  unfold scePfidDev
  rw [BitVec.toNat_and, BitVec.toNat_ushiftRight, Nat.shiftRight_eq_div_pow]
  exact Nat.and_two_pow_sub_one_eq_mod _ 4

theorem scePfidOff_eq (pf : Word) : scePfidOff pf = pf.toNat % 2 ^ 24 := by
  unfold scePfidOff
  rw [BitVec.toNat_and]
  exact Nat.and_two_pow_sub_one_eq_mod _ 24

theorem scePfidOff_lt (pf : Word) : scePfidOff pf < 2 ^ 24 := by
  rw [scePfidOff_eq]; exact Nat.mod_lt _ (by decide)

theorem phys_congr {p q : Word} (h : p &&& fragdescDatamask = q &&& fragdescDatamask) :
    phys p = phys q := by
  have hd : ∀ w : Word, (w >>> 24) &&& 0xF#32 = ((w &&& fragdescDatamask) >>> 24) &&& 0xF#32 := by
    intro w
    ext i hi
    interval_cases i <;> simp [fragdescDatamask]
  have ho : ∀ w : Word, w &&& 0x00FFFFFF#32 = (w &&& fragdescDatamask) &&& 0x00FFFFFF#32 := by
    intro w
    ext i hi
    interval_cases i <;> simp [fragdescDatamask]
  simp only [phys, scePfidDev, scePfidOff, Phys.mk.injEq]
  exact ⟨by rw [hd p, hd q, h], by rw [ho p, ho q, h]⟩

@[simp] theorem phys_or_mapped (pf : Word) : phys (pf ||| fragdescMapped) = phys pf := by
  apply phys_congr
  ext i hi
  interval_cases i <;> simp [fragdescMapped, fragdescDatamask]

@[simp] theorem phys_or_valid (pf : Word) : phys (pf ||| fragdescValid) = phys pf := by
  apply phys_congr
  ext i hi
  interval_cases i <;> simp [fragdescValid, fragdescDatamask]

@[simp] theorem phys_new (pf : Word) : phys (fragdescMapped ||| (pf &&& fragdescDatamask)) = phys pf := by
  apply phys_congr
  ext i hi
  interval_cases i <;> simp [fragdescMapped, fragdescDatamask]

/-- A pfid keeps 4 bits of the device number and 24 bits of the offset. -/
theorem phys_scePfid {dev off : Nat} (hd : dev < 16) : phys (scePfid dev off) = ⟨dev, off % 2 ^ 24⟩ := by
  have hdev : (BitVec.ofNat 32 dev &&& 0xF#32).toNat = dev := by
    rw [BitVec.toNat_and, BitVec.toNat_ofNat]
    have low : dev % 2 ^ 32 &&& 15 = dev % 2 ^ 32 % 16 := Nat.and_two_pow_sub_one_eq_mod _ 4
    simp only [BitVec.reduceToNat]
    omega
  have hoff : (BitVec.ofNat 32 off &&& 0x00FFFFFF#32).toNat = off % 2 ^ 24 := by
    rw [BitVec.toNat_and, BitVec.toNat_ofNat]
    have low : off % 2 ^ 32 &&& 16777215 = off % 2 ^ 32 % 2 ^ 24 := Nat.and_two_pow_sub_one_eq_mod _ 24
    simp only [BitVec.reduceToNat]
    omega
  have hval : (scePfid dev off).toNat = dev * 2 ^ 24 + off % 2 ^ 24 := by
    unfold scePfid
    rw [BitVec.toNat_or, BitVec.toNat_shiftLeft, hdev, hoff, Nat.shiftLeft_eq, Nat.mod_eq_of_lt (by omega),
      Nat.mul_comm, ← Nat.two_pow_add_eq_or_of_lt (Nat.mod_lt _ (by decide))]
  simp only [phys, scePfidDev_eq, scePfidOff_eq, hval, Phys.mk.injEq]
  omega

/-- The data bits of a word are the pfid of the fragment it names. -/
theorem scePfid_phys (w : Word) : scePfid (phys w).dev (phys w).off = fragdescData w := by
  show ((BitVec.ofNat 32 ((w >>> 24) &&& 0xF#32).toNat &&& 0xF#32) <<< 24) |||
    (BitVec.ofNat 32 (w &&& 0x00FFFFFF#32).toNat &&& 0x00FFFFFF#32) = w &&& fragdescDatamask
  rw [BitVec.ofNat_toNat, BitVec.ofNat_toNat, BitVec.setWidth_eq, BitVec.setWidth_eq]
  ext i hi
  interval_cases i <;> simp [fragdescDatamask]

theorem fragdescData_eq {w : Word} {a : Phys} (dev : a.dev < 16) (named : a.off < 2 ^ 24) :
    fragdescData w = scePfid a.dev a.off ↔ phys w = a := by
  constructor
  · intro same
    have data : phys w = phys (fragdescData w) := phys_congr (by rw [fragdescData, BitVec.and_assoc, BitVec.and_self])
    rw [data, same, phys_scePfid dev, Nat.mod_eq_of_lt named]
  · rintro rfl
    exact (scePfid_phys w).symm

end Iostash
