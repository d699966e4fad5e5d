import Mathlib.Order.Interval.Set.Defs
import Iostash.Block.Coherence

/-!
# I/O in flight on the cache devices

A population writes a fragment of its cache device, and a read bio that hit reads from one. The sectors are
those of fragments the engine has given out, so no two of them are the same and none is outside the device.
-/

namespace Iostash

open Util

/-- The sectors `poptask_write` writes. -/
def Poptask.extent (task : Poptask) : Set Nat :=
  Set.Ico (poptaskWriteRegion task.cdevFragnum).sector
    ((poptaskWriteRegion task.cdevFragnum).sector + (poptaskWriteRegion task.cdevFragnum).count)

/-- The sectors the clone of a read bio for the cache device reads. -/
def ReadBio.extent (r : ReadBio) (m : Fmap) : Set Nat :=
  Set.Ico (cloneSector m.fragnum r.psn) (cloneSector m.fragnum r.psn + r.nrSctr)

/-- The sectors of fragment `c` of a cache device. -/
def fragExtent (c : Nat) : Set Nat := Set.Ico (ssdSector c 0) (ssdSector (c + 1) 0)

variable {c k n : Nat} {r : ReadBio} {m : Fmap} {task : Poptask}

theorem fragExtent_disjoint (ne : c ≠ k) {a : Nat} (here : a ∈ fragExtent c) : a ∉ fragExtent k := by
  intro there
  refine ne ?_
  simp only [fragExtent, Set.mem_Ico, ssdSector, iostashHeaderSct, sceSctrPerFrag] at here there
  omega

theorem fragExtent_subset (lt : c < n) :
    fragExtent c ⊆ Set.Ico iostashHeaderSct (iostashHeaderSct + n * sceSctrPerFrag) := by
  intro a here
  simp only [fragExtent, Set.mem_Ico, ssdSector, iostashHeaderSct, sceSctrPerFrag] at here ⊢
  omega

theorem Poptask.extent_eq (small : task.cdevFragnum < 2 ^ 21 - 1) : task.extent = fragExtent task.cdevFragnum := by
  have size : (poptaskWriteRegion task.cdevFragnum).count = sceSctrPerFrag := rfl
  unfold Poptask.extent fragExtent
  rw [size, poptaskWriteRegion_sector (by omega)]
  congr 1
  simp only [ssdSector, iostashHeaderSct, sceSctrPerFrag]
  omega

namespace Store

variable {s : Store} {id : Nat} {contents : Nat × Nat → Sector} {ssd : Nat → Nat → Sector}

theorem Hit.extent_subset (hit : s.Hit r id m) : r.extent m ⊆ fragExtent m.fragnum := by
  intro a here
  have one := hit.one
  rw [ReadBio.extent, hit.start] at here
  simp only [fragExtent, Set.mem_Ico, ssdSector, iostashHeaderSct, sceSctrPerFrag] at here one ⊢
  omega

/-- Two populations outstanding of one device are of different fragments. -/
theorem Coherent.populations_apart (h : s.Coherent) {p p' : Pop} (member : p ∈ s.world.pops) (member' : p' ∈ s.world.pops)
    (ne : p ≠ p') (same : p.task.cdevctx = p'.task.cdevctx) : p.task.cdevFragnum ≠ p'.task.cdevFragnum := by
  intro frag
  obtain ⟨i, l, c, n, _, _, cell, _, born, dev, off, _⟩ := h.population member
  obtain ⟨i', l', c', n', _, _, cell', _, born', dev', off', _⟩ := h.population member'
  have slot := h.faithful.base.inv.shape.devices.unique _ _ _ _ _ dev (same ▸ dev')
  have place : c'.addr = c.addr := congrArg₂ Phys.mk slot.symm (off'.symm.trans (frag.symm.trans off))
  obtain ⟨rfl, fragnum⟩ := h.faithful.base.inv.sound.inj _ _ _ _ _ _ cell cell' place
  rw [← fragnum, born'] at born
  exact ne (Pop.eq_of_id h.faithful.base.popNodup member member' born.symm)

/-- What is written and read at the same time on the cache devices. -/
structure Apart (s : Store) : Prop where
  writes : ∀ p ∈ s.world.pops, ∀ p' ∈ s.world.pops, p ≠ p' → p.task.cdevctx = p'.task.cdevctx →
    ∀ a ∈ p.task.extent, a ∉ p'.task.extent
  reads : ∀ p ∈ s.world.pops, ∀ r ∈ s.reads, ∀ hit ∈ r.hit, hit.2.cdevctx = p.task.cdevctx →
    ∀ a ∈ p.task.extent, a ∉ r.extent hit.2
  written : ∀ p ∈ s.world.pops, ∃ d cdev, s.world.sce.cdevtbl d = some cdev ∧ cdev.cdevctx = p.task.cdevctx ∧
    p.task.extent ⊆ Set.Ico iostashHeaderSct (iostashHeaderSct + cdev.nrFrag * sceSctrPerFrag)
  read : ∀ r ∈ s.reads, ∀ hit ∈ r.hit, ∀ d cdev, s.world.sce.cdevtbl d = some cdev → cdev.cdevctx = hit.2.cdevctx →
    r.extent hit.2 ⊆ Set.Ico iostashHeaderSct (iostashHeaderSct + cdev.nrFrag * sceSctrPerFrag)

/-- No population writes what another one writes or a read bio reads, and none of them is outside its device. -/
theorem io_disjoint (reached : Reachable exec Careful (init contents ssd) s) : s.Apart := by
  obtain ⟨h, reading⟩ := coherent_of_reachable reached
  refine ⟨?_, ?_, ?_, ?_⟩
  · intro p member p' member' ne same
    obtain ⟨_, _, _, _, _, _, _, _, _, _, _, small⟩ := h.population member
    obtain ⟨_, _, _, _, _, _, _, _, _, _, _, small'⟩ := h.population member'
    rw [Poptask.extent_eq small, Poptask.extent_eq small']
    exact fun a => fragExtent_disjoint (h.populations_apart member member' ne same)
  · rintro p member r there ⟨id, m⟩ hit same
    obtain ⟨_, _, _, _, _, _, _, _, _, _, _, small⟩ := h.population member
    have hit := reading.hits r there id m hit
    rw [Poptask.extent_eq small]
    intro a here there
    exact fragExtent_disjoint (hit.apart h member same).symm here (hit.extent_subset there)
  · intro p member
    obtain ⟨i, l, c, n, _, _, cell, _, _, dev, off, small⟩ := h.population member
    obtain ⟨_, _, n', dev', lt⟩ := h.faithful.base.inv.sound.there _ _ c cell
    obtain ⟨_, rfl⟩ := Prod.mk.inj (Option.some.inj (dev.symm.trans dev'))
    obtain ⟨cdev, here, ctx, rfl⟩ := Sce.dev_eq_some.mp dev
    refine ⟨c.addr.dev, cdev, here, ctx, ?_⟩
    rw [Poptask.extent_eq small]
    exact fragExtent_subset (off ▸ lt)
  · rintro r there ⟨id, m⟩ hit d cdev here ctx
    have hit := reading.hits r there id m hit
    obtain ⟨q, member, _, pinned⟩ := hit.pins
    obtain ⟨live, addr⟩ := pinned d cdev.nrFrag (Sce.dev_eq_some.mpr ⟨cdev, here, ctx, rfl⟩)
    obtain ⟨c, cell, _, addr'⟩ := h.pinned.held.there q member live
    obtain ⟨_, ctx', n', dev', lt⟩ := h.faithful.base.inv.sound.there _ _ c cell
    rw [addr', addr] at dev' lt
    obtain ⟨cdev', here', _, rfl⟩ := Sce.dev_eq_some.mp dev'
    obtain rfl := Option.some.inj (here.symm.trans here')
    exact hit.extent_subset.trans (fragExtent_subset lt)

/-- The first fragment of a disk is being read from the cache while the second is being populated. -/
def busy : Store :=
  (Util.execAll exec calm blank
    [.addcdev 4096 7 true, .register 9 4096 true, .read 9 ⟨0, 4096, 0⟩, .get4pop fun _ _ => 0#32,
      .poptaskRead 3 fun _ => filled 0#8, .poptaskWrite 3, .put4pop 3, .read 9 ⟨0, 4096, 0⟩,
      .read 9 ⟨2048, 4096, 0⟩, .get4pop fun _ _ => 0#32]).getD blank

theorem io_disjoint_busy : busy.world.pops.map (fun p => (p.task.cdevctx, p.task.cdevFragnum)) = [(7, 1)] ∧
    busy.reads.map ReadBio.hit = [none, some (5, ⟨7, 0⟩), none] ∧ busy.Apart :=
  ⟨by decide +kernel, by decide +kernel,
    io_disjoint
      (Util.reachable_getD (fun _ _ => careful_of_calm) (by decide +kernel))⟩

end Store

end Iostash
