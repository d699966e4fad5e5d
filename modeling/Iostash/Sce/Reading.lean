import Iostash.Sce.Reclaim
import Iostash.Sce.Interface

/-!
# Reads

`sce_get4read` and `sce_put4read` on the abstract cache.
-/

namespace Iostash

variable {s : Sce} {i f x n : Nat} {m : Slot}

/-- `c` serves the `n` sectors from `x` on of LUN `i`. -/
def View.served (v : View) (i x n : Nat) (c : Cell) : Prop :=
  ∃ l, v.lun i = some l ∧ l.waiting = false ∧ 0 < n ∧ x + n ≤ l.nrSctr ∧
    (x + n - 1) / sceSctrPerFrag = x / sceSctrPerFrag ∧ v.cell i (u32 (x / sceSctrPerFrag)) = some c ∧
    c.valid = true ∧
    ∀ p, x / sceSctrPerPage % scePagePerFrag ≤ p → p ≤ (x + n - 1) / sceSctrPerPage % scePagePerFrag →
      c.bad p = false

/-! ### Sector arithmetic -/

/-- A read that passes the checks of the code does not wrap and lies in one fragment. -/
theorem read_span {N : Nat} (hx : x < 2 ^ 64) (hn : 0 < n) (hn' : n < 2 ^ 32) (hN : N < 2 ^ 32)
    (fits : u32 (x / 8 % 256 + u32 (sub64 (sub64 (u64 (x + n)) 1 / 8) (x / 8) + 1)) ≤ 256)
    (inside : u32 (x / 8 / 256) < N) : x + n < 2 ^ 64 ∧ (x + n - 1) / 2048 = x / 2048 := by
  rcases Nat.lt_or_ge (x + n) (2 ^ 64) with short | long
  · refine ⟨short, ?_⟩
    unfold u32 sub64 u64 at fits
    omega
  · exfalso
    unfold u32 sub64 u64 at fits
    unfold u32 at inside
    omega

theorem read_count (hn : 0 < n) (short : x + n < 2 ^ 64) (same : (x + n - 1) / 2048 = x / 2048) :
    u32 (sub64 (sub64 (u64 (x + n)) 1 / 8) (x / 8) + 1) = (x + n - 1) / 8 % 256 + 1 - x / 8 % 256 ∧
      x / 8 % 256 ≤ (x + n - 1) / 8 % 256 := by
  unfold u32 sub64 u64
  omega

theorem Shape.nrSctr_lt (h : Shape s) {l : Lun} (lun : s.luntbl i = some l) : l.nrSctr < 2 ^ 64 := by
  obtain ⟨_, _, bound, _⟩ := h.luns.bounds i _ _ (Sce.extent_eq_some.mpr ⟨l, lun, rfl, rfl⟩)
  simp only [sceSctrPerFrag] at bound
  omega

theorem inRange_iff {l : Lun} (short : x + n < 2 ^ 64) : inRange l x n = true ↔ 0 < n ∧ x + n ≤ l.nrSctr := by
  simp [inRange, u64_of_lt short, Nat.pos_iff_ne_zero]

theorem lockLun_eq_some {l : Lun} {svcchk : Bool} : lockLun s i x n svcchk = some l ↔
    s.luntbl i = some l ∧ inRange l x n = true ∧ (svcchk = true → l.waiting4deletion = false) := by
  unfold lockLun
  rw [Option.filter_eq_some_iff]
  cases svcchk <;> simp

/-! ### `_frag_isvalid` -/

theorem fragIsvalid_spec {g : Frag} {pgoff pgcnt : Nat} (len : g.bitmap.length = bitmapArraySize)
    (pos : 0 < pgcnt) (fits : pgoff + pgcnt ≤ scePagePerFrag) : ∃ r, fragIsvalid g pgoff pgcnt = .ok r ∧
      (r = .success ↔ ∀ q, pgoff ≤ q → q < pgoff + pgcnt → bitmapBit g.bitmap q = false) := by
  unfold fragIsvalid
  rw [if_neg (by simp only [scePagePerFrag] at *; omega)]
  exact checkBitmap_iff pos (by rw [len]; simpa using fits)

/-! ### `sce_get4read` -/

theorem View.setCell_congr {v : View} {φ ψ : Cell → Cell} (same : ∀ c, v.cell i f = some c → φ c = ψ c) :
    v.setCell i f φ = v.setCell i f ψ := by
  refine View.ext_fields rfl rfl ?_ fun _ => Iff.rfl
  funext j k
  simp only [View.setCell_cell]
  split
  · rename_i here
    obtain ⟨rfl, rfl⟩ := here
    cases cell : v.cell j k with
    | none => rfl
    | some c => simp [same c cell]
  · rfl

theorem Inv.modifyFrag_same {φ : Frag → Frag} (h : Inv nowhere s) (slot : s.slot i f = some m)
    (node : (φ m.frag).node = m.frag.node) (bitmap : (φ m.frag).bitmap = m.frag.bitmap)
    (nrValid : (φ m.frag).nrValid = m.frag.nrValid) (service : (φ m.frag).nrService = m.frag.nrService) :
    Inv nowhere (s.modifyFrag m.addr φ) ∧ (s.modifyFrag m.addr φ).view = s.view := by
  refine ⟨h.modifyFrag slot node (by rw [bitmap, nrValid]; exact h.pages _ _ _ slot), ?_⟩
  rw [h.shape.view_modifyFrag slot node]
  refine View.ext_fields rfl rfl ?_ fun _ => Iff.rfl
  funext j k
  rw [View.setCell_cell]
  split
  · rename_i here
    obtain ⟨rfl, rfl⟩ := here
    rw [Sce.view_cell_some slot]
    simp [Slot.cell, bitmap, service]
  · rfl

/-- The pages from `off` on of cell `c` can be read. -/
def Cell.readable (c : Cell) (off cnt : Nat) : Prop :=
  c.valid = true ∧ ∀ q, off ≤ q → q < off + cnt → c.bad q = false

theorem misslogPut_view (h : Inv nowhere s) (miss lunidx fragnum : Nat) :
    Inv nowhere (misslogPut { s with nrMiss := miss } lunidx fragnum) ∧
      (misslogPut { s with nrMiss := miss } lunidx fragnum).view = s.view :=
  h.congr rfl rfl rfl rfl rfl rfl rfl

/-- The lookup is a hit on a readable cell, and changes nothing in the abstract cache otherwise. -/
theorem get4readFrag_spec (h : Inv nowhere s) {l : Lun} (lun : s.luntbl i = some l) (inside : f < l.nrFrag)
    {off cnt : Nat} (pos : 0 < cnt) (fits : off + cnt ≤ scePagePerFrag) :
    (∃ c ctx size s', s.view.cell i f = some c ∧ c.readable off cnt ∧ s.dev c.addr.dev = some (ctx, size) ∧
      get4readFrag s i l f off cnt = .ok (some ⟨ctx, c.addr.off⟩, s') ∧ Inv nowhere s' ∧
      s'.view = s.view.pin i f) ∨
    ((∀ c, s.view.cell i f = some c → ¬ c.readable off cnt) ∧
      ∃ s', get4readFrag s i l f off cnt = .ok (none, s') ∧ Inv nowhere s' ∧ s'.view = s.view) := by
  cases slot : s.slot i f with
  | none =>
    have place := h.shape.slot_none_iff.mp slot
    have clear := h.shape.unmapped lun inside slot
    obtain ⟨h₁, view₁⟩ := h.setDesc_unmapped (w := fragdescInc (l.fragmap f)) place (by simpa using clear)
    obtain ⟨h₂, view₂⟩ := misslogPut_view h₁ (u32 (s.nrMiss + 1)) i f
    refine Or.inr ⟨?_, _, ?_, h₂, view₂.trans view₁⟩
    · intro c cell
      rw [Sce.view_cell, slot] at cell
      cases cell
    · simp only [get4readFrag, clear]
      rfl
  | some m =>
    obtain ⟨l', lun', _, mapped, addr, valid, frag⟩ := Sce.slot_eq_some.mp slot
    obtain rfl := Option.some.inj (lun.symm.trans lun')
    have cell := Sce.view_cell_some slot
    obtain ⟨r, check, clean⟩ := fragIsvalid_spec (h.pages _ _ _ slot).1 pos fits
    have hit : isHit (l.fragmap f) m.frag off cnt = .ok (if m.valid then r else .error) := by
      unfold isHit
      rw [← valid, check]
      split <;> rfl
    have readable : (if m.valid then r else .error) = Ret.success ↔ m.cell.readable off cnt := by
      unfold Cell.readable
      cases v : m.valid <;> simp [Slot.cell, v, clean]
    simp only [get4readFrag, mapped, Sce.pfid2frag, ← addr, frag, hit, bind, Except.bind, pure, Except.pure]
    by_cases good : m.cell.readable off cnt
    · refine Or.inl ⟨m.cell, ?_⟩
      have h₁ : Inv nowhere (s.modifyFrag m.addr Frag.hit) := h.modifyFrag slot rfl (h.pages _ _ _ slot)
      have h₂ : Inv nowhere ((s.modifyFrag m.addr Frag.hit).modifyLun i Lun.hit) :=
        h₁.modifyLun (fun _ _ => rfl) (fun _ _ => rfl) (fun _ _ => rfl)
      have view₁ : (s.modifyFrag m.addr Frag.hit).view =
          s.view.setCell i f fun c => { c with service := u16 (c.service + 1) } := by
        rw [h.shape.view_modifyFrag slot rfl]
        refine View.setCell_congr fun c here => ?_
        obtain rfl := Option.some.inj (cell.symm.trans here)
        rfl
      have view₂ : ((s.modifyFrag m.addr Frag.hit).modifyLun i Lun.hit).view = s.view.pin i f := by
        rw [Sce.view_modifyLun (ψ := Lun.hit) (χ := fun l => { l with service := u32 (l.service + 1) })
          (fun _ _ => rfl) (fun _ _ => rfl) (fun _ _ => rfl), view₁]
        rfl
      have there : ((s.modifyFrag m.addr Frag.hit).modifyLun i Lun.hit).frag? (phys (l.fragmap f)) =
          some m.frag.hit := by
        rw [← addr, Sce.modifyLun_frag?, Sce.modifyFrag_frag?_self, frag]
        rfl
      obtain ⟨ctx, size, dev, fmap⟩ := Sce.pfid2fmap_of_frag there
      rw [Sce.modifyLun_dev, Sce.modifyFrag_dev, ← addr] at dev
      obtain ⟨h₃, view₃⟩ := h₂.congr (t := { (s.modifyFrag m.addr Frag.hit).modifyLun i Lun.hit with
        nrHit := u32 (((s.modifyFrag m.addr Frag.hit).modifyLun i Lun.hit).nrHit + 1) })
        rfl rfl rfl rfl rfl rfl rfl
      refine ⟨ctx, size, _, cell, good, dev, ?_, h₃, view₃.trans view₂⟩
      simp only [if_pos (readable.mpr good), fmap]
      simp [← addr, Slot.cell]
    · refine Or.inr ⟨?_, ?_⟩
      · intro c cell'
        obtain rfl := Option.some.inj (cell.symm.trans cell')
        exact good
      · obtain ⟨h₁, view₁⟩ := h.modifyFrag_same (φ := fun g => { g with nrMiss := u32 (g.nrMiss + 1) })
          slot rfl rfl rfl rfl
        obtain ⟨h₂, view₂⟩ := misslogPut_view h₁ (u32 (s.nrMiss + 1)) i f
        refine ⟨_, ?_, h₂, view₂.trans view₁⟩
        simp only [if_neg (readable.not.mpr good)]
        rfl

theorem page_div (x : Nat) : x / sceSctrPerPage / scePagePerFrag = x / sceSctrPerFrag := by
  simp only [sceSctrPerPage, scePagePerFrag, sceSctrPerFrag]
  omega

/-- A LUN accepts the range, and its map has no fragment `f`. -/
def Sce.pastMap (s : Sce) (i x n f : Nat) : Prop :=
  ∃ l, s.luntbl i = some l ∧ inRange l x n = true ∧ l.nrFrag ≤ u32 f

/-- A read is a hit on a cell that serves it, and changes nothing in the abstract cache otherwise. The
descriptor is read past the end of the map when the LUN is too long for `nr_frag`. -/
theorem sceGet4read_spec (h : Inv nowhere s) (i : Nat) (hx : x < 2 ^ 64) (hn' : n < 2 ^ 32) :
    (∃ c ctx size s', s.view.served i x n c ∧ s.dev c.addr.dev = some (ctx, size) ∧
      sceGet4read s i x n = .ok (some ⟨ctx, c.addr.off⟩, s') ∧ Inv nowhere s' ∧
      s'.view = s.view.pin i (u32 (x / sceSctrPerFrag))) ∨
    ((∀ c, ¬ s.view.served i x n c) ∧
      ((sceGet4read s i x n = .error .outOfRange ∧ s.pastMap i x n (x / sceSctrPerFrag)) ∨
      ∃ s', sceGet4read s i x n = .ok (none, s') ∧ Inv nowhere s' ∧ s'.view = s.view)) := by
  cases lock : lockLun s i x n true with
  | none =>
    refine Or.inr ⟨?_, Or.inr ⟨s, by simp [sceGet4read, lock], h, rfl⟩⟩
    rintro c ⟨_, volume, active, hn, bound, _⟩
    rw [Sce.view_lun] at volume
    obtain ⟨l, lun, rfl⟩ := Option.map_eq_some_iff.mp volume
    have limit := h.shape.nrSctr_lt lun
    simp only [Lun.volume] at bound active
    have locked : lockLun s i x n true = some l :=
      lockLun_eq_some.mpr ⟨lun, (inRange_iff (by omega)).mpr ⟨hn, bound⟩, fun _ => active⟩
    rw [lock] at locked
    cases locked
  | some l =>
    obtain ⟨lun, range, active⟩ := lockLun_eq_some.mp lock
    replace active := active rfl
    have hn : 0 < n := by
      by_contra z
      simp [inRange, Nat.eq_zero_of_not_pos z] at range
    have frags := h.shape.nrFrag_lt lun
    obtain ⟨ψ, hψ⟩ : ∃ ψ : Lun → Lun, ψ = fun l => { l with stats := { l.stats with
      reads := l.stats.reads + 1, readSctrs := l.stats.readSctrs + (n : Nat) } } := ⟨_, rfl⟩
    have h₁ : Inv nowhere (s.modifyLun i ψ) :=
      h.modifyLun (by simp [hψ]) (by simp [hψ]) (by simp [hψ])
    have view₁ : (s.modifyLun i ψ).view = s.view :=
      Sce.view_modifyLun_same (by simp [hψ]) (by simp [hψ]) (by simp [hψ, Lun.volume])
    have lun₁ : (s.modifyLun i ψ).luntbl i = some (ψ l) := by simp [lun]
    have volume : s.view.lun i = some l.volume := by rw [Sce.view_lun, lun]; rfl
    simp only [sceGet4read, lock, ← hψ, page_div]
    -- what the code checks is what `served` asks of the range
    have facts : ∀ c, s.view.served i x n c → x + n < 2 ^ 64 ∧ (x + n - 1) / 2048 = x / 2048 ∧
        u32 (x / sceSctrPerFrag) < l.nrFrag := by
      rintro c ⟨l', volume', _, _, bound, one, cell, _⟩
      obtain rfl := Option.some.inj (volume.symm.trans volume')
      have limit := h.shape.nrSctr_lt lun
      simp only [Lun.volume] at bound
      rw [Sce.view_cell] at cell
      obtain ⟨m, slot, _⟩ := Option.map_eq_some_iff.mp cell
      obtain ⟨l'', lun'', inside⟩ := Sce.lun_of_slot slot
      obtain rfl := Option.some.inj (lun.symm.trans lun'')
      exact ⟨by omega, one, inside⟩
    split
    · rename_i long
      refine Or.inr ⟨?_, Or.inr ⟨_, rfl, h₁, view₁⟩⟩
      intro c serves
      obtain ⟨short, one, _⟩ := facts c serves
      obtain ⟨count, order⟩ := read_count hn short one
      simp only [scePagePerFrag, sceSctrPerPage, count] at long
      unfold u32 at long
      omega
    · rename_i fits
      split
      · rename_i past
        have past : l.nrFrag ≤ u32 (x / sceSctrPerFrag) := past
        refine Or.inr ⟨?_, Or.inl ⟨rfl, l, lun, range, past⟩⟩
        intro c serves
        exact absurd (facts c serves).2.2 (Nat.not_lt.mpr past)
      · rename_i inside
        simp only [scePagePerFrag, sceSctrPerPage, Nat.not_lt] at fits
        have place : u32 (x / 8 / 256) < l.nrFrag := by
          rw [show x / 8 / 256 = x / sceSctrPerFrag from page_div x]
          exact Nat.not_le.mp inside
        obtain ⟨short, one⟩ := read_span hx hn hn' frags fits place
        obtain ⟨count, order⟩ := read_count hn short one
        have bound := ((inRange_iff short).mp range).2
        simp only [scePagePerFrag, sceSctrPerPage, count]
        have size : (ψ l).nrFrag = l.nrFrag := by simp [hψ]
        have same : ∀ off cnt, get4readFrag (s.modifyLun i ψ) i l (u32 (x / sceSctrPerFrag)) off cnt =
            get4readFrag (s.modifyLun i ψ) i (ψ l) (u32 (x / sceSctrPerFrag)) off cnt := by
          intro off cnt
          simp [get4readFrag, hψ]
        rw [same]
        have served : ∀ c, s.view.served i x n c ↔ s.view.cell i (u32 (x / sceSctrPerFrag)) = some c ∧
            c.readable (x / 8 % 256) ((x + n - 1) / 8 % 256 + 1 - x / 8 % 256) := by
          intro c
          unfold View.served Cell.readable
          constructor
          · rintro ⟨_, _, _, _, _, _, cell, valid, clean⟩
            exact ⟨cell, valid, fun q low high => clean q low (by simp only [sceSctrPerPage, scePagePerFrag]; omega)⟩
          · rintro ⟨cell, valid, clean⟩
            refine ⟨l.volume, volume, active, hn, bound, one, cell, valid, fun q low high => ?_⟩
            simp only [sceSctrPerPage, scePagePerFrag] at low high
            exact clean q low (by omega)
        have inside₁ : u32 (x / sceSctrPerFrag) < (ψ l).nrFrag := by rw [size]; exact Nat.not_le.mp inside
        have pos : 0 < (x + n - 1) / 8 % 256 + 1 - x / 8 % 256 := by omega
        have fits : x / 8 % 256 + ((x + n - 1) / 8 % 256 + 1 - x / 8 % 256) ≤ scePagePerFrag := by
          simp only [scePagePerFrag]
          omega
        rcases get4readFrag_spec h₁ lun₁ inside₁ pos fits with hit | ⟨miss, s', run, h', view'⟩
        · obtain ⟨c, ctx, sz, s', cell, good, dev, run, h', view'⟩ := hit
          rw [view₁] at cell view'
          exact Or.inl ⟨c, ctx, sz, s', (served c).mpr ⟨cell, good⟩, dev, run, h', view'⟩
        · rw [view₁] at miss view'
          exact Or.inr ⟨fun c serves => miss c ((served c).mp serves).1 ((served c).mp serves).2,
            Or.inr ⟨s', run, h', view'⟩⟩

/-! ### `sce_put4read` -/

/-- The end of a read finds something to give back. -/
def View.inService (v : View) (i x n : Nat) : Prop :=
  ∃ l c, v.lun i = some l ∧ x + n ≤ l.nrSctr ∧ x / sceSctrPerFrag < 2 ^ 32 ∧
    v.cell i (u32 (x / sceSctrPerFrag)) = some c ∧ c.valid = true ∧ c.service ≠ 0 ∧ l.service ≠ 0

theorem put4readFrag_spec (h : Inv nowhere s) (slot : s.slot i f = some m) (used : m.frag.nrService ≠ 0) :
    Stops s (put4readFrag s i m.addr m.frag) ∨
      ∃ s', put4readFrag s i m.addr m.frag = .ok (.success, s') ∧ Inv nowhere s' ∧ s'.view = s.view.unpin i f := by
  obtain ⟨φ, hφ⟩ : ∃ φ : Frag → Frag, φ = fun g => { g with nrService := g.nrService - 1 } := ⟨_, rfl⟩
  obtain ⟨ψ, hψ⟩ : ∃ ψ : Lun → Lun, ψ = fun l => { l with nrService := l.nrService - 1 } := ⟨_, rfl⟩
  have cell := Sce.view_cell_some slot
  have h₁ : Inv nowhere (s.modifyFrag m.addr φ) :=
    h.modifyFrag slot (by simp [hφ, Frag.node]) (by simpa [hφ] using h.pages _ _ _ slot)
  have h₂ : Inv nowhere ((s.modifyFrag m.addr φ).modifyLun i ψ) :=
    h₁.modifyLun (by simp [hψ]) (by simp [hψ]) (by simp [hψ])
  have view₂ : ((s.modifyFrag m.addr φ).modifyLun i ψ).view =
      (s.view.setCell i f fun c => { c with service := c.service - 1 }).setLun i
        fun l => { l with service := l.service - 1 } := by
    rw [Sce.view_modifyLun (χ := fun l => { l with service := l.service - 1 }) (by simp [hψ]) (by simp [hψ])
      (by simp [hψ, Lun.volume]), h.shape.view_modifyFrag slot (by simp [hφ, Frag.node])]
    congr 1
    refine View.setCell_congr fun c here => ?_
    obtain rfl := Option.some.inj (cell.symm.trans here)
    simp [Slot.cell, hφ]
  have slot₂ : ((s.modifyFrag m.addr φ).modifyLun i ψ).slot i f = some { m with frag := φ m.frag } := by
    rw [Sce.slot_modifyLun (by simp [hψ]) (by simp [hψ]), Sce.slot_modifyFrag, slot]
    simp
  simp only [put4readFrag, ← hφ, ← hψ, bind, Except.bind, pure, Except.pure, View.unpin, cell]
  by_cases last : m.frag.nrService = 1
  · rw [if_pos (show m.frag.nrService - 1 = 0 by omega)]
    rcases lunGc_spec h₂ slot₂ with stop | ⟨s', gc, h', view'⟩
    · exact Or.inl (stop.of_view view₂ rfl fun e => by simp only [e])
    · exact Or.inr ⟨s', by simp only [gc], h', by simp [view', view₂, Slot.cell, last]⟩
  · refine Or.inr ⟨_, ?_, h₂, ?_⟩
    · rw [if_neg (by omega)]
    · simp [view₂, Slot.cell, last]

/-- The end of a read, for a range an earlier read was served on. -/
theorem scePut4read_spec (h : Inv nowhere s) (i : Nat) (hn : 0 < n) (short : x + n < 2 ^ 64)
    (one : (x + n - 1) / sceSctrPerFrag = x / sceSctrPerFrag) :
    (s.view.inService i x n ∧ (Stops s (scePut4read s i x n) ∨
      ∃ s', scePut4read s i x n = .ok (.success, s') ∧ Inv nowhere s' ∧
        s'.view = s.view.unpin i (u32 (x / sceSctrPerFrag)))) ∨
    (¬ s.view.inService i x n ∧
      ((scePut4read s i x n = .error .outOfRange ∧ s.pastMap i x n (x / sceSctrPerFrag)) ∨
        scePut4read s i x n = .ok (.error, s))) := by
  have last : sub64 (u64 (x + n)) 1 = x + n - 1 := by rw [u64_of_lt short, sub64_of_le (by omega) short]
  have fold : ∀ l, s.luntbl i = some l → s.view.lun i = some l.volume := by
    intro l lun
    rw [Sce.view_lun, lun]
    rfl
  cases lock : lockLun s i x n false with
  | none =>
    refine Or.inr ⟨?_, Or.inr (by simp [scePut4read, lock])⟩
    rintro ⟨_, c, volume, bound, _⟩
    rw [Sce.view_lun] at volume
    obtain ⟨l, lun, rfl⟩ := Option.map_eq_some_iff.mp volume
    have locked : lockLun s i x n false = some l :=
      lockLun_eq_some.mpr ⟨lun, (inRange_iff short).mpr ⟨hn, bound⟩, fun e => Bool.noConfusion e⟩
    rw [lock] at locked
    cases locked
  | some l =>
    obtain ⟨lun, range, _⟩ := lockLun_eq_some.mp lock
    have bound := ((inRange_iff short).mp range).2
    simp only [scePut4read, lock, last, one]
    split
    · rename_i big
      refine Or.inr ⟨?_, Or.inr rfl⟩
      rintro ⟨_, c, _, _, small, _⟩
      exact big (u32_of_lt small).symm
    · rename_i small
      replace small : x / sceSctrPerFrag < 2 ^ 32 := by
        rw [not_not.mp small]
        exact u32_lt _
      split
      · rename_i past
        refine Or.inr ⟨?_, Or.inl ⟨rfl, l, lun, range, past⟩⟩
        rintro ⟨_, c, _, _, _, cell, _⟩
        rw [Sce.view_cell] at cell
        obtain ⟨m, slot, _⟩ := Option.map_eq_some_iff.mp cell
        obtain ⟨l', lun', inside⟩ := Sce.lun_of_slot slot
        obtain rfl := Option.some.inj (lun.symm.trans lun')
        exact absurd inside (Nat.not_lt.mpr past)
      · rename_i inside
        replace inside := Nat.not_le.mp inside
        cases slot : s.slot i (u32 (x / sceSctrPerFrag)) with
        | none =>
          have clear := h.shape.unmapped lun inside slot
          refine Or.inr ⟨?_, Or.inr (by simp [clear])⟩
          rintro ⟨_, c, _, _, _, cell, _⟩
          rw [Sce.view_cell, slot] at cell
          cases cell
        | some m =>
          obtain ⟨l', lun', _, mapped, addr, valid, frag⟩ := Sce.slot_eq_some.mp slot
          obtain rfl := Option.some.inj (lun.symm.trans lun')
          have cell := Sce.view_cell_some slot
          simp only [mapped, ← valid, Sce.pfid2frag, ← addr, frag, Bool.true_eq_false, false_or]
          by_cases ready : m.valid = true ∧ m.frag.nrService ≠ 0 ∧ l.nrService ≠ 0
          · obtain ⟨good, used, counted⟩ := ready
            refine Or.inl ⟨⟨l.volume, m.cell, fold l lun, bound, small, cell, good, used, counted⟩, ?_⟩
            rw [if_neg (by simp [good]), if_neg (by simp [used, counted])]
            exact put4readFrag_spec h slot used
          · refine Or.inr ⟨?_, Or.inr ?_⟩
            · rintro ⟨_, c, volume, _, _, cell', good, used, counted⟩
              obtain rfl := Option.some.inj (cell.symm.trans cell')
              obtain rfl := Option.some.inj ((fold l lun).symm.trans volume)
              exact ready ⟨good, used, counted⟩
            · split
              · rfl
              · split
                · rfl
                · rename_i good used
                  exact absurd ⟨by simpa using good, fun e => used (Or.inl e), fun e => used (Or.inr e)⟩ ready

end Iostash
