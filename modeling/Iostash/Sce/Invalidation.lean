import Iostash.Sce.Reading

/-!
# Invalidation

`sce_invalidate` works fragment by fragment; on the abstract cache it is one change of a range of
pages.
-/

namespace Iostash

variable {s : Sce} {v : View} {c : Cell} {i f k start cnt x n : Nat} {m : Slot}

/-! ### Ranges of pages -/

theorem touched_iff : touched f start cnt = true ↔
    f * 256 < start + cnt ∧ start < (f + 1) * 256 ∧ 0 < cnt := by
  simp only [touched, scePagePerFrag, decide_eq_true_eq]
  omega

theorem Cell.mark_untouched (off : touched f start cnt = false) : c.mark f start cnt = c := by
  have clear : ∀ p, (decide (p < scePagePerFrag) && (decide (start ≤ f * scePagePerFrag + p) &&
      decide (f * scePagePerFrag + p < start + cnt))) = false := by
    intro p
    rw [← Bool.not_eq_true, touched_iff] at off
    simp only [scePagePerFrag, Bool.and_eq_false_iff, decide_eq_false_iff_not]
    omega
  simp [Cell.mark, clear]

theorem Cell.goes_untouched (off : touched f start cnt = false) : c.goes f start cnt = false := by
  simp [Cell.goes, off]

/-- Only the part of a range inside the fragment counts. -/
theorem Cell.mark_congr {start' cnt' : Nat}
    (same : ∀ p, p < 256 → (start ≤ f * 256 + p ∧ f * 256 + p < start + cnt ↔
      start' ≤ f * 256 + p ∧ f * 256 + p < start' + cnt')) : c.mark f start cnt = c.mark f start' cnt' := by
  unfold Cell.mark
  congr 1
  funext p
  congr 1
  rw [Bool.eq_iff_iff]
  simp only [scePagePerFrag, Bool.and_eq_true, decide_eq_true_eq]
  constructor
  · rintro ⟨lt, inside⟩
    exact ⟨lt, (same p lt).mp inside⟩
  · rintro ⟨lt, inside⟩
    exact ⟨lt, (same p lt).mpr inside⟩

theorem Cell.goes_congr {start' cnt' : Nat}
    (same : ∀ p, p < 256 → (start ≤ f * 256 + p ∧ f * 256 + p < start + cnt ↔
      start' ≤ f * 256 + p ∧ f * 256 + p < start' + cnt')) : c.goes f start cnt = c.goes f start' cnt' := by
  have touch : touched f start cnt = touched f start' cnt' := by
    rw [Bool.eq_iff_iff, touched_iff, touched_iff]
    constructor
    · intro inside
      have := same (max start (f * 256) - f * 256) (by omega)
      omega
    · intro inside
      have := same (max start' (f * 256) - f * 256) (by omega)
      omega
  rw [Cell.goes, Cell.goes, Cell.mark_congr same, touch]

theorem View.invalidate_zero : v.invalidate i start 0 = v := by
  have off : ∀ f, touched f start 0 = false := by
    intro f
    rw [← Bool.not_eq_true, touched_iff]
    omega
  refine View.ext_fields rfl rfl ?_ ?_
  · funext j f
    simp only [View.invalidate, Cell.goes_untouched (off _), Cell.mark_untouched (off _)]
    split
    · rename_i e
      subst e
      cases v.cell j f <;> rfl
    · rfl
  · intro a
    simp [View.invalidate, Cell.goes_untouched (off _)]

/-- A range that ends at the end of a fragment, and the rest after it. -/
theorem View.invalidate_append {a b : Nat} (edge : start + a = (f + 1) * 256) (here : f * 256 ≤ start)
    (pos : 0 < a) : (v.invalidate i start a).invalidate i (start + a) b = v.invalidate i start (a + b) := by
  have before : ∀ k, k ≤ f → touched k (start + a) b = false ∧
      ∀ p, p < 256 → (start ≤ k * 256 + p ∧ k * 256 + p < start + a ↔
        start ≤ k * 256 + p ∧ k * 256 + p < start + (a + b)) := by
    intro k le
    refine ⟨?_, fun p lt => by omega⟩
    rw [← Bool.not_eq_true, touched_iff]
    omega
  have after : ∀ k, f < k → touched k start a = false ∧
      ∀ p, p < 256 → (start + a ≤ k * 256 + p ∧ k * 256 + p < start + a + b ↔
        start ≤ k * 256 + p ∧ k * 256 + p < start + (a + b)) := by
    intro k lt
    refine ⟨?_, fun p _ => by omega⟩
    rw [← Bool.not_eq_true, touched_iff]
    omega
  refine View.ext_fields rfl rfl ?_ ?_
  · funext j k
    by_cases e : j = i
    · subst e
      simp only [View.invalidate, if_true]
      cases v.cell j k with
      | none => rfl
      | some c =>
        rcases Nat.lt_or_ge f k with lt | le
        · obtain ⟨off, same⟩ := after k lt
          simp [Cell.goes_untouched off, Cell.mark_untouched off, Cell.goes_congr same, Cell.mark_congr same]
        · obtain ⟨off, same⟩ := before k le
          simp only [Option.bind_some, ← Cell.goes_congr same, ← Cell.mark_congr same]
          split
          · rfl
          · simp [Cell.goes_untouched off, Cell.mark_untouched off]
    · simp [View.invalidate, e]
  · intro p
    simp only [View.invalidate, if_true, or_assoc]
    refine or_congr_right ?_
    constructor
    · rintro (⟨k, c, cell, addr, goes⟩ | ⟨k, c, cell, addr, goes⟩)
      · refine ⟨k, c, cell, addr, ?_⟩
        rcases Nat.lt_or_ge f k with lt | le
        · rw [Cell.goes_untouched (after k lt).1] at goes
          cases goes
        · rwa [← Cell.goes_congr (before k le).2]
      · obtain ⟨c₀, cell₀, rest⟩ := Option.bind_eq_some_iff.mp cell
        rcases Nat.lt_or_ge f k with lt | le
        · obtain ⟨off, same⟩ := after k lt
          simp only [Cell.goes_untouched off, Cell.mark_untouched off] at rest
          obtain rfl := Option.some.inj rest
          exact ⟨k, c₀, cell₀, addr, by rwa [← Cell.goes_congr same]⟩
        · rw [Cell.goes_untouched (before k le).1] at goes
          cases goes
    · rintro ⟨k, c, cell, addr, goes⟩
      rcases Nat.lt_or_ge f k with lt | le
      · obtain ⟨off, same⟩ := after k lt
        refine Or.inr ⟨k, c, ?_, addr, by rwa [Cell.goes_congr same]⟩
        simp [cell, Cell.goes_untouched off, Cell.mark_untouched off]
      · exact Or.inl ⟨k, c, cell, addr, by rwa [Cell.goes_congr (before k le).2]⟩

theorem View.invalidate_one {l : Volume} (lun : v.lun i = some l) (active : l.waiting = false)
    (cell : v.cell i f = some c) (low : f * 256 ≤ start) (high : start + cnt ≤ (f + 1) * 256) (pos : 0 < cnt) :
    v.invalidate i start cnt =
      if c.valid then (v.setCell i f fun c => c.mark f start cnt).collect i f
      else v.setCell i f fun c => c.mark f start cnt := by
  have here : touched f start cnt = true := touched_iff.mpr (by omega)
  have there : ∀ k, k ≠ f → touched k start cnt = false := by
    intro k ne
    rw [← Bool.not_eq_true, touched_iff]
    omega
  have others : ∀ j k, ¬ (j = i ∧ k = f) → (v.invalidate i start cnt).cell j k = v.cell j k := by
    intro j k ne
    simp only [View.invalidate]
    split
    · rename_i e
      subst e
      have off := there k fun e => ne ⟨rfl, e⟩
      cases v.cell j k <;> simp [Cell.goes_untouched off, Cell.mark_untouched off]
    · rfl
  have frees : ∀ a, (v.invalidate i start cnt).free a ↔
      v.free a ∨ c.addr = a ∧ c.goes f start cnt = true := by
    intro a
    simp only [View.invalidate]
    refine or_congr_right ⟨?_, fun ⟨addr, goes⟩ => ⟨f, c, cell, addr, goes⟩⟩
    rintro ⟨k, c', cell', addr, goes⟩
    by_cases e : k = f
    · subst e
      obtain rfl := Option.some.inj (cell.symm.trans cell')
      exact ⟨addr, goes⟩
    · rw [Cell.goes_untouched (there k e)] at goes
      cases goes
  have settled : ∀ w : View, w.lun = v.lun → w.settle i = w := by
    intro w e
    simp [View.settle, e, lun, active]
  have marked : (v.setCell i f fun c => c.mark f start cnt).cell i f = some (c.mark f start cnt) := by
    simp [View.setCell_cell, cell]
  by_cases goes : c.goes f start cnt = true
  · have parts := goes
    simp only [Cell.goes, Bool.and_eq_true, beq_iff_eq] at parts
    obtain ⟨⟨⟨_, valid⟩, idle⟩, spent⟩ := parts
    have gone : (v.setCell i f fun c => c.mark f start cnt).collect i f =
        (v.setCell i f fun c => c.mark f start cnt).drop i f := by
      unfold View.collect
      rw [marked]
      simp only [Option.any_some, spent, Bool.and_true]
      rw [if_pos (by simpa [Cell.mark] using idle)]
      exact settled _ rfl
    rw [if_pos valid, gone]
    refine View.ext_fields rfl rfl ?_ ?_
    · funext j k
      rw [View.drop_cell, View.setCell_cell]
      by_cases e : j = i ∧ k = f
      · obtain ⟨rfl, rfl⟩ := e
        simp [View.invalidate, cell, goes]
      · rw [others j k e, if_neg e, if_neg e]
    · intro a
      rw [frees, View.drop_free, marked]
      simp [goes, Cell.mark]
  · have kept : (if c.valid then (v.setCell i f fun c => c.mark f start cnt).collect i f
        else v.setCell i f fun c => c.mark f start cnt) = v.setCell i f fun c => c.mark f start cnt := by
      split
      · rename_i valid
        unfold View.collect
        rw [marked, Option.any_some, if_neg]
        · exact settled _ rfl
        · intro e
          simp only [Bool.and_eq_true, beq_iff_eq] at e
          exact goes (by simp [Cell.goes, here, valid, e.2, show c.service = 0 from e.1])
      · rfl
    rw [kept]
    refine View.ext_fields rfl rfl ?_ ?_
    · funext j k
      rw [View.setCell_cell]
      by_cases e : j = i ∧ k = f
      · obtain ⟨rfl, rfl⟩ := e
        simp [View.invalidate, cell, goes]
      · rw [others j k e, if_neg e]
    · intro a
      rw [frees]
      simp [goes]

theorem View.invalidate_none (cell : v.cell i f = none) (low : f * 256 ≤ start)
    (high : start + cnt ≤ (f + 1) * 256) : v.invalidate i start cnt = v := by
  have there : ∀ k, k ≠ f → touched k start cnt = false := by
    intro k ne
    rw [← Bool.not_eq_true, touched_iff]
    omega
  refine View.ext_fields rfl rfl ?_ ?_
  · funext j k
    simp only [View.invalidate]
    split
    · rename_i e
      subst e
      by_cases e : k = f
      · subst e
        simp [cell]
      · cases v.cell j k <;> simp [Cell.goes_untouched (there k e), Cell.mark_untouched (there k e)]
    · rfl
  · intro a
    simp only [View.invalidate]
    refine or_iff_left ?_
    rintro ⟨k, c, cell', addr, goes⟩
    by_cases e : k = f
    · subst e
      rw [cell] at cell'
      cases cell'
    · rw [Cell.goes_untouched (there k e)] at goes
      cases goes

/-! ### `_frag_invalidate` -/

theorem fragInvalidate_spec {g : Frag} {pgoff pgcnt : Nat} (len : g.bitmap.length = bitmapArraySize)
    (count : g.nrValid = clearCount (bitmapBit g.bitmap) 0 scePagePerFrag) (pos : 0 < pgcnt)
    (fits : pgoff + pgcnt ≤ scePagePerFrag) :
    ∃ g' nr, fragInvalidate g pgoff pgcnt = .ok (g', nr) ∧ g'.node = g.node ∧ g'.nrService = g.nrService ∧
      g'.bitmap.length = bitmapArraySize ∧ g'.nrValid = clearCount (bitmapBit g'.bitmap) 0 scePagePerFrag ∧
      ∀ q, bitmapBit g'.bitmap q = (bitmapBit g.bitmap q || (decide (pgoff ≤ q) && decide (q < pgoff + pgcnt))) := by
  simp only [scePagePerFrag] at fits count
  have room : pgoff + pgcnt ≤ 32 * g.bitmap.length := by rw [len]; simpa using fits
  obtain ⟨bm, set, len', bits⟩ := setBitmap_spec room
  have total : clearCount (bitmapBit bm) 0 256 + clearCount (bitmapBit g.bitmap) pgoff pgcnt =
      clearCount (bitmapBit g.bitmap) 0 256 :=
    clearCount_set (Nat.zero_le _) (by omega) fun q _ _ => bits q
  refine ⟨{ g with bitmap := bm, nrValid := g.nrValid - clearCount (bitmapBit g.bitmap) pgoff pgcnt },
    clearCount (bitmapBit g.bitmap) pgoff pgcnt, ?_, rfl, rfl, len'.trans len, ?_, bits⟩
  · unfold fragInvalidate
    rw [if_neg (by simp only [scePagePerFrag]; omega), set]
    simp only [bind, Except.bind]
    rw [if_neg (by omega)]
    rfl
  · simp only [scePagePerFrag]
    omega

/-! ### `sce_invalidate` -/

theorem invalidateFrag_spec (h : Inv nowhere s) {l : Lun} (lun : s.luntbl i = some l)
    (active : l.waiting4deletion = false) (slot : s.slot i f = some m) (mapped : m.addr = phys (l.fragmap f))
    (valid : m.valid = isValid (l.fragmap f)) {pgoff pgcnt : Nat} (pos : 0 < pgcnt)
    (fits : pgoff + pgcnt ≤ scePagePerFrag) :
    Stops s (invalidateFrag s i (l.fragmap f) m.frag pgoff pgcnt) ∨
      ∃ s', invalidateFrag s i (l.fragmap f) m.frag pgoff pgcnt = .ok s' ∧ Inv nowhere s' ∧
        s'.view = s.view.invalidate i (f * 256 + pgoff) pgcnt := by
  obtain ⟨len, count⟩ := h.pages _ _ _ slot
  obtain ⟨g', nr, inval, node, service, len', count', bits⟩ := fragInvalidate_spec len count pos fits
  obtain ⟨ψ, hψ⟩ : ∃ ψ : Lun → Lun, ψ = fun l => { l with stats := { l.stats with
    validSctrs := l.stats.validSctrs - (nr * sceSctrPerPage : Nat) } } := ⟨_, rfl⟩
  have cell := Sce.view_cell_some slot
  have h₁ : Inv nowhere (s.modifyFrag m.addr fun _ => g') := h.modifyFrag slot node ⟨len', count'⟩
  have h₂ : Inv nowhere ((s.modifyFrag m.addr fun _ => g').modifyLun i ψ) :=
    h₁.modifyLun (by simp [hψ]) (by simp [hψ]) (by simp [hψ])
  have view₂ : ((s.modifyFrag m.addr fun _ => g').modifyLun i ψ).view =
      s.view.setCell i f fun c => c.mark f (f * 256 + pgoff) pgcnt := by
    rw [Sce.view_modifyLun_same (by simp [hψ]) (by simp [hψ]) (by simp [hψ, Lun.volume]),
      h.shape.view_modifyFrag slot node]
    refine View.setCell_congr fun c here => ?_
    obtain rfl := Option.some.inj (cell.symm.trans here)
    simp only [Slot.cell, Cell.mark, service, Cell.mk.injEq, true_and]
    funext q
    rw [bits]
    congr 1
    simp only [scePagePerFrag] at fits ⊢
    rw [Bool.eq_iff_iff]
    simp only [Bool.and_eq_true, decide_eq_true_eq]
    omega
  have slot₂ : ((s.modifyFrag m.addr fun _ => g').modifyLun i ψ).slot i f = some { m with frag := g' } := by
    rw [Sce.slot_modifyLun (by simp [hψ]) (by simp [hψ]), Sce.slot_modifyFrag, slot]
    simp
  have volume : s.view.lun i = some l.volume := by rw [Sce.view_lun, lun]; rfl
  have low : f * 256 ≤ f * 256 + pgoff := Nat.le_add_right _ _
  have high : f * 256 + pgoff + pgcnt ≤ (f + 1) * 256 := by
    rw [Nat.add_mul, Nat.add_assoc]
    exact Nat.add_le_add_left fits _
  have one := View.invalidate_one volume active cell low high pos
  simp only [invalidateFrag, inval, bind, Except.bind, pure, Except.pure, ← mapped, ← hψ, ← valid]
  rw [one]
  cases good : m.valid with
  | true =>
    rcases lunGc_spec h₂ slot₂ with stop | ⟨s', gc, h', view'⟩
    · exact Or.inl (stop.of_view view₂ rfl fun e => by simp only [e]; rfl)
    refine Or.inr ⟨s', ?_, h', ?_⟩
    · simp only [gc]
      rfl
    · rw [view', view₂]
      simp [Slot.cell, good]
  | false =>
    refine Or.inr ⟨_, rfl, h₂, ?_⟩
    rw [view₂]
    simp [Slot.cell, good]

/-- The loop invalidates `count` pages from page `pgoff` of fragment `fragnum` on. -/
theorem invalidateLoop_spec (fuel : Nat) : ∀ (fragnum pgoff count wh : Nat) (s : Sce) (l : Volume),
    Inv nowhere s → s.view.lun i = some l → l.waiting = false → pgoff < 256 → count ≤ fuel →
    Stops s (invalidateLoop i fuel fragnum pgoff count wh s) ∨
    (invalidateLoop i fuel fragnum pgoff count wh s = .error .outOfRange ∧
      l.nrFrag * 256 < fragnum * 256 + pgoff + count) ∨
    ∃ wh' s', invalidateLoop i fuel fragnum pgoff count wh s = .ok ((0, wh'), s') ∧ Inv nowhere s' ∧
      s'.view = s.view.invalidate i (fragnum * 256 + pgoff) count ∧
      (0 < count → fragnum * 256 + pgoff + count ≤ l.nrFrag * 256) := by
  induction fuel with
  | zero =>
    intro fragnum pgoff count wh s l h _ _ _ enough
    obtain rfl : count = 0 := by omega
    exact Or.inr (Or.inr ⟨_, s, rfl, h, View.invalidate_zero.symm, by omega⟩)
  | succ fuel ih =>
    intro fragnum pgoff count wh s l h volume active inside enough
    by_cases done : count = 0
    · subst done
      exact Or.inr (Or.inr ⟨wh, s, by simp [invalidateLoop], h, View.invalidate_zero.symm, by omega⟩)
    obtain ⟨lun, present, rfl⟩ := Option.map_eq_some_iff.mp (Sce.view_lun ▸ volume)
    by_cases past : lun.nrFrag ≤ fragnum
    · have size : lun.volume.nrFrag = lun.nrFrag := rfl
      refine Or.inr (Or.inl ⟨by simp [invalidateLoop, done, present, past], ?_⟩)
      omega
    have frags := h.shape.nrFrag_lt present
    obtain ⟨pgcnt, hp⟩ : ∃ pgcnt, pgcnt = min (scePagePerFrag - pgoff) count := ⟨_, rfl⟩
    have pg := hp
    simp only [scePagePerFrag] at pg
    have nowrap : u32 (fragnum + 1) = fragnum + 1 := u32_of_lt (by omega)
    simp only [invalidateLoop, if_neg done, present, if_neg past, ← hp, nowrap]
    clear hp
    -- the fragment under the loop, and then the rest of the range
    have rest : ∀ s₁ wh, Inv nowhere s₁ → s₁.view = s.view.invalidate i (fragnum * 256 + pgoff) pgcnt →
        Stops s (invalidateLoop i fuel (fragnum + 1) 0 (count - pgcnt) wh s₁) ∨
        (invalidateLoop i fuel (fragnum + 1) 0 (count - pgcnt) wh s₁ = .error .outOfRange ∧
          lun.volume.nrFrag * 256 < fragnum * 256 + pgoff + count) ∨
        ∃ wh' s', invalidateLoop i fuel (fragnum + 1) 0 (count - pgcnt) wh s₁ = .ok ((0, wh'), s') ∧ Inv nowhere s' ∧
          s'.view = s.view.invalidate i (fragnum * 256 + pgoff) count ∧
          (0 < count → fragnum * 256 + pgoff + count ≤ lun.volume.nrFrag * 256) := by
      intro s₁ wh h₁ view₁
      have volume₁ : s₁.view.lun i = some lun.volume := by
        rw [view₁]
        exact volume
      rcases ih (fragnum + 1) 0 (count - pgcnt) wh s₁ lun.volume h₁ volume₁ active (by omega) (by omega) with
        stop | ⟨run, beyond⟩ | ⟨r, s', run, h', view', bound⟩
      · exact Or.inl (stop.of_view view₁ rfl id)
      · refine Or.inr (Or.inl ⟨run, ?_⟩)
        rw [Nat.add_zero, Nat.add_mul] at beyond
        have size : lun.volume.nrFrag = lun.nrFrag := rfl
        omega
      · refine Or.inr (Or.inr ⟨r, s', run, h', ?_, ?_⟩)
        · rw [view', view₁]
          by_cases last : count = pgcnt
          · rw [last, Nat.sub_self, View.invalidate_zero]
          · have edge : fragnum * 256 + pgoff + pgcnt = (fragnum + 1) * 256 := by omega
            have both := View.invalidate_append (v := s.view) (i := i) (b := count - pgcnt) edge (by omega) (by omega)
            rw [edge] at both
            rw [Nat.add_zero, both]
            congr 1
            omega
        · intro _
          have size : lun.volume.nrFrag = lun.nrFrag := rfl
          rw [size] at bound ⊢
          by_cases last : count = pgcnt
          · omega
          · have end_le := bound (by omega)
            rw [Nat.add_zero, Nat.add_mul] at end_le
            omega
    cases slot : s.slot i fragnum with
    | none =>
      have clear := h.shape.unmapped present (Nat.not_le.mp past) slot
      simp only [clear, if_true]
      refine rest s wh h (View.invalidate_none (f := fragnum) ?_ (by omega) (by omega)).symm
      rw [Sce.view_cell, slot]
      rfl
    | some m =>
      obtain ⟨l', lun', _, mapped, addr, valid, frag⟩ := Sce.slot_eq_some.mp slot
      obtain rfl := Option.some.inj (present.symm.trans lun')
      simp only [mapped, Sce.pfid2frag, ← addr, frag, bind, Except.bind]
      have pos' : 0 < pgcnt := by omega
      have fits : pgoff + pgcnt ≤ scePagePerFrag := by simp only [scePagePerFrag]; omega
      rcases invalidateFrag_spec h present active slot addr valid pos' fits with ⟨tight, stop⟩ | ⟨s₁, inval, h₁, view₁⟩
      · exact Or.inl ⟨tight, by rw [stop]; rfl⟩
      · simp only [inval]
        exact rest s₁ (wh + 1) h₁ view₁

/-- The first fragment a call invalidates; the code keeps 32 bits of its number. -/
def invFrag (x : Nat) : Nat := u32 (x / sceSctrPerPage / scePagePerFrag)

/-- The first page within that fragment. -/
def invOff (x : Nat) : Nat := x / sceSctrPerPage % scePagePerFrag

/-- The number of pages a call invalidates. -/
def invCount (x n : Nat) : Nat :=
  u32 (u32 (sub64 (sub64 (u64 (x + n)) 1 / sceSctrPerPage) (x / sceSctrPerPage)) + 1)

/-- The pages of a range that ends below 2^43 sectors; no 32-bit number wraps. -/
theorem inv_pages (hn : 0 < n) (typed : n < 2 ^ 32) (below : x + n ≤ 2 ^ 43) :
    invFrag x * 256 + invOff x = x / 8 ∧ invCount x n = (x + n - 1) / 8 - x / 8 + 1 := by
  unfold invCount invFrag invOff
  simp only [sceSctrPerPage, scePagePerFrag]
  have last : sub64 (x + n) 1 = x + n - 1 := sub64_of_le (by omega) (by omega)
  have count : sub64 ((x + n - 1) / 8) (x / 8) = (x + n - 1) / 8 - x / 8 := sub64_of_le (by omega) (by omega)
  rw [u64_of_lt (by omega), last, count]
  unfold u32
  omega

/-- The LUN accepts the range. -/
def View.writable (v : View) (i x n : Nat) : Prop :=
  ∃ l, v.lun i = some l ∧ l.waiting = false ∧ n ≠ 0 ∧ u64 (x + n) ≤ l.nrSctr

/-- The visit of the fragments in `sce_invalidate`: the pages left, and the number of mapped fragments. -/
def visitFragments (s : Sce) (i x n : Nat) : Except Fault ((Nat × Nat) × Sce) :=
  let s := s.modifyLun i fun l => { l with stats := { l.stats with
    writes := l.stats.writes + 1, writeSctrs := l.stats.writeSctrs + (n : Nat) } }
  invalidateLoop i (invCount x n) (invFrag x) (invOff x) (invCount x n) 0 s

/-- `sce_invalidate` with its loop named. -/
theorem sceInvalidate_eq {l : Lun} (lock : lockLun s i x n true = some l) : sceInvalidate s i x n = (do
    let ((_, wh), s) ← visitFragments s i x n
    let s := if wh = 0 then s else s.modifyLun i fun l => { l with stats := { l.stats with
      writeHits := l.stats.writeHits + 1 } }
    return (.success, s)) := by
  simp only [sceInvalidate, lock, visitFragments, invFrag, invOff, invCount]

/-- A visit that returns leaves no page of the range out. -/
theorem visitFragments_spec (h : Inv nowhere s) {l : Lun} (lock : lockLun s i x n true = some l) :
    Stops s (visitFragments s i x n) ∨
    (visitFragments s i x n = .error .outOfRange ∧ l.nrFrag * 256 < invFrag x * 256 + invOff x + invCount x n) ∨
    ∃ wh s', visitFragments s i x n = .ok ((0, wh), s') ∧ Inv nowhere s' ∧
      s'.view = s.view.invalidate i (invFrag x * 256 + invOff x) (invCount x n) ∧
      (0 < invCount x n → invFrag x * 256 + invOff x + invCount x n ≤ l.nrFrag * 256) := by
  obtain ⟨lun, _, active⟩ := lockLun_eq_some.mp lock
  obtain ⟨ψ, hψ⟩ : ∃ ψ : Lun → Lun, ψ = fun l => { l with stats := { l.stats with
    writes := l.stats.writes + 1, writeSctrs := l.stats.writeSctrs + (n : Nat) } } := ⟨_, rfl⟩
  have h₁ : Inv nowhere (s.modifyLun i ψ) := h.modifyLun (by simp [hψ]) (by simp [hψ]) (by simp [hψ])
  have view₁ : (s.modifyLun i ψ).view = s.view :=
    Sce.view_modifyLun_same (by simp [hψ]) (by simp [hψ]) (by simp [hψ, Lun.volume])
  have volume : s.view.lun i = some l.volume := by rw [Sce.view_lun, lun]; rfl
  have loop := invalidateLoop_spec (i := i) (invCount x n) (invFrag x) (invOff x) (invCount x n) 0
    (s.modifyLun i ψ) l.volume h₁ (by rw [view₁, volume]) (active rfl) (Nat.mod_lt _ (by decide)) le_rfl
  rw [view₁] at loop
  unfold visitFragments
  simp only [← hψ]
  rcases loop with stop | past | done
  · exact Or.inl (stop.of_view view₁ rfl id)
  · exact Or.inr (Or.inl past)
  · exact Or.inr (Or.inr done)

theorem sceInvalidate_spec (h : Inv nowhere s) (i x n : Nat) :
    (¬ s.view.writable i x n ∧ sceInvalidate s i x n = .ok (.error, s)) ∨
    (s.view.writable i x n ∧ (Stops s (sceInvalidate s i x n) ∨
      (sceInvalidate s i x n = .error .outOfRange ∧ ∃ l, s.luntbl i = some l ∧ inRange l x n = true ∧
        l.nrFrag * 256 < invFrag x * 256 + invOff x + invCount x n) ∨
      ∃ l s', sceInvalidate s i x n = .ok (.success, s') ∧ Inv nowhere s' ∧
        s'.view = s.view.invalidate i (invFrag x * 256 + invOff x) (invCount x n) ∧ s.view.lun i = some l ∧
        (0 < invCount x n → invFrag x * 256 + invOff x + invCount x n ≤ l.nrFrag * 256))) := by
  have writable : s.view.writable i x n ↔ (lockLun s i x n true).isSome := by
    rw [Option.isSome_iff_exists]
    simp only [lockLun_eq_some]
    constructor
    · rintro ⟨_, volume, active, hn, bound⟩
      obtain ⟨l, lun, rfl⟩ := Option.map_eq_some_iff.mp (Sce.view_lun ▸ volume)
      refine ⟨l, lun, ?_, fun _ => active⟩
      simp only [Lun.volume] at bound
      simp [inRange, hn, bound]
    · rintro ⟨l, lun, range, active⟩
      simp only [inRange, Bool.and_eq_true, decide_eq_true_eq] at range
      exact ⟨l.volume, by rw [Sce.view_lun, lun]; rfl, active trivial, range.1, range.2⟩
  cases lock : lockLun s i x n true with
  | none =>
    refine Or.inl ⟨by rw [writable, lock]; exact Bool.false_ne_true, ?_⟩
    simp [sceInvalidate, lock]
  | some l =>
    refine Or.inr ⟨by rw [writable, lock]; rfl, ?_⟩
    obtain ⟨lun, range, _⟩ := lockLun_eq_some.mp lock
    have volume : s.view.lun i = some l.volume := by rw [Sce.view_lun, lun]; rfl
    rw [sceInvalidate_eq lock]
    rcases visitFragments_spec h lock with ⟨tight, stop⟩ | ⟨past, beyond⟩ | ⟨wh, s₂, run, h₂, view₂, bound⟩
    · exact Or.inl ⟨tight, by rw [stop]; rfl⟩
    · refine Or.inr (Or.inl ⟨?_, l, lun, range, beyond⟩)
      rw [past]
      rfl
    · refine Or.inr (Or.inr ⟨l.volume, ?_⟩)
      rw [run]
      simp only [bind, Except.bind, pure, Except.pure]
      obtain ⟨χ, hχ⟩ : ∃ χ : Lun → Lun, χ = fun l => { l with stats := { l.stats with
        writeHits := l.stats.writeHits + 1 } } := ⟨_, rfl⟩
      simp only [← hχ]
      by_cases quiet : wh = 0
      · refine ⟨s₂, by simp [quiet], h₂, view₂, volume, bound⟩
      · refine ⟨s₂.modifyLun i χ, by simp [quiet], h₂.modifyLun (by simp [hχ]) (by simp [hχ]) (by simp [hχ]), ?_,
          volume, bound⟩
        rw [Sce.view_modifyLun_same (by simp [hχ]) (by simp [hχ]) (by simp [hχ, Lun.volume])]
        exact view₂

end Iostash
