import Iostash.Sce.Occupancy

/-!
# What is written to the occupancy statistics

The removal of a device takes off what its mappings count, an invalidation takes off the pages it made
unusable, and a population that ended well adds one fragment of 256 pages, whatever it found.
-/

namespace Iostash

open Util

variable {s s' : Sce} {i j f d : Nat} {a : Phys} {r : Ret} {l : Lun}

/-- The usable pages of a mapping. -/
def Cell.pages (c : Cell) : Nat := clearCount c.bad 0 scePagePerFrag

/-! ### `sce_rmcdev` -/

/-- What a mapping counts towards the two statistics when its device `d` goes. -/
def Slot.worth (d : Nat) (m : Slot) : Int × Int :=
  if m.addr.dev = d then (1, ((m.frag.nrValid * sceSctrPerPage : Nat) : Int)) else 0

def Sce.worth (s : Sce) (d i f : Nat) : Int × Int := (s.slot i f).elim 0 (Slot.worth d)

theorem lunRmcdevLoop_counts (fs : List Nat) : ∀ s l, s.Backed → fs.Nodup → s.luntbl i = some l →
    (∀ f ∈ fs, f < l.nrFrag) → (lunRmcdevLoop i d fs s).counts i = some (l.counts - (fs.map (s.worth d i)).sum) := by
  induction fs with
  | nil =>
    intro s l _ _ lun _
    simp [lunRmcdevLoop, Sce.counts, lun]
  | cons f fs ih =>
    intro s l backed nodup lun inside
    obtain ⟨out, nodup⟩ := List.nodup_cons.mp nodup
    have later : ∀ k ∈ fs, k < l.nrFrag := fun k member => inside k (List.mem_cons_of_mem _ member)
    rw [List.map_cons, List.sum_cons]
    unfold lunRmcdevLoop
    simp only [lun]
    split
    · -- the descriptor stays, and it counts nothing
      rename_i other
      have none : s.worth d i f = 0 := by
        unfold Sce.worth
        cases slot : s.slot i f with
        | none => rfl
        | some m =>
          obtain ⟨l', lun', _, mapped, addr, _⟩ := Sce.slot_eq_some.mp slot
          obtain rfl := Option.some.inj (lun.symm.trans lun')
          rcases other with unmapped | elsewhere
          · rw [unmapped] at mapped
            cases mapped
          · refine if_neg fun here => elsewhere ?_
            rw [← here, addr]
            rfl
      rw [none, zero_add]
      exact ih s l backed nodup lun later
    · rename_i here
      simp only [not_or, Bool.not_eq_false, ne_eq, not_not] at here
      obtain ⟨mapped, dev⟩ := here
      have lt := inside f List.mem_cons_self
      have place : s.place i f = some (phys (l.fragmap f)) := Sce.place_eq_some.mpr ⟨l, lun, lt, mapped, rfl⟩
      obtain ⟨g, frag⟩ := backed i f _ place
      have slot : s.slot i f = some ⟨phys (l.fragmap f), isValid (l.fragmap f), g⟩ :=
        Sce.slot_eq_some.mpr ⟨l, lun, lt, mapped, rfl, rfl, frag⟩
      have worth : s.worth d i f = (1, ((g.nrValid * sceSctrPerPage : Nat) : Int)) := by
        unfold Sce.worth
        rw [slot]
        exact if_pos dev.symm
      simp only [Sce.pfid2frag, frag]
      obtain ⟨ψ, hψ⟩ : ∃ ψ : Lun → Lun, ψ = fun l => { l with stats := { l.stats with
          allocSctrs := l.stats.allocSctrs - 1
          validSctrs := l.stats.validSctrs - (g.nrValid * sceSctrPerPage : Nat) } } := ⟨_, rfl⟩
      have first := Swept.clear (d := d) (ψ := ψ) place frag dev.symm (fun _ => by rw [hψ]) (fun _ => by rw [hψ]; rfl)
      rw [← hψ]
      obtain ⟨t, ht⟩ : ∃ t, t = (s.setDesc i f (BitVec.ofNat 32 g.nrMiss &&& fragdescDatamask)).modifyLun i ψ := ⟨_, rfl⟩
      rw [← ht] at first ⊢
      -- the other descriptors are as they were
      have same : fs.map (t.worth d i) = fs.map (s.worth d i) := by
        refine List.map_congr_left fun k member => ?_
        unfold Sce.worth
        rw [ht, Sce.slot_modifyLun (fun _ _ => by rw [hψ]) (fun _ _ => by rw [hψ]), Sce.slot_setDesc_ne]
        rintro ⟨_, rfl⟩
        exact out member
      obtain ⟨l₁, lun₁, size, counts⟩ : ∃ l₁, t.luntbl i = some l₁ ∧ l₁.nrFrag = l.nrFrag ∧
          l₁.counts = l.counts - s.worth d i f := by
        refine ⟨ψ { l with fragmap := fun k =>
          if k = f then BitVec.ofNat 32 g.nrMiss &&& fragdescDatamask else l.fragmap k }, ?_, ?_, ?_⟩
        · rw [ht, Sce.modifyLun_luntbl_self, Sce.setDesc, Sce.modifyLun_luntbl_self, lun]
          rfl
        · rw [hψ]
        · rw [worth, hψ]
          rfl
      rw [ih t l₁ (first.backed backed) nodup lun₁ (size ▸ later), same, counts, sub_sub]

/-- The LUNs of which `_lun_rmcdev` is not called stay as they are. -/
theorem lunRmcdevLoop_others {fs : List Nat} (ne : j ≠ i) : ∀ s, (lunRmcdevLoop i d fs s).luntbl j = s.luntbl j := by
  induction fs with
  | nil => exact fun _ => rfl
  | cons f fs ih =>
    intro s
    unfold lunRmcdevLoop
    split
    · rfl
    · simp only
      split
      · exact ih s
      · split
        · exact ih s
        · rw [ih, Sce.modifyLun_luntbl_ne ne, Sce.setDesc, Sce.modifyLun_luntbl_ne ne]

theorem lunRmcdev_others (ne : j ≠ i) : (lunRmcdev s i d).luntbl j = s.luntbl j := by
  unfold lunRmcdev
  split
  · rfl
  · exact lunRmcdevLoop_others ne s

theorem lunRmcdev_counts (backed : s.Backed) (lun : s.luntbl i = some l) :
    (lunRmcdev s i d).counts i = some (l.counts - ((List.range l.nrFrag).map (s.worth d i)).sum) := by
  unfold lunRmcdev
  rw [lun]
  exact lunRmcdevLoop_counts (List.range l.nrFrag) s l backed List.nodup_range lun fun f => List.mem_range.mp

theorem rmcdevLuns_others {is : List Nat} (out : j ∉ is) : ∀ s, (rmcdevLuns d is s).luntbl j = s.luntbl j := by
  induction is with
  | nil => exact fun _ => rfl
  | cons i is ih =>
    intro s
    obtain ⟨ne, out⟩ := not_or.mp (mt List.mem_cons.mpr out)
    unfold rmcdevLuns
    rw [ih out, lunRmcdev_others ne]

theorem rmcdevLuns_counts {is : List Nat} (nodup : is.Nodup) (member : j ∈ is) : ∀ s, s.Backed → s.luntbl j = some l →
    (rmcdevLuns d is s).counts j = some (l.counts - ((List.range l.nrFrag).map (s.worth d j)).sum) := by
  induction is with
  | nil => cases member
  | cons i is ih =>
    intro s backed lun
    obtain ⟨out, nodup⟩ := List.nodup_cons.mp nodup
    have swept := lunRmcdev_spec (i := i) (d := d) backed
    unfold rmcdevLuns
    by_cases e : j = i
    · subst e
      have last := rmcdevLuns_others (d := d) out (lunRmcdev s j d)
      have first := lunRmcdev_counts (d := d) backed lun
      unfold Sce.counts at first ⊢
      rw [last]
      exact first
    · have later : j ∈ is := (List.mem_cons.mp member).resolve_left e
      have lun' : (lunRmcdev s i d).luntbl j = some l := (lunRmcdev_others e).trans lun
      have same : (lunRmcdev s i d).worth d j = s.worth d j := by
        funext f
        unfold Sce.worth Sce.slot
        rw [lun', lun, swept.frag?]
      rw [ih nodup later _ (swept.backed backed) lun', same]

theorem Inv.worth_total (h : Inv nowhere s) (lun : s.luntbl i = some l) :
    ((List.range l.nrFrag).map (s.worth d i)).sum =
      (((s.view.total i (onDev d fun _ _ => 1) : Nat) : Int),
      ((sceSctrPerPage * s.view.total i (onDev d fun _ => Cell.pages) : Nat) : Int)) := by
  have here : (s.view.lun i).elim 0 Volume.nrFrag = l.nrFrag := by
    rw [Sce.view_lun, lun]
    rfl
  have one : ∀ f, s.worth d i f = ((((s.view.cell i f).elim 0 (onDev d (fun _ _ => 1) f) : Nat) : Int),
      ((sceSctrPerPage * (s.view.cell i f).elim 0 (onDev d (fun _ => Cell.pages) f) : Nat) : Int)) := by
    intro f
    unfold Sce.worth
    rw [Sce.view_cell]
    cases slot : s.slot i f with
    | none => rfl
    | some m =>
      have pages : m.frag.nrValid = m.cell.pages := (h.pages i f m slot).2
      simp only [Option.elim_some, Option.map_some, Slot.worth, onDev, Slot.cell, pages]
      split
      · simp [Nat.mul_comm]
      · rfl
  unfold View.total
  rw [here, ← List.toFinset_range, List.sum_toFinset _ List.nodup_range, List.sum_toFinset _ List.nodup_range]
  induction List.range l.nrFrag with
  | nil => rfl
  | cons f fs ih =>
    simp only [List.map_cons, List.sum_cons, ih, one f, Nat.mul_add, Nat.cast_add]
    rfl

theorem sceRmcdev_counts (h : Inv nowhere s) (run : sceRmcdev s d = .ok (.success, s')) (lun : s.luntbl i = some l) :
    s'.counts i = some (l.counts - (((s.view.total i (onDev d fun _ _ => 1) : Nat) : Int),
      ((sceSctrPerPage * s.view.total i (onDev d fun _ => Cell.pages) : Nat) : Int))) := by
  obtain ⟨fl, s₁, list, unlink, _, linked⟩ := freefraglistRmcdev_spec h d
  have mapped : ∀ j k a, s.place j k = some a → s₁.frag? a = s.frag? a := by
    intro j k a place
    exact linked.off a fun member => h.shape.not_free place ((list.mem a).mp member)
  have place : s₁.place = s.place := by
    funext j k
    unfold Sce.place
    rw [linked.luntbl]
  have backed : s₁.Backed := by
    intro j k a there
    rw [place] at there
    rw [mapped j k a there]
    obtain ⟨g, frag, _⟩ := Sce.node_eq_some.mp (h.shape.mapped j k a there)
    exact ⟨g, frag⟩
  have same : s₁.worth d i = s.worth d i := by
    funext f
    unfold Sce.worth Sce.slot
    rw [linked.luntbl, lun, Option.bind_some, Option.bind_some]
    split
    · rename_i here
      rw [mapped i f _ (Sce.place_eq_some.mpr ⟨l, lun, here.1, here.2, rfl⟩)]
    · rfl
  have lt := (h.shape.luns.bounds i _ _ (Sce.extent_eq_some.mpr ⟨l, lun, rfl, rfl⟩)).1
  have counts := rmcdevLuns_counts (d := d) List.nodup_range (List.mem_range.mpr lt) s₁ backed (by rw [linked.luntbl, lun])
  rw [same, h.worth_total lun] at counts
  unfold sceRmcdev at run
  split at run
  · cases run
  · split at run
    · cases run
    · obtain ⟨t, unlink', run⟩ := Except.bind_eq_ok run
      obtain rfl := Except.ok.inj (unlink.symm.trans unlink')
      generalize rmcdevLuns d (List.range sceMaxLun) s₁ = u at run counts
      cases run
      exact counts

/-! ### `sce_invalidate` -/

/-- The valid sectors of a LUN that is left have changed as much as its usable pages. -/
def Sce.KeepsPages (s s' : Sce) : Prop := ∀ i o', s'.counts i = some o' → ∃ o, s.counts i = some o ∧ o'.1 = o.1 ∧
  o'.2 - ((sceSctrPerPage * s'.view.total i (fun _ => Cell.pages) : Nat) : Int) =
    o.2 - ((sceSctrPerPage * s.view.total i (fun _ => Cell.pages) : Nat) : Int)

theorem Sce.KeepsPages.trans {t : Sce} (h : s.KeepsPages t) (h' : t.KeepsPages s') : s.KeepsPages s' := by
  intro i o' here
  obtain ⟨o₁, there, alloc₁, valid₁⟩ := h' i o' here
  obtain ⟨o, before, alloc, valid⟩ := h i o₁ there
  exact ⟨o, before, alloc₁.trans alloc, valid₁.trans valid⟩

theorem Sce.KeepsPages.of_view (counts : s.SameCounts s') (view : s'.view = s.view) : s.KeepsPages s' :=
  fun i o here => ⟨o, counts i o here, rfl, by rw [view]⟩

/-- A fragment that goes with an invalidation has no usable page left. -/
theorem View.total_invalidate {v : View} {start count : Nat} :
    (v.invalidate i start count).total i (fun _ => Cell.pages) =
    v.total i fun f c => (c.mark f start count).pages := by
  refine View.total_congr rfl fun f => ?_
  show (if i = i then _ else _ : Option Cell).elim 0 Cell.pages = _
  rw [if_pos rfl]
  cases v.cell i f with
  | none => rfl
  | some c =>
    rw [Option.bind_some]
    split
    · rename_i goes
      simp only [Cell.goes, Bool.and_eq_true, Cell.spent, List.all_eq_true, List.mem_range] at goes
      exact (clearCount_eq_zero.mpr fun p _ lt => goes.2 p (by simpa using lt)).symm
    · rfl

theorem invalidateFrag_counts {m : Slot} (h : Inv nowhere s) (lun : s.luntbl i = some l)
    (active : l.waiting4deletion = false) (slot : s.slot i f = some m) (mapped : m.addr = phys (l.fragmap f))
    (valid : m.valid = isValid (l.fragmap f)) {pgoff pgcnt : Nat} (pos : 0 < pgcnt)
    (fits : pgoff + pgcnt ≤ scePagePerFrag) (run : invalidateFrag s i (l.fragmap f) m.frag pgoff pgcnt = .ok s') :
    s.KeepsPages s' := by
  have view : s'.view = s.view.invalidate i (f * 256 + pgoff) pgcnt := by
    rcases invalidateFrag_spec h lun active slot mapped valid pos fits with ⟨_, stop⟩ | ⟨t, ok, _, view⟩
    · rw [stop] at run
      cases run
    · rwa [Except.ok.inj (ok.symm.trans run)] at view
  obtain ⟨len, count⟩ := h.pages _ _ _ slot
  obtain ⟨g', n, inval, node, service, len', count', bits⟩ := fragInvalidate_spec len count pos fits
  -- the pages counted are the ones lost
  have lost : (m.cell.mark f (f * 256 + pgoff) pgcnt).pages + n = m.cell.pages := by
    have counted : g'.nrValid + n = m.frag.nrValid := by
      unfold fragInvalidate at inval
      split at inval
      · cases inval
      · obtain ⟨⟨bm, k⟩, _, inval⟩ := Except.bind_eq_ok inval
        simp only at inval
        split at inval
        · cases inval
        · rename_i enough
          cases inval
          exact Nat.sub_add_cancel (Nat.not_lt.mp enough)
    have after : (m.cell.mark f (f * 256 + pgoff) pgcnt).pages = g'.nrValid := by
      rw [count']
      refine clearCount_congr fun q lt => ?_
      rw [Nat.zero_add, bits]
      simp only [Cell.mark, Slot.cell, scePagePerFrag] at lt ⊢
      congr 1
      rw [Bool.eq_iff_iff]
      simp only [Bool.and_eq_true, decide_eq_true_eq]
      omega
    rw [after, counted]
    exact count
  have cell := Sce.view_cell_some slot
  have inside : f < l.nrFrag := by
    obtain ⟨l', lun', inside, _⟩ := Sce.slot_eq_some.mp slot
    obtain rfl := Option.some.inj (lun.symm.trans lun')
    exact inside
  have pages : s'.view.total i (fun _ => Cell.pages) + n = s.view.total i (fun _ => Cell.pages) := by
    have volume : s.view.lun i = some l.volume := by
      rw [Sce.view_lun, lun]
      rfl
    have changed := View.total_at (v := s.view) (w := s.view) (φ := fun k c => (c.mark k (f * 256 + pgoff) pgcnt).pages)
      (ψ := fun _ => Cell.pages) rfl volume inside (by
        intro k ne
        have off : touched k (f * 256 + pgoff) pgcnt = false := by
          rw [← Bool.not_eq_true, touched_iff]
          simp only [scePagePerFrag] at fits
          omega
        simp only [Cell.mark_untouched off])
    rw [view, View.total_invalidate]
    rw [cell, Option.elim_some, Option.elim_some] at changed
    omega
  -- what is written
  obtain ⟨t, ht, counts⟩ : ∃ t : Sce, t = (s.modifyFrag (phys (l.fragmap f)) fun _ => g').modifyLun i (fun l =>
      { l with stats := { l.stats with validSctrs := l.stats.validSctrs - (n * sceSctrPerPage : Nat) } }) ∧
      t.SameCounts s' := by
    unfold invalidateFrag at run
    obtain ⟨⟨g₁, n₁⟩, inval', run⟩ := Except.bind_eq_ok run
    obtain ⟨rfl, rfl⟩ := Prod.mk.inj (Except.ok.inj (inval.symm.trans inval'))
    refine ⟨_, rfl, ?_⟩
    simp only at run
    split at run
    · obtain ⟨⟨_, u⟩, gc, run⟩ := Except.bind_eq_ok run
      cases run
      exact (reclaims_counts _).lunGc gc
    · cases run
      exact .refl _
  intro j o' here
  have there := counts j o' here
  by_cases e : j = i
  · subst e
    refine ⟨l.counts, by rw [Sce.counts, lun]; rfl, ?_⟩
    rw [ht, Sce.counts, Sce.modifyLun_luntbl_self, Sce.modifyFrag_luntbl, lun] at there
    obtain rfl := Option.some.inj there
    refine ⟨rfl, ?_⟩
    show l.stats.validSctrs - _ - _ = l.stats.validSctrs - _
    simp only [← pages, sceSctrPerPage]
    omega
  · rw [ht, Sce.counts, Sce.modifyLun_luntbl_ne e] at there
    refine ⟨o', there, rfl, ?_⟩
    have same : s'.view.total j (fun _ => Cell.pages) = s.view.total j (fun _ => Cell.pages) := by
      rw [view]
      refine View.total_congr rfl fun k => ?_
      show (if j = i then _ else s.view.cell j k : Option Cell).elim 0 Cell.pages = _
      rw [if_neg e]
    rw [same]

theorem invalidateLoop_counts {p : Nat × Nat} (fuel : Nat) : ∀ (fragnum pgoff count wh : Nat) (s : Sce) (l : Volume),
    Inv nowhere s → s.view.lun i = some l → l.waiting = false → pgoff < 256 →
    invalidateLoop i fuel fragnum pgoff count wh s = .ok (p, s') → s.KeepsPages s' := by
  induction fuel with
  | zero =>
    intro fragnum pgoff count wh s l _ _ _ _ run
    cases run
    exact .of_view (.refl _) rfl
  | succ fuel ih =>
    intro fragnum pgoff count wh s l h volume active inside run
    obtain ⟨lun, present, rfl⟩ := Option.map_eq_some_iff.mp (Sce.view_lun ▸ volume)
    unfold invalidateLoop at run
    split at run
    · cases run
      exact .of_view (.refl _) rfl
    rename_i more
    simp only [present] at run
    split at run
    · cases run
    rename_i past
    split at run
    · exact ih _ _ _ _ s lun.volume h volume active (by decide) run
    rename_i mapped
    obtain ⟨m, slot⟩ := h.shape.slot_of_mapped present (Nat.not_le.mp past) (by simpa using mapped)
    obtain ⟨l', lun', _, _, addr, valid, frag⟩ := Sce.slot_eq_some.mp slot
    obtain rfl := Option.some.inj (present.symm.trans lun')
    simp only [Sce.pfid2frag, ← addr, frag] at run
    obtain ⟨s₁, inval, run⟩ := Except.bind_eq_ok run
    have pos : 0 < min (scePagePerFrag - pgoff) count := by
      simp only [scePagePerFrag]
      omega
    have fits : pgoff + min (scePagePerFrag - pgoff) count ≤ scePagePerFrag := by
      simp only [scePagePerFrag]
      omega
    have first := invalidateFrag_counts h present active slot addr valid pos fits inval
    rcases invalidateFrag_spec h present active slot addr valid pos fits with ⟨_, stop⟩ | ⟨t, ok, h₁, view₁⟩
    · rw [stop] at inval
      cases inval
    obtain rfl := Except.ok.inj (ok.symm.trans inval)
    exact first.trans (ih _ _ _ _ _ lun.volume h₁ (by rw [view₁]; exact volume) active (by decide) run)

theorem sceInvalidate_counts {x n : Nat} (h : Inv nowhere s) (run : sceInvalidate s i x n = .ok (r, s')) :
    s.KeepsPages s' := by
  cases lock : lockLun s i x n true with
  | none =>
    unfold sceInvalidate at run
    rw [lock] at run
    cases run
    exact .of_view (.refl _) rfl
  | some l =>
    obtain ⟨lun, _, active⟩ := lockLun_eq_some.mp lock
    rw [sceInvalidate_eq lock] at run
    obtain ⟨⟨⟨_, wh⟩, t⟩, visit, run⟩ := Except.bind_eq_ok run
    obtain ⟨ψ, hψ⟩ : ∃ ψ : Lun → Lun, ψ = fun l => { l with stats := { l.stats with
      writes := l.stats.writes + 1, writeSctrs := l.stats.writeSctrs + (n : Nat) } } := ⟨_, rfl⟩
    unfold visitFragments at visit
    simp only [← hψ] at visit
    have h₁ : Inv nowhere (s.modifyLun i ψ) := h.modifyLun (by simp [hψ]) (by simp [hψ]) (by simp [hψ])
    have view₁ : (s.modifyLun i ψ).view = s.view :=
      Sce.view_modifyLun_same (by simp [hψ]) (by simp [hψ]) (by simp [hψ, Lun.volume])
    have first : s.KeepsPages (s.modifyLun i ψ) := .of_view (.modifyLun fun _ => by rw [hψ]; rfl) view₁
    have volume : (s.modifyLun i ψ).view.lun i = some l.volume := by
      rw [view₁, Sce.view_lun, lun]
      rfl
    have second := first.trans (invalidateLoop_counts _ _ _ _ _ _ l.volume h₁ volume (active rfl)
        (Nat.mod_lt _ (by decide)) visit)
    simp only at run
    cases run
    refine second.trans ?_
    split
    · exact .of_view (.refl _) rfl
    · exact .of_view (.modifyLun fun _ => rfl) (Sce.view_modifyLun_same (fun _ _ => rfl) (fun _ _ => rfl) fun _ _ => rfl)

/-! ### `sce_put4pop` -/

theorem releasePopulation_counts (run : releasePopulation s i a = .ok (r, s')) : s.SameCounts s' := by
  unfold releasePopulation at run
  refine ((reclaims_counts _).lunGc run).since (.modifyLun ?_)
  intro l
  simp only [Lun.counts]

theorem completePopulation_counts (run : completePopulation s i f = .ok (r, s')) : s.SameCounts s' := by
  unfold completePopulation at run
  split at run
  · cases run
    exact .refl s
  · simp only at run
    split at run
    · cases run
      exact .refl s
    · split at run
      · cases run
        exact .refl s
      · split at run
        · cases run
          exact .refl s
        · split at run
          · exact releasePopulation_counts run
          · split at run
            · cases run
              exact .refl s
            · split at run
              · cases run
                exact .refl s
              · exact (releasePopulation_counts run).since (Sce.SameCounts.setDesc.trans (.of_luntbl rfl))

theorem cancelPopulation_counts (run : cancelPopulation s i f = .ok (r, s')) : s.SameCounts s' := by
  unfold cancelPopulation at run
  split at run
  · cases run
    exact .refl s
  · simp only at run
    split at run
    · cases run
      exact .refl s
    · split at run
      · cases run
        exact .refl s
      · split at run
        · cases run
          exact .refl s
        · split at run
          · split at run
            · cases run
              exact .refl s
            · split at run
              · cases run
                exact .refl s
              · obtain ⟨⟨_, t⟩, unmap, run⟩ := Except.bind_eq_ok run
                exact (releasePopulation_counts run).since ((unmapFrag_counts unmap).since (.of_luntbl rfl))
          · split at run
            · cases run
              exact .refl s
            · obtain ⟨⟨_, t⟩, put, run⟩ := Except.bind_eq_ok run
              have same := freefraglistPut_luntbl put
              exact (releasePopulation_counts run).since (.of_luntbl same)

/-- A population that ended well counts, whether it is found or not. -/
theorem scePut4pop_counts {t : Poptask} {failed : Bool} {o' : Int × Int} (run : scePut4pop s t failed = .ok (r, s'))
    (here : s'.counts i = some o') : ∃ o, s.counts i = some o ∧
      o' = if failed = false ∧ lunSearch s t.lunctx = some i then o + (1, ((sceSctrPerFrag : Nat) : Int)) else o := by
  unfold scePut4pop at run
  split at run
  · rename_i none
    cases run
    exact ⟨o', here, by simp [none]⟩
  · rename_i j found
    split at run
    · rename_i failed
      exact ⟨o', cancelPopulation_counts run i o' here, by simp [failed]⟩
    · rename_i done
      obtain ⟨⟨_, u⟩, complete, run⟩ := Except.bind_eq_ok run
      have first := completePopulation_counts complete
      cases run
      by_cases e : i = j
      · subst e
        rw [Sce.counts, Sce.modifyLun_luntbl_self] at here
        obtain ⟨_, lun, rfl⟩ := Option.map_eq_some_iff.mp here
        obtain ⟨l, there, rfl⟩ := Option.map_eq_some_iff.mp lun
        have before : u.counts i = some l.counts := by
          rw [Sce.counts, there]
          rfl
        refine ⟨l.counts, first i _ before, ?_⟩
        rw [if_pos ⟨by simpa using done, found⟩]
        rfl
      · rw [Sce.counts, Sce.modifyLun_luntbl_ne e] at here
        refine ⟨o', first i o' here, ?_⟩
        rw [if_neg]
        rintro ⟨_, found'⟩
        exact e (Option.some.inj (found'.symm.trans found))

/-! ### The other calls -/

theorem freeFragments_luntbl {n : Nat} : ∀ {s : Sce}, freeFragments d n s = .ok s' → s'.luntbl = s.luntbl := by
  induction n with
  | zero =>
    intro s run
    obtain ⟨⟨_, t⟩, put, run⟩ := Except.bind_eq_ok run
    cases run
    exact freefraglistPut_luntbl put
  | succ n ih =>
    intro s run
    obtain ⟨⟨_, t⟩, put, run⟩ := Except.bind_eq_ok run
    exact (ih run).trans (freefraglistPut_luntbl put)

theorem sceAddcdev_luntbl {m ctx : Nat} {vmalloc : Bool} {h : Option Nat}
    (run : sceAddcdev s m ctx vmalloc = .ok (h, s')) : s'.luntbl = s.luntbl := by
  unfold sceAddcdev at run
  split at run
  · cases run
    rfl
  · split at run
    · cases run
      rfl
    · split at run
      · cases run
        rfl
      · split at run
        · cases run
          rfl
        · obtain ⟨t, free, run⟩ := Except.bind_eq_ok run
          have same := freeFragments_luntbl free
          cases run
          exact same

theorem sceAddlun_counts {m ctx : Nat} {vmalloc : Bool} {h : Option Nat} {o : Int × Int}
    (run : sceAddlun s m ctx vmalloc = .ok (h, s')) (here : s'.counts i = some o) :
    s.counts i = some o ∨ h = some i ∧ s.luntbl i = none ∧ o = 0 := by
  unfold sceAddlun at run
  split at run
  · cases run
    exact Or.inl here
  · split at run
    · cases run
      exact Or.inl here
    · rename_i j found
      split at run
      · cases run
        exact Or.inl here
      · rename_i l init
        cases run
        simp only [Sce.counts] at here ⊢
        by_cases e : i = j
        · subst e
          rw [if_pos rfl] at here
          obtain rfl := Option.some.inj here
          refine Or.inr ⟨rfl, ?_, ?_⟩
          · simpa using List.find?_some found
          · unfold lunInit at init
            simp only at init
            split at init
            · cases init
              rfl
            · cases init
        · rw [if_neg e] at here
          exact Or.inl here

/-! ### One call -/

/-- What a call makes of the two counts of a LUN it leaves. -/
def View.written (v v' : View) : Op → Reply → Nat → Int × Int → Int × Int
  | .rmcdev d, .ret .success, i, o => o - (((v.total i (onDev d fun _ _ => 1) : Nat) : Int),
      ((sceSctrPerPage * v.total i (onDev d fun _ => Cell.pages) : Nat) : Int))
  | .invalidate _ _ _, _, i, o => (o.1, o.2 - ((sceSctrPerPage * v.total i (fun _ => Cell.pages) : Nat) : Int) +
      ((sceSctrPerPage * v'.total i (fun _ => Cell.pages) : Nat) : Int))
  | .put4pop t false, _, i, o => if v.search t.lunctx = some i then o + (1, ((sceSctrPerFrag : Nat) : Int)) else o
  | _, _, _, o => o

theorem Sce.call_counts {op : Op} {reply : Reply} {o' : Int × Int} (h : Inv nowhere s)
    (run : s.call op = .ok (reply, s')) (here : s'.counts i = some o') :
    (∃ o, s.counts i = some o ∧ o' = View.written s.view s'.view op reply i o) ∨
    (∃ m ctx vmalloc, op = .addlun m ctx vmalloc ∧ reply = .hndl (some i) ∧ s.luntbl i = none ∧ o' = 0) := by
  cases op with
  | addcdev m ctx vmalloc =>
    obtain ⟨⟨_, t⟩, done, e⟩ := Except.map_eq_ok.mp run
    obtain ⟨rfl, rfl⟩ := Prod.mk.inj e
    exact Or.inl ⟨o', SameCounts.of_luntbl (sceAddcdev_luntbl done) i o' here, rfl⟩
  | rmcdev d =>
    obtain ⟨⟨r, t⟩, done, e⟩ := Except.map_eq_ok.mp run
    obtain ⟨rfl, rfl⟩ := Prod.mk.inj e
    refine Or.inl ?_
    cases r with
    | success =>
      cases lun : s.luntbl i with
      | none =>
        rcases sceRmcdev_spec h d with ⟨_, fail⟩ | ⟨ctx, n, s₁, _, ok, _, view⟩
        · cases fail.symm.trans done
        · obtain ⟨_, rfl⟩ := Prod.mk.inj (Except.ok.inj (ok.symm.trans done))
          have gone : s₁.view.lun i = none := by
            rw [view]
            show s.view.lun i = none
            rw [Sce.view_lun, lun]
            rfl
          rw [Sce.view_lun, Option.map_eq_none_iff] at gone
          rw [Sce.counts, gone] at here
          cases here
      | some l =>
        refine ⟨l.counts, by rw [Sce.counts, lun]; rfl, ?_⟩
        exact Option.some.inj (here.symm.trans (sceRmcdev_counts h done lun))
    | error =>
      rcases sceRmcdev_spec h d with ⟨_, fail⟩ | ⟨_, _, _, _, ok, _⟩
      · obtain ⟨_, rfl⟩ := Prod.mk.inj (Except.ok.inj (fail.symm.trans done))
        exact ⟨o', here, rfl⟩
      · cases ok.symm.trans done
  | addlun m ctx vmalloc =>
    obtain ⟨⟨_, t⟩, done, e⟩ := Except.map_eq_ok.mp run
    obtain ⟨rfl, rfl⟩ := Prod.mk.inj e
    rcases sceAddlun_counts done here with old | ⟨rfl, absent, rfl⟩
    · exact Or.inl ⟨o', old, rfl⟩
    · exact Or.inr ⟨m, ctx, vmalloc, rfl, rfl, absent, rfl⟩
  | rmlun j =>
    obtain ⟨⟨_, t⟩, done, e⟩ := Except.map_eq_ok.mp run
    obtain ⟨rfl, rfl⟩ := Prod.mk.inj e
    exact Or.inl ⟨o', sceRmlun_counts done i o' here, rfl⟩
  | get4read j x n =>
    obtain ⟨⟨_, t⟩, done, e⟩ := Except.map_eq_ok.mp run
    obtain ⟨rfl, rfl⟩ := Prod.mk.inj e
    exact Or.inl ⟨o', sceGet4read_counts done i o' here, rfl⟩
  | put4read j x n =>
    obtain ⟨⟨_, t⟩, done, e⟩ := Except.map_eq_ok.mp run
    obtain ⟨rfl, rfl⟩ := Prod.mk.inj e
    exact Or.inl ⟨o', scePut4read_counts done i o' here, rfl⟩
  | invalidate j x n =>
    obtain ⟨⟨_, t⟩, done, e⟩ := Except.map_eq_ok.mp run
    obtain ⟨rfl, rfl⟩ := Prod.mk.inj e
    obtain ⟨o, before, alloc, valid⟩ := sceInvalidate_counts h done i o' here
    refine Or.inl ⟨o, before, Prod.ext alloc ?_⟩
    simp only [View.written]
    omega
  | get4pop past =>
    obtain ⟨⟨_, t⟩, done, e⟩ := Except.map_eq_ok.mp run
    obtain ⟨rfl, rfl⟩ := Prod.mk.inj e
    exact Or.inl ⟨o', sceGet4pop_counts done i o' here, rfl⟩
  | put4pop t failed =>
    obtain ⟨⟨_, u⟩, done, e⟩ := Except.map_eq_ok.mp run
    obtain ⟨rfl, rfl⟩ := Prod.mk.inj e
    obtain ⟨o, before, rfl⟩ := scePut4pop_counts done here
    refine Or.inl ⟨o, before, ?_⟩
    rw [← Sce.view_search]
    cases failed <;> simp [View.written]

end Iostash
