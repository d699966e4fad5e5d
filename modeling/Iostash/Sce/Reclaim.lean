import Iostash.Sce.Invariant
import Iostash.Sce.Lun

/-!
# Unmapping

`_unmap_frag` and what is built on it: the purge of a LUN and garbage collection.
-/

namespace Iostash

open Util

variable {s : Sce} {a : Phys} {i f : Nat} {m : Slot} {out : Phys → Prop}

namespace Sce

theorem pushFree_slot {pfid : Word} : (s.pushFree pfid).slot i f =
    (s.slot i f).map fun m => if m.addr = phys pfid then { m with frag := m.frag.freed s.freefraglist } else m :=
  slot_modifyFrag (s := s) (a := phys pfid) (φ := Frag.freed s.freefraglist)

end Sce

/-! ### One fragment -/

theorem unmapFrag_idle (h : Inv out s) (slot : s.slot i f = some m) (idle : m.frag.nrService = 0) :
    Stops s (unmapFrag s i f) ∨
      ∃ s', unmapFrag s i f = .ok (.success, s') ∧ Inv out s' ∧ s'.view = s.view.drop i f := by
  obtain ⟨l, lun, inside, mapped, addr, _, frag⟩ := Sce.slot_eq_some.mp slot
  have here := Sce.place_of_slot slot
  obtain ⟨fl, list⟩ := h.shape.free
  have node : s.node (phys (l.fragmap f)) = some m.frag.node := by
    rw [← addr]; exact Sce.node_of_frag frag
  have off : m.frag.node.fragnum ≠ fragnumWithinFreeList := by
    have bound := h.shape.nrFrag_lt lun
    rw [h.shape.node_of_slot slot]
    simp only [fragnumWithinFreeList]
    omega
  rcases freefraglistPut_used list h.shape.devices node off with ⟨tight, stop⟩ | put
  · refine Or.inl ⟨tight, ?_⟩
    simp only [unmapFrag, lun, if_neg (Nat.not_le.mpr inside), mapped, Sce.pfid2frag, ← addr, frag, idle]
    simp [stop, bind, Except.bind]
  obtain ⟨w, hw⟩ : ∃ w, w = BitVec.ofNat 32 m.frag.nrMiss &&& fragdescDatamask := ⟨_, rfl⟩
  have clear : isMapped w = false := by rw [hw]; exact isMapped_data _
  refine Or.inr ⟨(s.pushFree (l.fragmap f)).setDesc i f w, ?_, ⟨⟨?_, ?_, ?_, ?_⟩, ?_, ?_⟩, ?_⟩
  · simp only [unmapFrag, lun, if_neg (Nat.not_le.mpr inside), mapped, Sce.pfid2frag, ← addr, frag, idle]
    simp [put, bind, Except.bind, pure, Except.pure, hw]
  · exact h.shape.devices.congr Sce.pushFree_dev rfl rfl
  · exact h.shape.luns.congr Sce.setDesc_extent rfl
  · intro j k b there
    have ne : ¬ (j = i ∧ k = f) := by
      rintro ⟨rfl, rfl⟩
      rw [Sce.setDesc_place_unmapped clear] at there
      cases there
    rw [Sce.setDesc_place_ne ne, Sce.pushFree_place] at there
    have apart : b ≠ phys (l.fragmap f) := by
      rintro rfl
      rw [← addr] at there
      exact ne (h.shape.place_inj here there)
    rw [Sce.setDesc_node, Sce.pushFree_node, if_neg apart]
    exact h.shape.mapped j k b there
  · exact ⟨_, (list.push node off).congr rfl rfl rfl⟩
  · intro j k m' slot'
    have ne : ¬ (j = i ∧ k = f) := by
      rintro ⟨rfl, rfl⟩
      rw [Sce.slot_setDesc_unmapped clear] at slot'
      cases slot'
    rw [Sce.slot_setDesc_ne ne, Sce.pushFree_slot] at slot'
    obtain ⟨m₀, slot₀, rfl⟩ := Option.map_eq_some_iff.mp slot'
    have apart : m₀.addr ≠ phys (l.fragmap f) := by
      rw [← addr]
      exact fun e => ne (h.shape.slot_inj slot slot₀ e)
    rw [if_neg apart]
    exact h.pages j k m₀ slot₀
  · intro b g there off'
    rw [Sce.setDesc_frag?, Sce.pushFree_frag?] at there
    split at there
    · obtain ⟨g₀, _, rfl⟩ := Option.map_eq_some_iff.mp there
      exact absurd rfl off'
    · rename_i apart
      rcases h.kept b g there off' with hand | ⟨j, k, place⟩ | busy
      · exact Or.inl hand
      · refine Or.inr (Or.inl ⟨j, k, ?_⟩)
        have ne : ¬ (j = i ∧ k = f) := by
          rintro ⟨rfl, rfl⟩
          rw [here] at place
          exact apart (addr ▸ (Option.some.inj place).symm)
        rw [Sce.setDesc_place_ne ne]
        exact place
      · exact Or.inr (Or.inr busy)
  · refine View.ext_fields Sce.pushFree_dev ?_ ?_ ?_
    · funext j
      show (((s.pushFree _).setDesc i f w).luntbl j).map Lun.volume = (s.luntbl j).map Lun.volume
      unfold Sce.setDesc
      rw [Sce.modifyLun_luntbl]
      split
      · rw [Sce.pushFree_luntbl]
        cases s.luntbl j <;> rfl
      · rfl
    · funext j k
      rw [View.drop_cell]
      show (((s.pushFree _).setDesc i f w).slot j k).map Slot.cell =
        if j = i ∧ k = f then none else (s.slot j k).map Slot.cell
      by_cases ne : j = i ∧ k = f
      · obtain ⟨rfl, rfl⟩ := ne
        rw [Sce.slot_setDesc_unmapped clear]
        simp
      · rw [Sce.slot_setDesc_ne ne, if_neg ne, Sce.pushFree_slot]
        cases slot' : s.slot j k with
        | none => rfl
        | some m' =>
          have apart : m'.addr ≠ phys (l.fragmap f) := by
            rw [← addr]
            exact fun e => ne (h.shape.slot_inj slot slot' e)
          simp [apart]
    · intro b
      rw [View.drop_free]
      have cell : s.view.cell i f = some m.cell := by
        show (s.slot i f).map Slot.cell = _
        rw [slot]
        rfl
      show (s.pushFree _).isFree b ↔ s.isFree b ∨ _
      rw [Sce.pushFree_isFree node, cell]
      simp only [Option.some.injEq, exists_eq_left']
      rw [← addr, or_comm, eq_comm]
      rfl

theorem unmapFrag_none (h : Shape s) (slot : s.slot i f = none) : unmapFrag s i f = .ok (.error, s) := by
  unfold unmapFrag
  cases lun : s.luntbl i with
  | none => rfl
  | some l =>
    simp only
    split
    · rfl
    · rename_i inside
      have clear := h.unmapped lun (Nat.not_le.mp inside) slot
      simp [clear]

theorem unmapFrag_busy (slot : s.slot i f = some m) (busy : m.frag.nrService ≠ 0) :
    unmapFrag s i f = .ok (.error, s) := by
  obtain ⟨l, lun, inside, mapped, addr, _, frag⟩ := Sce.slot_eq_some.mp slot
  simp only [unmapFrag, lun, if_neg (Nat.not_le.mpr inside), mapped, Sce.pfid2frag, ← addr, frag,
    if_pos (Nat.pos_of_ne_zero busy)]
  simp

/-! ### All fragments of a LUN -/

/-- The idle ones of some fragments of LUN `i` are unmapped. -/
def View.dropIdle (v : View) (i : Nat) (fs : List Nat) : View :=
  { v with
    cell := fun j k => if j = i ∧ k ∈ fs then (v.cell j k).filter fun c => decide (c.service ≠ 0) else v.cell j k
    free := fun a => v.free a ∨ ∃ f ∈ fs, ∃ c, v.cell i f = some c ∧ c.addr = a ∧ c.service = 0 }

theorem View.dropIdle_nil (v : View) : v.dropIdle i [] = v :=
  View.ext_fields rfl rfl (by funext j k; simp [View.dropIdle]) (by simp [View.dropIdle])

/-- Unmapping the first fragment, if it is idle, and then the rest. -/
theorem View.dropIdle_cons_idle {v : View} {c : Cell} {fs : List Nat} (cell : v.cell i f = some c)
    (idle : c.service = 0) : (v.drop i f).dropIdle i fs = v.dropIdle i (f :: fs) := by
  refine View.ext_fields rfl rfl ?_ ?_
  · funext j k
    simp only [View.dropIdle, View.drop_cell, List.mem_cons]
    by_cases here : j = i ∧ k = f
    · obtain ⟨rfl, rfl⟩ := here
      simp [cell, idle, Option.filter]
    · have split : (j = i ∧ (k = f ∨ k ∈ fs)) ↔ (j = i ∧ k ∈ fs) := by
        constructor
        · rintro ⟨rfl, rfl | member⟩
          · exact absurd ⟨rfl, rfl⟩ here
          · exact ⟨rfl, member⟩
        · rintro ⟨e, member⟩
          exact ⟨e, Or.inr member⟩
      simp only [if_neg here, split]
  · intro a
    simp only [View.dropIdle, View.drop_free, View.drop_cell, List.mem_cons, true_and]
    constructor
    · rintro ((free | ⟨c', cell', addr⟩) | ⟨k, member, c', cell', addr, idle'⟩)
      · exact Or.inl free
      · obtain rfl := Option.some.inj (cell.symm.trans cell')
        exact Or.inr ⟨f, Or.inl rfl, c, cell, addr, idle⟩
      · split at cell'
        · cases cell'
        · exact Or.inr ⟨k, Or.inr member, c', cell', addr, idle'⟩
    · rintro (free | ⟨k, rfl | member, c', cell', addr, idle'⟩)
      · exact Or.inl (Or.inl free)
      · exact Or.inl (Or.inr ⟨c', cell', addr⟩)
      · by_cases same : k = f
        · subst same
          exact Or.inl (Or.inr ⟨c', cell', addr⟩)
        · exact Or.inr ⟨k, member, c', by rw [if_neg same]; exact cell', addr, idle'⟩

theorem View.dropIdle_cons_busy {v : View} {fs : List Nat}
    (busy : ∀ c, v.cell i f = some c → c.service ≠ 0) : v.dropIdle i fs = v.dropIdle i (f :: fs) := by
  refine View.ext_fields rfl rfl ?_ ?_
  · funext j k
    simp only [View.dropIdle, List.mem_cons]
    by_cases here : j = i ∧ k = f
    · obtain ⟨rfl, rfl⟩ := here
      cases cell : v.cell j k with
      | none => simp
      | some c =>
        have := busy c cell
        simp [this, Option.filter]
    · have split : (j = i ∧ (k = f ∨ k ∈ fs)) ↔ (j = i ∧ k ∈ fs) := by
        constructor
        · rintro ⟨rfl, rfl | member⟩
          · exact absurd ⟨rfl, rfl⟩ here
          · exact ⟨rfl, member⟩
        · rintro ⟨e, member⟩
          exact ⟨e, Or.inr member⟩
      simp only [split]
  · intro a
    simp only [View.dropIdle, List.mem_cons]
    constructor
    · rintro (free | ⟨k, member, rest⟩)
      · exact Or.inl free
      · exact Or.inr ⟨k, Or.inr member, rest⟩
    · rintro (free | ⟨k, rfl | member, c, cell, addr, idle⟩)
      · exact Or.inl free
      · exact absurd idle (busy c cell)
      · exact Or.inr ⟨k, member, c, cell, addr, idle⟩

theorem Sce.view_cell : s.view.cell i f = (s.slot i f).map Slot.cell := rfl

theorem Sce.view_cell_some (slot : s.slot i f = some m) : s.view.cell i f = some m.cell := by
  rw [Sce.view_cell, slot]
  rfl

theorem Shape.place_eq_cell (h : Shape s) : s.place i f = (s.view.cell i f).map Cell.addr := by
  rw [Sce.view_cell]
  cases slot : s.slot i f with
  | none => exact h.slot_none_iff.mp slot
  | some m => exact Sce.place_of_slot slot

theorem unmapAll_spec (fs : List Nat) : ∀ s, Inv out s → Stops s (unmapAll i fs s) ∨
    ∃ s', unmapAll i fs s = .ok s' ∧ Inv out s' ∧ s'.view = s.view.dropIdle i fs := by
  induction fs with
  | nil => exact fun s h => Or.inr ⟨s, rfl, h, (View.dropIdle_nil _).symm⟩
  | cons f fs ih =>
    intro s h
    by_cases idle : ∃ m, s.slot i f = some m ∧ m.frag.nrService = 0
    · obtain ⟨m, slot, idle⟩ := idle
      rcases unmapFrag_idle h slot idle with ⟨tight, stop⟩ | ⟨s₁, unmap, h₁, view₁⟩
      · exact Or.inl ⟨tight, by simp [unmapAll, stop, bind, Except.bind]⟩
      rcases ih s₁ h₁ with stop | ⟨s', rest, h', view'⟩
      · exact Or.inl (stop.of_view view₁ rfl fun e => by simp [unmapAll, unmap, bind, Except.bind, e])
      refine Or.inr ⟨s', by simp [unmapAll, unmap, bind, Except.bind, rest], h', ?_⟩
      rw [view', view₁]
      exact View.dropIdle_cons_idle (Sce.view_cell_some slot) idle
    · have unmap : unmapFrag s i f = .ok (.error, s) := by
        cases slot : s.slot i f with
        | none => exact unmapFrag_none h.shape slot
        | some m => exact unmapFrag_busy slot fun e => idle ⟨m, slot, e⟩
      rcases ih s h with ⟨tight, stop⟩ | ⟨s', rest, h', view'⟩
      · exact Or.inl ⟨tight, by simp [unmapAll, unmap, bind, Except.bind, stop]⟩
      refine Or.inr ⟨s', by simp [unmapAll, unmap, bind, Except.bind, rest], h', ?_⟩
      rw [view']
      refine View.dropIdle_cons_busy fun c cell => ?_
      rw [Sce.view_cell] at cell
      obtain ⟨m, slot, rfl⟩ := Option.map_eq_some_iff.mp cell
      exact fun e => idle ⟨m, slot, e⟩

/-! ### The purge of a LUN -/

theorem Sce.lun_of_slot (slot : s.slot i f = some m) : ∃ l, s.luntbl i = some l ∧ f < l.nrFrag := by
  obtain ⟨l, lun, inside, _⟩ := Sce.slot_eq_some.mp slot
  exact ⟨l, lun, inside⟩

theorem Sce.view_lun : s.view.lun i = (s.luntbl i).map Lun.volume := rfl

theorem Luns.nrLun_pos (h : Luns s) {l : Lun} (lun : s.luntbl i = some l) : 0 < s.nrLun := by
  have extent := Sce.extent_eq_some.mpr ⟨l, lun, rfl, rfl⟩
  rw [h.nrLun, Finset.card_pos]
  refine ⟨i, Finset.mem_filter.mpr ⟨Finset.mem_range.mpr (h.bounds i _ _ extent).1, ?_⟩⟩
  rw [extent]
  rfl

/-- A LUN whose remaining fragments are all in use can be dropped from the table. -/
theorem Inv.destroy (h : Inv out s) {l : Lun} (lun : s.luntbl i = some l)
    (busy : ∀ f m, s.slot i f = some m → 0 < m.frag.nrService) :
    Inv out { lunDestroy s i with nrLun := s.nrLun - 1 } := by
  have extent := Sce.extent_eq_some.mpr ⟨l, lun, rfl, rfl⟩
  have place : ∀ j f, ({ lunDestroy s i with nrLun := s.nrLun - 1 } : Sce).place j f =
      if j = i then none else s.place j f := by
    intro j f
    by_cases e : j = i <;> simp [Sce.place, lunDestroy, e]
  have slots : ∀ j f, ({ lunDestroy s i with nrLun := s.nrLun - 1 } : Sce).slot j f =
      if j = i then none else s.slot j f := by
    intro j f
    by_cases e : j = i
    · simp [Sce.slot, lunDestroy, e]
    · simp only [Sce.slot, lunDestroy, if_neg e]
      rfl
  have extents : ∀ j, ({ lunDestroy s i with nrLun := s.nrLun - 1 } : Sce).extent j =
      if j = i then none else s.extent j := by
    intro j
    by_cases e : j = i <;> simp [Sce.extent, lunDestroy, e]
  refine ⟨⟨h.shape.devices.congr rfl rfl rfl, ⟨?_, ?_⟩, ?_, ?_⟩, ?_, ?_⟩
  · intro j m n there
    rw [extents] at there
    split at there
    · cases there
    · exact h.shape.luns.bounds j m n there
  · have gone : ((Finset.range sceMaxLun).filter fun j =>
        (({ lunDestroy s i with nrLun := s.nrLun - 1 } : Sce).extent j).isSome) =
        ((Finset.range sceMaxLun).filter fun j => (s.extent j).isSome).erase i := by
      ext j
      simp only [Finset.mem_filter, Finset.mem_erase, extents]
      by_cases e : j = i <;> simp [e]
    rw [gone, Finset.card_erase_of_mem, ← h.shape.luns.nrLun]
    refine Finset.mem_filter.mpr ⟨Finset.mem_range.mpr (h.shape.luns.bounds i _ _ extent).1, ?_⟩
    rw [extent]
    rfl
  · intro j f a there
    rw [place] at there
    split at there
    · cases there
    · exact h.shape.mapped j f a there
  · obtain ⟨fl, list⟩ := h.shape.free
    exact ⟨fl, list.congr rfl rfl rfl⟩
  · intro j f m slot
    rw [slots] at slot
    split at slot
    · cases slot
    · exact h.pages j f m slot
  · intro a g frag off
    rcases h.kept a g frag off with hand | ⟨j, f, there⟩ | used
    · exact Or.inl hand
    · by_cases e : j = i
      · subst e
        obtain ⟨m, slot, rfl⟩ := h.shape.slot_of_place there
        obtain rfl : m.frag = g := Option.some.inj ((Sce.frag_of_slot slot).symm.trans frag)
        exact Or.inr (Or.inr (busy f m slot))
      · exact Or.inr (Or.inl ⟨j, f, by rw [place, if_neg e]; exact there⟩)
    · exact Or.inr (Or.inr used)

theorem lunPurge_spec (h : Inv out s) {l : Lun} (lun : s.luntbl i = some l) (idle : l.nrService = 0) :
    Stops s (lunPurge s i) ∨
      ∃ s', lunPurge s i = .ok (.success, s') ∧ Inv out s' ∧ s'.view = s.view.purge i := by
  have counted := (h.shape.luns.nrLun_pos lun).ne'
  rcases unmapAll_spec (i := i) (List.range l.nrFrag) s h with ⟨tight, stop⟩ | ⟨s₁, unmap, h₁, view₁⟩
  · exact Or.inl ⟨tight, by simp [lunPurge, lun, idle, counted, stop, bind, Except.bind]⟩
  have volume : (s₁.luntbl i).map Lun.volume = some l.volume := by
    rw [← Sce.view_lun, view₁]
    show s.view.lun i = _
    rw [Sce.view_lun, lun]
    rfl
  obtain ⟨l₁, lun₁, _⟩ := Option.map_eq_some_iff.mp volume
  have inside : ∀ f c, s.view.cell i f = some c → f ∈ List.range l.nrFrag := by
    intro f c cell
    rw [Sce.view_cell] at cell
    obtain ⟨m, slot, _⟩ := Option.map_eq_some_iff.mp cell
    obtain ⟨l', lun', lt⟩ := Sce.lun_of_slot slot
    obtain rfl := Option.some.inj (lun.symm.trans lun')
    exact List.mem_range.mpr lt
  have busy : ∀ f m, s₁.slot i f = some m → 0 < m.frag.nrService := by
    intro f m slot
    have cell := Sce.view_cell_some slot
    rw [view₁] at cell
    simp only [View.dropIdle, true_and] at cell
    split at cell
    · obtain ⟨_, used⟩ := Option.filter_eq_some_iff.mp cell
      exact Nat.pos_of_ne_zero (of_decide_eq_true used)
    · rename_i off
      exact absurd (inside f _ cell) off
  refine Or.inr ⟨{ lunDestroy s₁ i with nrLun := s₁.nrLun - 1 }, ?_, h₁.destroy lun₁ busy, ?_⟩
  · simp [lunPurge, lun, idle, counted, unmap, bind, Except.bind, pure, Except.pure]
    rfl
  · have dev : s₁.dev = s.dev := congrArg View.dev view₁
    refine View.ext_fields dev ?_ ?_ ?_
    · funext j
      rw [View.purge_lun]
      have same : s₁.view.lun j = s.view.lun j := by rw [view₁]; rfl
      rw [← same]
      show (if j = i then none else s₁.luntbl j).map Lun.volume = _
      split <;> rfl
    · funext j k
      rw [View.purge_cell]
      by_cases e : j = i
      · rw [if_pos e]
        show (Sce.slot _ j k).map Slot.cell = none
        simp [Sce.slot, lunDestroy, e]
      · rw [if_neg e]
        have same : s₁.view.cell j k = s.view.cell j k := by
          rw [view₁]
          simp [View.dropIdle, e]
        rw [← same]
        show (Sce.slot _ j k).map Slot.cell = (s₁.slot j k).map Slot.cell
        simp only [Sce.slot, lunDestroy, if_neg e]
        rfl
    · intro a
      rw [View.purge_free]
      show s₁.isFree a ↔ _
      have free : s₁.view.free a ↔ (s.view.dropIdle i (List.range l.nrFrag)).free a := by rw [view₁]
      rw [show s₁.isFree a ↔ s₁.view.free a from Iff.rfl, free]
      simp only [View.dropIdle]
      constructor
      · rintro (free | ⟨f, _, rest⟩)
        · exact Or.inl free
        · exact Or.inr ⟨f, rest⟩
      · rintro (free | ⟨f, c, cell, rest⟩)
        · exact Or.inl free
        · exact Or.inr ⟨f, inside f c cell, c, cell, rest⟩

/-! ### Garbage collection -/

/-- The second half of `_lun_gc`: the purge of a LUN pending deletion that nothing counts on. -/
theorem lunSettle_spec (h : Inv out s) :
    (Stops s (lunPurge s i) ∧ (s.luntbl i).any (fun l => l.waiting4deletion && l.nrService == 0) = true) ∨
    ∃ s', Inv out s' ∧ s'.view = s.view.settle i ∧
      if (s.luntbl i).any (fun l => l.waiting4deletion && l.nrService == 0) = true
      then lunPurge s i = .ok (.success, s') else s' = s := by
  have same : (s.view.lun i).any (fun l => l.waiting && l.service == 0) =
      (s.luntbl i).any (fun l => l.waiting4deletion && l.nrService == 0) := by
    rw [Sce.view_lun]
    cases s.luntbl i <;> rfl
  unfold View.settle
  rw [same]
  split
  · rename_i due
    cases lun : s.luntbl i with
    | none => rw [lun] at due; cases due
    | some l =>
      have flags := due
      rw [lun, Option.any_some, Bool.and_eq_true, beq_iff_eq] at flags
      rcases lunPurge_spec h lun flags.2 with stop | ⟨s', purge, h', view⟩
      · exact Or.inl ⟨stop, lun ▸ due⟩
      · exact Or.inr ⟨s', h', view, purge⟩
  · exact Or.inr ⟨s, h, rfl, rfl⟩

theorem lunGc_rest (h : Inv out s) :
    Stops s (do
      let (_, s) ← if (s.luntbl i).any (fun l => l.waiting4deletion && l.nrService == 0) then lunPurge s i
        else .ok (.error, s)
      return (.success, s) : Except Fault (Ret × Sce)) ∨
    ∃ s', (do
      let (_, s) ← if (s.luntbl i).any (fun l => l.waiting4deletion && l.nrService == 0) then lunPurge s i
        else .ok (.error, s)
      return (.success, s) : Except Fault (Ret × Sce)) = .ok (.success, s') ∧ Inv out s' ∧
      s'.view = s.view.settle i := by
  simp only [bind, Except.bind]
  rcases lunSettle_spec (i := i) h with ⟨⟨tight, stop⟩, due⟩ | ⟨s', h', view', settle⟩
  · exact Or.inl ⟨tight, by rw [if_pos due, stop]⟩
  · refine Or.inr ⟨s', ?_, h', view'⟩
    split at settle <;> rename_i due
    · rw [if_pos due, settle]
      rfl
    · rw [if_neg due, settle]
      rfl

theorem lunGc_spec (h : Inv out s) (slot : s.slot i f = some m) : Stops s (lunGc s i m.addr) ∨
    ∃ s', lunGc s i m.addr = .ok (.success, s') ∧ Inv out s' ∧ s'.view = s.view.collect i f := by
  have fragnum : m.frag.fragnum = f := congrArg Node.fragnum (h.shape.node_of_slot slot)
  have spent := h.spent_iff slot
  have cell := Sce.view_cell_some slot
  unfold View.collect
  rw [cell]
  simp only [Option.any_some, Bool.and_eq_true, beq_iff_eq]
  by_cases gone : m.frag.nrService = 0 ∧ m.frag.nrValid = 0
  · rw [if_pos (show m.cell.service = 0 ∧ m.cell.spent = true from ⟨gone.1, spent.mp gone.2⟩)]
    simp only [lunGc, Sce.frag_of_slot slot, fragnum, if_pos gone]
    rcases unmapFrag_idle h slot gone.1 with ⟨tight, stop⟩ | ⟨s₁, unmap, h₁, view₁⟩
    · exact Or.inl ⟨tight, by simp only [stop]; rfl⟩
    simp only [unmap]
    rcases lunGc_rest (i := i) h₁ with stop | ⟨s', settle, h', view'⟩
    · exact Or.inl (stop.of_view view₁ rfl id)
    · exact Or.inr ⟨s', settle, h', by rw [view', view₁]⟩
  · rw [if_neg (show ¬ (m.cell.service = 0 ∧ m.cell.spent = true) from fun e => gone ⟨e.1, spent.mpr e.2⟩)]
    simp only [lunGc, Sce.frag_of_slot slot, if_neg gone]
    exact lunGc_rest h

/-- After the fragment has been freed only the LUN is left to collect. -/
theorem lunGc_free (h : Inv out s) {g : Frag} (frag : s.frag? a = some g) (free : g.fragnum = fragnumWithinFreeList) :
    Stops s (lunGc s i a) ∨
    ∃ s', lunGc s i a = .ok (.success, s') ∧ Inv out s' ∧ s'.view = s.view.settle i := by
  have unmap : unmapFrag s i g.fragnum = .ok (.error, s) := by
    unfold unmapFrag
    cases lun : s.luntbl i with
    | none => rfl
    | some l =>
      have bound := h.shape.nrFrag_lt lun
      have past : l.nrFrag ≤ g.fragnum := by
        rw [free]
        simp only [fragnumWithinFreeList]
        omega
      simp [past]
  simp only [lunGc, frag, unmap, ite_self]
  exact lunGc_rest h

end Iostash
