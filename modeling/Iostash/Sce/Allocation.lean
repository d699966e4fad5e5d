import Iostash.Sce.Invalidation

/-!
# Allocation

Taking a physical fragment: from the free list, or by eviction. The clock decides which idle fragment
is evicted; to the abstract cache any idle one may go.
-/

namespace Iostash

open Util

variable {s : Sce} {v : View} {c : Cell} {i f j k : Nat} {a : Phys} {m : Slot}

/-! ### Eviction -/

theorem Devices.frag_present (h : Devices s) {cdev : Cdev} {d : Nat} (dev : s.cdevtbl d = some cdev) (off : Nat) :
    ∃ g, s.frag? ⟨d, off % cdev.nrFrag⟩ = some g := by
  obtain ⟨_, _, _, pos⟩ := h.bounds d _ _ (Sce.dev_eq_some.mpr ⟨cdev, dev, rfl, rfl⟩)
  refine ⟨cdev.fragtbl (off % cdev.nrFrag), Sce.frag?_some_iff.mpr ⟨cdev, dev, Nat.mod_lt _ pos, rfl⟩⟩

theorem getFragAdvanceClockarm_spec (h : Inv nowhere s) :
    ∃ r s', getFragAdvanceClockarm s = (r, s') ∧ Inv nowhere s' ∧ s'.view = s.view ∧
      ∀ a, r = some a → ∃ g, s'.frag? a = some g := by
  unfold getFragAdvanceClockarm
  split
  · exact ⟨none, s, rfl, h, rfl, by simp⟩
  · simp only
    cases dev : s.cdevtbl (scePfidDev s.arm % s.nrCdev) with
    | none =>
      obtain ⟨h', view'⟩ := h.congr (t := { s with arm := scePfid (scePfidDev s.arm % s.nrCdev + 1) (scePfidOff s.arm) })
        rfl rfl rfl rfl rfl rfl rfl
      exact ⟨none, _, rfl, h', view', by simp⟩
    | some cdev =>
      obtain ⟨arm, harm⟩ : ∃ arm, arm = if cdev.nrFrag ≤ scePfidOff s.arm % cdev.nrFrag + 1
        then scePfid (scePfidDev s.arm % s.nrCdev + 1) 0
        else scePfid (scePfidDev s.arm % s.nrCdev) (scePfidOff s.arm % cdev.nrFrag + 1) := ⟨_, rfl⟩
      obtain ⟨h', view'⟩ := h.congr (t := { s with arm := arm }) rfl rfl rfl rfl rfl rfl rfl
      refine ⟨some ⟨scePfidDev s.arm % s.nrCdev, scePfidOff s.arm % cdev.nrFrag⟩, { s with arm := arm },
        by rw [harm], h', view', ?_⟩
      rintro _ ⟨rfl⟩
      exact h'.shape.devices.frag_present dev _

theorem Inv.evictable (h : Inv nowhere s) {g : Frag} (frag : s.frag? a = some g) (used : g.fragnum < fragnumFree)
    (idle : g.nrService = 0) : g.lunidx < sceMaxLun ∧
      ∃ m, s.slot g.lunidx g.fragnum = some m ∧ m.addr = a ∧ m.frag = g := by
  have off : g.fragnum ≠ fragnumWithinFreeList := by
    simp only [fragnumFree, fragnumWithinFreeList] at *
    omega
  rcases h.kept a g frag off with hand | ⟨j, k, place⟩ | busy
  · exact hand.elim
  · obtain ⟨m, slot, rfl⟩ := h.shape.slot_of_place place
    obtain rfl : m.frag = g := Option.some.inj ((Sce.frag_of_slot slot).symm.trans frag)
    have node := h.shape.node_of_slot slot
    have lunidx : m.frag.lunidx = j := congrArg Node.lunidx node
    have fragnum : m.frag.fragnum = k := congrArg Node.fragnum node
    obtain ⟨l, lun, _⟩ := Sce.lun_of_slot slot
    obtain ⟨bound, _⟩ := h.shape.luns.bounds j _ _ (Sce.extent_eq_some.mpr ⟨l, lun, rfl, rfl⟩)
    rw [lunidx, fragnum]
    exact ⟨bound, m, slot, rfl, rfl⟩
  · omega

theorem evictLoop_spec (n : Nat) : ∀ s, Inv nowhere s → Stops s (evictLoop n s) ∨
    ∃ r s', evictLoop n s = .ok (r, s') ∧ Inv nowhere s' ∧
    ((r = .error ∧ s'.view = s.view) ∨
      (r = .success ∧ ∃ j k c, s.view.cell j k = some c ∧ c.service = 0 ∧ s'.view = s.view.drop j k)) := by
  induction n with
  | zero => exact fun s h => Or.inr ⟨.error, s, rfl, h, Or.inl ⟨rfl, rfl⟩⟩
  | succ n ih =>
    intro s h
    obtain ⟨r, s₁, clock, h₁, view₁, present⟩ := getFragAdvanceClockarm_spec h
    unfold evictLoop
    rw [clock]
    cases r with
    | none => exact Or.inr ⟨.error, s₁, rfl, h₁, Or.inl ⟨rfl, view₁⟩⟩
    | some a =>
      obtain ⟨g, frag⟩ := present a rfl
      simp only [frag]
      split
      · rename_i candidate
        obtain ⟨bound, m, slot, addr, rfl⟩ := h₁.evictable frag candidate.1 candidate.2
        split
        · rcases unmapFrag_idle h₁ slot candidate.2 with stop | ⟨s', unmap, h', view'⟩
          · exact Or.inl (stop.of_view view₁ rfl fun e => by
              simp [Nat.not_le.mpr bound, e, bind, Except.bind])
          refine Or.inr ⟨.success, s', ?_, h', Or.inr ⟨rfl, _, _, m.cell, ?_, candidate.2, by rw [view', view₁]⟩⟩
          · simp [Nat.not_le.mpr bound, unmap, bind, Except.bind, pure, Except.pure]
          · rw [← view₁]
            exact Sce.view_cell_some slot
        · obtain ⟨h₂, view₂⟩ := h₁.modifyFrag_same (φ := fun g => { g with nrRef := g.nrRef - 1 }) slot
            rfl rfl rfl rfl
          rw [addr] at h₂ view₂
          rcases ih _ h₂ with stop | ⟨r, s', loop, h', out⟩
          · exact Or.inl (stop.of_view (view₂.trans view₁) rfl id)
          · rw [view₂, view₁] at out
            exact Or.inr ⟨r, s', loop, h', out⟩
      · rcases ih _ h₁ with stop | ⟨r, s', loop, h', out⟩
        · exact Or.inl (stop.of_view view₁ rfl id)
        · rw [view₁] at out
          exact Or.inr ⟨r, s', loop, h', out⟩

theorem evictFrag_spec (h : Inv nowhere s) : Stops s (evictFrag s) ∨ ∃ r s', evictFrag s = .ok (r, s') ∧ Inv nowhere s' ∧
    ((r = .error ∧ s'.view = s.view) ∨
      (r = .success ∧ ∃ j k c, s.view.cell j k = some c ∧ c.service = 0 ∧ s'.view = s.view.drop j k)) := by
  unfold evictFrag
  split
  · exact evictLoop_spec _ s h
  · exact Or.inr ⟨.error, s, rfl, h, Or.inl ⟨rfl, rfl⟩⟩

/-! ### Taking a fragment -/

theorem Sce.view_inj (h : Shape s) {c' : Cell} (cell : s.view.cell i f = some c) (cell' : s.view.cell j k = some c')
    (same : c'.addr = c.addr) : j = i ∧ k = f := by
  obtain ⟨m, slot, rfl⟩ := Option.map_eq_some_iff.mp (Sce.view_cell ▸ cell)
  obtain ⟨m', slot', rfl⟩ := Option.map_eq_some_iff.mp (Sce.view_cell ▸ cell')
  exact h.slot_inj slot slot' same

theorem Sce.view_not_free (h : Shape s) (cell : s.view.cell i f = some c) : ¬ s.view.free c.addr := by
  obtain ⟨m, slot, rfl⟩ := Option.map_eq_some_iff.mp (Sce.view_cell ▸ cell)
  exact h.not_free (Sce.place_of_slot slot)

theorem Sce.popFree_slot {pfid w : Word} : (s.popFree pfid w).slot i f =
    (s.slot i f).map fun m => if m.addr = phys pfid then { m with frag := m.frag.taken } else m :=
  slot_modifyFrag (s := s) (a := phys pfid) (φ := Frag.taken)

theorem popFree_spec (h : Inv nowhere s) (ne : s.freefraglist ≠ 0#32) :
    ∃ s', freefraglistGet s = .ok ((.success, s.freefraglist), s') ∧
      Inv (fun b => b = phys s.freefraglist) s' ∧ s'.view = s.view.seize (phys s.freefraglist) ∧
      s.isFree (phys s.freefraglist) := by
  obtain ⟨fl, list⟩ := h.shape.free
  obtain ⟨g, fl', rfl, frag, list'⟩ := list.pop ne
  have free : s.isFree (phys s.freefraglist) := (list.mem _).mp List.mem_cons_self
  have apart : ∀ j k b, s.place j k = some b → b ≠ phys s.freefraglist := by
    rintro j k _ place rfl
    exact h.shape.not_free place free
  refine ⟨s.popFree s.freefraglist g.next, freefraglistGet_eq list ne frag, ⟨⟨?_, ?_, ?_, fl', list'⟩, ?_, ?_⟩, ?_, free⟩
  · exact h.shape.devices.congr Sce.popFree_dev rfl rfl
  · exact h.shape.luns.congr rfl rfl
  · intro j k b place
    rw [Sce.popFree_node, if_neg (apart j k b place)]
    exact h.shape.mapped j k b place
  · intro j k m slot
    rw [Sce.popFree_slot] at slot
    obtain ⟨m₀, slot₀, rfl⟩ := Option.map_eq_some_iff.mp slot
    rw [if_neg (apart j k _ (Sce.place_of_slot slot₀))]
    exact h.pages j k m₀ slot₀
  · intro b g' there off
    rw [Sce.popFree_frag?] at there
    split at there
    · rename_i e
      exact Or.inl e
    · rcases h.kept b g' there off with hand | rest
      · exact hand.elim
      · exact Or.inr rest
  · refine View.ext_fields Sce.popFree_dev rfl ?_ ?_
    · funext j k
      show ((s.popFree _ _).slot j k).map Slot.cell = (s.view.cell j k).filter _
      rw [Sce.popFree_slot, Sce.view_cell]
      cases slot : s.slot j k with
      | none => rfl
      | some m =>
        have off := apart j k _ (Sce.place_of_slot slot)
        simp [off, Slot.cell, Option.filter]
    · intro b
      show (s.popFree _ _).isFree b ↔ _
      rw [Sce.popFree_isFree]
      rfl

/-- A physical fragment that can be taken: a free one, or without any the place of an idle cell. -/
def View.available (v : View) (a : Phys) : Prop :=
  v.free a ∨ (∀ b, ¬ v.free b) ∧ ∃ j k c, v.cell j k = some c ∧ c.service = 0 ∧ c.addr = a

theorem View.seize_drop (cell : v.cell j k = some c)
    (inj : ∀ j' k' c', v.cell j' k' = some c' → c'.addr = c.addr → j' = j ∧ k' = k) :
    (v.drop j k).seize c.addr = v.seize c.addr := by
  refine View.ext_fields rfl rfl ?_ ?_
  · funext j' k'
    simp only [View.seize, View.drop_cell]
    by_cases here : j' = j ∧ k' = k
    · obtain ⟨rfl, rfl⟩ := here
      simp [cell, Option.filter]
    · rw [if_neg here]
  · intro b
    simp only [View.seize, View.drop_free]
    constructor
    · rintro ⟨ne, free | ⟨c', cell', addr⟩⟩
      · exact ⟨ne, free⟩
      · obtain rfl := Option.some.inj (cell.symm.trans cell')
        exact absurd addr.symm ne
    · rintro ⟨ne, free⟩
      exact ⟨ne, Or.inl free⟩

/-- The allocation loop ends after at most one eviction. -/
theorem allocLoop_spec (h : Inv nowhere s) {fuel : Nat} (enough : 2 ≤ fuel) :
    Stops s (allocLoop fuel s) ∨ (∃ s', allocLoop fuel s = .ok ((.error, 0#32), s') ∧ Inv nowhere s' ∧ s'.view = s.view) ∨
    (∃ pfid s', allocLoop fuel s = .ok ((.success, pfid), s') ∧ Inv (fun b => b = phys pfid) s' ∧
      s'.view = s.view.seize (phys pfid) ∧ s.view.available (phys pfid)) := by
  obtain ⟨fuel, rfl⟩ : ∃ n, fuel = n + 2 := ⟨fuel - 2, by omega⟩
  by_cases empty : s.freefraglist = 0#32
  · obtain ⟨fl, list⟩ := h.shape.free
    have nothing := list.empty_iff.mp empty
    simp only [allocLoop, freefraglistGet_empty empty, bind, Except.bind, pure, Except.pure]
    rcases evictFrag_spec h with ⟨tight, stop⟩ | ⟨r, s₁, evict, h₁, out⟩
    · exact Or.inl ⟨tight, by simp [stop]⟩
    right
    simp only [evict]
    rcases out with ⟨rfl, view₁⟩ | ⟨rfl, j, k, c, cell, idle, view₁⟩
    · exact Or.inl ⟨s₁, by simp, h₁, view₁⟩
    · right
      obtain ⟨h₂, view₂⟩ := h₁.congr (t := { s₁ with nrEviction := u32 (s₁.nrEviction + 1) })
        rfl rfl rfl rfl rfl rfl rfl
      obtain ⟨fl₂, list₂⟩ := h₂.shape.free
      have freed : s₁.isFree c.addr := by
        show s₁.view.free c.addr
        rw [view₁]
        exact Or.inr ⟨c, cell, rfl⟩
      have ne : s₁.freefraglist ≠ 0#32 := fun e => list₂.empty_iff.mp e c.addr freed
      obtain ⟨s₃, get, h₃, view₃, free₃⟩ := popFree_spec h₂ ne
      -- the evicted fragment is the only one on the list
      have addr : c.addr = phys s₁.freefraglist := by
        have free : s₁.view.free (phys s₁.freefraglist) := free₃
        rw [view₁] at free
        rcases free with old | ⟨c', cell', addr⟩
        · exact absurd old (nothing _)
        · obtain rfl := Option.some.inj (cell.symm.trans cell')
          exact addr
      refine ⟨s₁.freefraglist, s₃, ?_, h₃, ?_, Or.inr ⟨nothing, j, k, c, cell, idle, addr⟩⟩
      · simp only [reduceCtorEq, false_and, if_false, ne_eq, not_true]
        simp only [get]
        simp [ne]
      · rw [view₃, view₂, view₁]
        show (s.view.drop j k).seize (phys s₁.freefraglist) = _
        rw [← addr]
        exact View.seize_drop cell fun j' k' c' cell' same => Sce.view_inj h.shape cell cell' same
  · obtain ⟨s', get, h', view', free⟩ := popFree_spec h empty
    refine Or.inr (Or.inr ⟨s.freefraglist, s', ?_, h', view', Or.inl free⟩)
    simp [allocLoop, get, bind, Except.bind, pure, Except.pure, empty]

end Iostash
