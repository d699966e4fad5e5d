import Iostash.Sce.Clock
import Iostash.Sce.Populating
import Iostash.Client.Cached

/-!
# Taking a fragment

What `_alloc4population` and `_evict_frag` do in the states that runs of the API reach.
-/

namespace Iostash

open Util

variable {s s' : Sce} {i f : Nat} {a : Phys} {m : Slot}

/-! ### Allocation -/

/-- An allocation that finds nothing. -/
structure Sce.Refused (s s' : Sce) : Prop where
  view : s'.view = s.view
  freefraglist : s'.freefraglist = s.freefraglist
  nrFreefrag : s'.nrFreefrag = s.nrFreefrag

/-- An allocation that maps the fragment `f` of LUN `i` to `a`, taken from the free list or evicted. -/
structure Sce.Granted (s s' : Sce) (i f : Nat) (a : Phys) : Prop where
  slot : ∃ m, s'.slot i f = some m ∧ m.addr = a ∧ m.valid = false ∧ m.frag.nrService = 1
  others : ∀ j k, ¬ (j = i ∧ k = f) → s'.view.cell j k = (s.view.cell j k).filter fun c => decide (c.addr ≠ a)
  free : ∀ b, s'.isFree b ↔ s.isFree b ∧ b ≠ a
  source : (s.freefraglist ≠ 0#32 ∧ s.isFree a ∧ (∀ j k, s.place j k ≠ some a) ∧ s'.nrFreefrag + 1 = s.nrFreefrag) ∨
    (s.freefraglist = 0#32 ∧ s'.nrFreefrag = s.nrFreefrag ∧ ∃ t j k, evictFrag s = .ok (.success, t) ∧
      s.place j k = some a ∧ t.place j k = none ∧ t.isFree a)

/-- The number on the free list is how many fragments are free. -/
theorem FreeList.count_of_free {fl fl' : List Phys} (list : FreeList s fl) (list' : FreeList s' fl')
    (free : ∀ b, s'.isFree b ↔ s.isFree b ∧ b ≠ a) :
    s'.nrFreefrag = if a ∈ fl then s.nrFreefrag - 1 else s.nrFreefrag := by
  have perm : fl'.Perm (fl.erase a) := by
    rw [List.perm_ext_iff_of_nodup list'.nodup (list.nodup.erase a)]
    intro b
    rw [list'.mem, free, list.nodup.mem_erase_iff, list.mem, and_comm]
  rw [list'.nrFreefrag, perm.length_eq, List.length_erase, list.nrFreefrag]

/-- Two passes of the retry loop are enough, and more make no difference. -/
theorem allocLoop_two (h : Inv nowhere s) {fuel : Nat} (enough : 2 ≤ fuel) : allocLoop fuel s = allocLoop 2 s := by
  obtain ⟨fuel, rfl⟩ : ∃ n, fuel = n + 2 := ⟨fuel - 2, by omega⟩
  by_cases empty : s.freefraglist = 0#32
  · obtain ⟨r, t, evict⟩ := evictFrag_returns h
    rcases evictFrag_spec h with ⟨_, stop⟩ | ⟨r', t', evict', h', out⟩
    · exact nomatch evict.symm.trans stop
    obtain ⟨rfl, rfl⟩ := Prod.mk.inj (Except.ok.inj (evict.symm.trans evict'))
    simp only [allocLoop, freefraglistGet_empty empty, evict, bind, Except.bind]
    rcases out with ⟨rfl, _⟩ | ⟨rfl, j, k, c, cell, _, view'⟩
    · rfl
    · obtain ⟨h₂, _⟩ := h'.congr (t := { t with nrEviction := u32 (t.nrEviction + 1) }) rfl rfl rfl rfl rfl rfl rfl
      obtain ⟨fl₂, list₂⟩ := h₂.shape.free
      have freed : t.isFree c.addr := by
        show t.view.free c.addr
        rw [view']
        exact Or.inr ⟨c, cell, rfl⟩
      have ne : t.freefraglist ≠ 0#32 := fun e => list₂.empty_iff.mp e c.addr freed
      obtain ⟨s₃, get, _⟩ := popFree_spec h₂ ne
      simp [get, ne]
  · obtain ⟨s', get, _⟩ := popFree_spec h empty
    simp [allocLoop, get, bind, Except.bind, empty]

theorem allocLoop_evicts (h : Inv nowhere s) (empty : s.freefraglist = 0#32) {t : Sce} {fuel : Nat} (enough : 2 ≤ fuel)
    (evict : evictFrag s = .ok (.success, t)) : ∃ s', allocLoop fuel s = .ok ((.success, t.freefraglist), s') ∧
      t.isFree (phys t.freefraglist) ∧ ∃ j k, s.place j k = some (phys t.freefraglist) ∧ t.place j k = none := by
  rcases evictFrag_spec h with ⟨_, stop⟩ | ⟨r', t', evict', h', out⟩
  · exact nomatch evict.symm.trans stop
  obtain ⟨rfl, rfl⟩ := Prod.mk.inj (Except.ok.inj (evict.symm.trans evict'))
  rcases out with ⟨e, _⟩ | ⟨_, j, k, c, cell, _, view'⟩
  · cases e
  obtain ⟨fl, list⟩ := h.shape.free
  have nothing := list.empty_iff.mp empty
  obtain ⟨h₂, _⟩ := h'.congr (t := { t with nrEviction := u32 (t.nrEviction + 1) }) rfl rfl rfl rfl rfl rfl rfl
  obtain ⟨fl₂, list₂⟩ := h₂.shape.free
  have freed : t.isFree c.addr := by
    show t.view.free c.addr
    rw [view']
    exact Or.inr ⟨c, cell, rfl⟩
  have ne : t.freefraglist ≠ 0#32 := fun e => list₂.empty_iff.mp e c.addr freed
  obtain ⟨s₃, get, _, _, free⟩ := popFree_spec h₂ ne
  have addr : c.addr = phys t.freefraglist := by
    have free : t.view.free (phys t.freefraglist) := free
    rw [view'] at free
    rcases free with old | ⟨c', cell', addr⟩
    · exact absurd old (nothing _)
    · obtain rfl := Option.some.inj (cell.symm.trans cell')
      exact addr
  refine ⟨s₃, ?_, free, j, k, ?_, ?_⟩
  · rw [allocLoop_two h enough]
    simp [allocLoop, freefraglistGet_empty empty, evict, get, ne, bind, Except.bind, pure, Except.pure]
  · rw [h.shape.place_eq_cell, cell, ← addr]
    rfl
  · rw [h'.shape.place_eq_cell, view', View.drop_cell, if_pos ⟨rfl, rfl⟩]
    rfl

theorem Sce.slot_of_unmapped {l : Lun} (lun : s.luntbl i = some l) (clear : isMapped (l.fragmap f) = false) :
    s.slot i f = none := by
  simp [Sce.slot, lun, clear]

theorem granted_of_view (h : Inv nowhere s) (h' : Inv nowhere s') {l : Volume} (free : s.view.available a)
    (view' : s'.view = s.view.place i f a l)
    (evicted : s.freefraglist = 0#32 → ∃ t j k, evictFrag s = .ok (.success, t) ∧ s.place j k = some a ∧
      t.place j k = none ∧ t.isFree a) : s.Granted s' i f a := by
  obtain ⟨fl, list⟩ := h.shape.free
  obtain ⟨fl', list'⟩ := h'.shape.free
  have frees : ∀ b, s'.isFree b ↔ s.isFree b ∧ b ≠ a := by
    intro b
    have same : s'.view.free b ↔ (s.view.place i f a l).free b := by rw [view']
    exact same.trans and_comm
  have count := list.count_of_free list' frees
  refine ⟨?_, ?_, frees, ?_⟩
  · have cell : s'.view.cell i f = some ⟨a, false, 1, View.tailBad l.nrSctr l.nrFrag f⟩ := by
      rw [view']
      show ((s.view.seize a).enter i f _).cell i f = _
      rw [View.enter_cell, if_pos ⟨rfl, rfl⟩]
    obtain ⟨m, slot, same⟩ := Option.map_eq_some_iff.mp (Sce.view_cell ▸ cell)
    simp only [Slot.cell, Cell.mk.injEq] at same
    exact ⟨m, slot, same.1, same.2.1, same.2.2.1⟩
  · intro j k ne
    rw [view']
    show ((s.view.seize a).enter i f _).cell j k = _
    rw [View.enter_cell, if_neg ne]
    rfl
  · by_cases empty : s.freefraglist = 0#32
    · have nothing := list.empty_iff.mp empty
      refine Or.inr ⟨empty, ?_, evicted empty⟩
      rw [count, if_neg fun member => nothing a ((list.mem a).mp member)]
    · have there : s.isFree a := by
        rcases free with free | ⟨nothing, _⟩
        · exact free
        · exact absurd (list.empty_iff.mpr nothing) empty
      refine Or.inl ⟨empty, there, ?_, ?_⟩
      · intro j k place
        exact h.shape.not_free place there
      · have member := (list.mem a).mpr there
        have pos := List.length_pos_of_mem member
        rw [count, if_pos member, list.nrFreefrag]
        omega

/-- An allocation ends after at most one eviction. It finds a fragment exactly when one is free or one can
be evicted, and maps this one; otherwise nothing changes. -/
theorem World.alloc4population_exact {w : World} {allow : World → Call → Prop}
    (reached : Reachable World.exec allow World.init w) {l : Lun} (lun : w.sce.luntbl i = some l) (inside : f < l.nrFrag)
    (clear : isMapped (l.fragmap f) = false) :
    (∀ fuel, 2 ≤ fuel → allocLoop fuel w.sce = allocLoop 2 w.sce) ∧
    ((∃ pfid s', alloc4population w.sce i f = .ok (some pfid, s')) ↔
      w.sce.freefraglist ≠ 0#32 ∨ ∃ t, evictFrag w.sce = .ok (.success, t)) ∧
    ((∃ s', alloc4population w.sce i f = .ok (none, s') ∧ w.sce.Refused s') ∨
      ∃ pfid s', alloc4population w.sce i f = .ok (some pfid, s') ∧ w.sce.Granted s' i f (phys pfid)) := by
  have h := (World.base_of_reachable reached).inv
  have empty := Sce.slot_of_unmapped lun clear
  have enough : 2 ≤ w.sce.nrFrag + 2 := by omega
  refine ⟨fun fuel two => allocLoop_two h two, ?_⟩
  rcases allocLoop_spec h enough with ⟨_, stop⟩ | ⟨s₁, loop, h₁, view₁⟩ | ⟨pfid, s₁, loop, h₁, view₁, free⟩
  · -- the loop does not stop the kernel: its eviction returns
    obtain ⟨r, t, evict⟩ := evictFrag_returns h
    by_cases none : w.sce.freefraglist = 0#32
    · cases r with
      | error =>
        rw [allocLoop_two h enough] at stop
        simp [allocLoop, freefraglistGet_empty none, evict, bind, Except.bind, pure, Except.pure] at stop
      | success =>
        obtain ⟨s', loop, _⟩ := allocLoop_evicts h none enough evict
        cases loop.symm.trans stop
    · obtain ⟨s', get, _⟩ := popFree_spec h none
      rw [allocLoop_two h enough] at stop
      simp [allocLoop, get, none, bind, Except.bind, pure, Except.pure] at stop
  · have run : alloc4population w.sce i f = .ok (none, s₁) := by
      simp [alloc4population, lun, Nat.not_le.mpr inside, loop, bind, Except.bind, pure, Except.pure]
    have none : w.sce.freefraglist = 0#32 := by
      by_contra some
      obtain ⟨s', get, _⟩ := popFree_spec h some
      rw [allocLoop_two h enough] at loop
      simp [allocLoop, get, some, bind, Except.bind, pure, Except.pure] at loop
    have fails : ∀ t, evictFrag w.sce ≠ .ok (.success, t) := by
      intro t evict
      obtain ⟨s', loop', _⟩ := allocLoop_evicts h none enough evict
      cases loop.symm.trans loop'
    refine ⟨iff_of_false ?_ ?_, Or.inl ⟨s₁, run, view₁, ?_, ?_⟩⟩
    · rintro ⟨pfid, s', run'⟩
      cases run.symm.trans run'
    · rintro (some | ⟨t, evict⟩)
      · exact some none
      · exact fails t evict
    · obtain ⟨fl, list⟩ := h.shape.free
      obtain ⟨fl₁, list₁⟩ := h₁.shape.free
      rw [none, list₁.empty_iff]
      intro b free
      have free : s₁.view.free b := free
      rw [view₁] at free
      exact list.empty_iff.mp none b free
    · obtain ⟨fl, list⟩ := h.shape.free
      obtain ⟨fl₁, list₁⟩ := h₁.shape.free
      have same : fl₁.Perm fl := by
        rw [List.perm_ext_iff_of_nodup list₁.nodup list.nodup]
        intro b
        have free : s₁.view.free b ↔ w.sce.view.free b := by rw [view₁]
        rw [list₁.mem, list.mem]
        exact free
      rw [list₁.nrFreefrag, list.nrFreefrag, same.length_eq]
  · obtain ⟨s', run, h', view'⟩ := alloc4population_granted lun inside empty loop h₁ view₁ free
    have taken : w.sce.freefraglist = 0#32 → ∃ t j k, evictFrag w.sce = .ok (.success, t) ∧
        w.sce.place j k = some (phys pfid) ∧ t.place j k = none ∧ t.isFree (phys pfid) := by
      intro none
      obtain ⟨r, t, evict⟩ := evictFrag_returns h
      cases r with
      | error =>
        rw [allocLoop_two h enough] at loop
        simp [allocLoop, freefraglistGet_empty none, evict, bind, Except.bind, pure, Except.pure] at loop
      | success =>
        obtain ⟨s₂, loop', freed, j, k, place, gone⟩ := allocLoop_evicts h none enough evict
        cases loop.symm.trans loop'
        exact ⟨t, j, k, evict, place, gone, freed⟩
    refine ⟨iff_of_true ⟨pfid, s', run⟩ ?_, Or.inr ⟨pfid, s', run, granted_of_view h h' free view' taken⟩⟩
    by_cases none : w.sce.freefraglist = 0#32
    · obtain ⟨t, _, _, evict, _⟩ := taken none
      exact Or.inr ⟨t, evict⟩
    · exact Or.inl none

/-- A device of one fragment, a LUN of two, and the first of them cached. -/
def World.halfCached : World :=
  (Util.execAll World.exec (fun w call => decide (w.Orderly call)) World.init
    [.addcdev 2048 7 true, .addlun 4096 9 true, .get4read 0 0 8, .get4pop fun _ _ => 0#32, .put4pop 3 false]).getD
    World.init

theorem World.halfCached_reachable : Reachable World.exec World.Orderly World.init World.halfCached :=
  Util.reachable_getD (fun _ _ ok => of_decide_eq_true ok) (by decide +kernel)

theorem World.alloc4population_halfCached :
    (∀ fuel, 2 ≤ fuel → allocLoop fuel halfCached.sce = allocLoop 2 halfCached.sce) ∧
    ((∃ pfid s', alloc4population halfCached.sce 0 1 = .ok (some pfid, s')) ↔
      halfCached.sce.freefraglist ≠ 0#32 ∨ ∃ t, evictFrag halfCached.sce = .ok (.success, t)) ∧
    ((∃ s', alloc4population halfCached.sce 0 1 = .ok (none, s') ∧ halfCached.sce.Refused s') ∨
      ∃ pfid s', alloc4population halfCached.sce 0 1 = .ok (some pfid, s') ∧
      halfCached.sce.Granted s' 0 1 (phys pfid)) := by
  have there : (halfCached.sce.luntbl 0).map (fun l => (l.nrFrag, isMapped (l.fragmap 1))) = some (2, false) := by
    decide +kernel
  obtain ⟨l, lun, facts⟩ := Option.map_eq_some_iff.mp there
  obtain ⟨size, clear⟩ := Prod.mk.inj facts
  exact alloc4population_exact halfCached_reachable lun (by rw [size]; decide) clear

end Iostash
