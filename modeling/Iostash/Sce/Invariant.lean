import Iostash.Sce.View

/-!
# The engine invariant

What holds before and after every call, and how the elementary updates of a call act on the
abstract cache.
-/

namespace Iostash

open Util

/-- `out` are the fragments a call has in hand: neither free nor mapped nor in use. -/
structure Inv (out : Phys → Prop) (s : Sce) : Prop where
  shape : Shape s
  pages : ∀ i f m, s.slot i f = some m → m.frag.bitmap.length = bitmapArraySize ∧
    m.frag.nrValid = clearCount (bitmapBit m.frag.bitmap) 0 scePagePerFrag
  kept : ∀ a g, s.frag? a = some g → g.fragnum ≠ fragnumWithinFreeList →
    out a ∨ (∃ i f, s.place i f = some a) ∨ 0 < g.nrService

/-- Between calls nothing is in hand. -/
abbrev nowhere : Phys → Prop := fun _ => False

variable {s s' : Sce} {a b : Phys} {φ : Frag → Frag} {ψ : Lun → Lun} {i j f k : Nat} {w : Word} {m : Slot}
  {out : Phys → Prop}

/-- A call that stops at the `BUG_ON` of the free list, which takes a wrapped `nr_frag`. -/
def Stops {α : Type} (s : Sce) (x : Except Fault α) : Prop := ¬ Roomy s.dev ∧ x = .error .bugOn

theorem Stops.of_view {α β : Type} {x : Except Fault α} {y : Except Fault β} {s₁ : Sce} {v : View} (h : Stops s₁ x)
    (view : s₁.view = v) (dev : v.dev = s.dev) (same : x = .error .bugOn → y = .error .bugOn) : Stops s y := by
  refine ⟨?_, same h.2⟩
  rw [← dev, ← view]
  exact h.1

/-! ### Slots and places -/

theorem Shape.slot_of_place (h : Shape s) (here : s.place i f = some a) :
    ∃ m, s.slot i f = some m ∧ m.addr = a := by
  obtain ⟨g, frag, _⟩ := Sce.node_eq_some.mp (h.mapped _ _ _ here)
  obtain ⟨l, lun, inside, mapped, rfl⟩ := Sce.place_eq_some.mp here
  exact ⟨⟨_, isValid (l.fragmap f), g⟩, Sce.slot_eq_some.mpr ⟨l, lun, inside, mapped, rfl, rfl, frag⟩, rfl⟩

theorem Shape.slot_none_iff (h : Shape s) : s.slot i f = none ↔ s.place i f = none := by
  constructor
  · intro none
    cases here : s.place i f with
    | none => rfl
    | some a =>
      obtain ⟨m, slot, _⟩ := h.slot_of_place here
      rw [none] at slot
      cases slot
  · intro none
    cases slot : s.slot i f with
    | none => rfl
    | some m =>
      rw [Sce.place_of_slot slot] at none
      cases none

theorem Shape.unmapped (h : Shape s) {l : Lun} (lun : s.luntbl i = some l) (inside : f < l.nrFrag)
    (none : s.slot i f = none) : isMapped (l.fragmap f) = false := by
  by_contra mapped
  have there := Sce.place_eq_some.mpr ⟨l, lun, inside, by simpa using mapped, rfl⟩
  rw [h.slot_none_iff.mp none] at there
  cases there

theorem Shape.slot_of_mapped (h : Shape s) {l : Lun} (lun : s.luntbl i = some l) (inside : f < l.nrFrag)
    (mapped : isMapped (l.fragmap f) = true) : ∃ m, s.slot i f = some m := by
  by_contra none
  have clear := h.unmapped lun inside (Option.eq_none_iff_forall_ne_some.mpr fun m e => none ⟨m, e⟩)
  rw [mapped] at clear
  cases clear

theorem Shape.node_of_slot (h : Shape s) (slot : s.slot i f = some m) : m.frag.node = ⟨i, f, 0#32⟩ := by
  have mapped := h.mapped _ _ _ (Sce.place_of_slot slot)
  rw [Sce.node_of_frag (Sce.frag_of_slot slot)] at mapped
  exact Option.some.inj mapped

theorem Shape.slot_inj (h : Shape s) {m' : Slot} (slot : s.slot i f = some m) (slot' : s.slot j k = some m')
    (same : m'.addr = m.addr) : j = i ∧ k = f :=
  h.place_inj (Sce.place_of_slot slot) (same ▸ Sce.place_of_slot slot')

theorem Inv.spent_iff (h : Inv out s) (slot : s.slot i f = some m) : m.frag.nrValid = 0 ↔ m.cell.spent = true := by
  obtain ⟨_, count⟩ := h.pages _ _ _ slot
  rw [count, clearCount_eq_zero, Cell.spent, List.all_eq_true]
  simp only [List.mem_range, Slot.cell]
  exact ⟨fun all p lt => all p (Nat.zero_le p) (by simpa using lt), fun all p _ lt => all p (by simpa using lt)⟩

/-! ### Elementary updates -/

theorem Sce.view_congr (dev : s'.dev = s.dev)
    (lun : ∀ j, (s'.luntbl j).map Lun.volume = (s.luntbl j).map Lun.volume)
    (slot : ∀ j k, (s'.slot j k).map Slot.cell = (s.slot j k).map Slot.cell)
    (free : ∀ b, s'.isFree b ↔ s.isFree b) : s'.view = s.view :=
  View.ext_fields dev (funext lun) (funext fun j => funext fun k => slot j k) free

theorem Inv.modifyFrag (h : Inv out s) (slot : s.slot i f = some m) (node : (φ m.frag).node = m.frag.node)
    (pages : (φ m.frag).bitmap.length = bitmapArraySize ∧
      (φ m.frag).nrValid = clearCount (bitmapBit (φ m.frag).bitmap) 0 scePagePerFrag) :
    Inv out (s.modifyFrag m.addr φ) := by
  have frag := Sce.frag_of_slot slot
  refine ⟨h.shape.modifyFrag ?_, ?_, ?_⟩
  · intro g here
    obtain rfl := Option.some.inj (frag.symm.trans here)
    exact node
  · intro j k m' slot'
    rw [Sce.slot_modifyFrag] at slot'
    obtain ⟨m₀, slot₀, rfl⟩ := Option.map_eq_some_iff.mp slot'
    split
    · rename_i e
      obtain ⟨rfl, rfl⟩ := h.shape.slot_inj slot slot₀ e
      obtain rfl := Option.some.inj (slot.symm.trans slot₀)
      exact pages
    · exact h.pages _ _ _ slot₀
  · intro b g here off
    rw [Sce.modifyFrag_frag?] at here
    split at here
    · rename_i e
      subst e
      have place : s.place i f = some m.addr := Sce.place_of_slot slot
      exact Or.inr (Or.inl ⟨i, f, place⟩)
    · exact h.kept b g here off

theorem Shape.view_modifyFrag (h : Shape s) (slot : s.slot i f = some m)
    (node : (φ m.frag).node = m.frag.node) : (s.modifyFrag m.addr φ).view =
    s.view.setCell i f fun _ => Slot.cell ⟨m.addr, m.valid, φ m.frag⟩ := by
  have frag := Sce.frag_of_slot slot
  have nodes : (s.modifyFrag m.addr φ).node = s.node := Sce.modifyFrag_node fun g here => by
    obtain rfl := Option.some.inj (frag.symm.trans here)
    exact node
  refine View.ext_fields Sce.modifyFrag_dev rfl ?_ ?_
  · funext j k
    show ((s.modifyFrag m.addr φ).slot j k).map Slot.cell = _
    rw [Sce.slot_modifyFrag, View.setCell_cell]
    show _ = if j = i ∧ k = f then ((s.slot j k).map Slot.cell).map _ else (s.slot j k).map Slot.cell
    by_cases here : j = i ∧ k = f
    · obtain ⟨rfl, rfl⟩ := here
      simp [slot]
    · rw [if_neg here]
      cases slot' : s.slot j k with
      | none => rfl
      | some m' =>
        have ne : m'.addr ≠ m.addr := fun e => here (h.slot_inj slot slot' e)
        simp [ne]
  · intro b
    show (s.modifyFrag m.addr φ).isFree b ↔ s.isFree b
    unfold Sce.isFree
    rw [nodes]

theorem Inv.modifyLun (h : Inv out s) (sctrs : ∀ l, s.luntbl i = some l → (ψ l).nrSctr = l.nrSctr)
    (size : ∀ l, s.luntbl i = some l → (ψ l).nrFrag = l.nrFrag)
    (map : ∀ l, s.luntbl i = some l → (ψ l).fragmap = l.fragmap) : Inv out (s.modifyLun i ψ) := by
  refine ⟨h.shape.modifyLun sctrs size map, ?_, ?_⟩
  · intro j k m slot
    rw [Sce.slot_modifyLun size map] at slot
    exact h.pages j k m slot
  · rw [Sce.modifyLun_place size map]
    exact h.kept

theorem Sce.view_modifyLun {χ : Volume → Volume} (size : ∀ l, s.luntbl i = some l → (ψ l).nrFrag = l.nrFrag)
    (map : ∀ l, s.luntbl i = some l → (ψ l).fragmap = l.fragmap)
    (vol : ∀ l, s.luntbl i = some l → (ψ l).volume = χ l.volume) :
    (s.modifyLun i ψ).view = s.view.setLun i χ := by
  refine View.ext_fields rfl ?_ ?_ fun _ => Iff.rfl
  · funext j
    show ((s.modifyLun i ψ).luntbl j).map Lun.volume = _
    rw [Sce.modifyLun_luntbl, View.setLun_lun]
    show _ = if j = i then ((s.luntbl j).map Lun.volume).map χ else (s.luntbl j).map Lun.volume
    split
    · rename_i e
      subst e
      cases lun : s.luntbl j with
      | none => rfl
      | some l => simp [vol l lun]
    · rfl
  · funext j k
    show ((s.modifyLun i ψ).slot j k).map Slot.cell = (s.slot j k).map Slot.cell
    rw [Sce.slot_modifyLun size map]

theorem Sce.view_modifyLun_same (size : ∀ l, s.luntbl i = some l → (ψ l).nrFrag = l.nrFrag)
    (map : ∀ l, s.luntbl i = some l → (ψ l).fragmap = l.fragmap)
    (vol : ∀ l, s.luntbl i = some l → (ψ l).volume = l.volume) : (s.modifyLun i ψ).view = s.view := by
  rw [Sce.view_modifyLun (χ := id) size map vol]
  refine View.ext_fields rfl ?_ rfl fun _ => Iff.rfl
  funext j
  rw [View.setLun_lun]
  split <;> simp

theorem Inv.setDesc_unmapped (h : Inv out s) (unmapped : s.place i k = none) (clear : isMapped w = false) :
    Inv out (s.setDesc i k w) ∧ (s.setDesc i k w).view = s.view := by
  have place : (s.setDesc i k w).place i k = s.place i k := by
    rw [unmapped, Sce.setDesc_place_unmapped clear]
  have places : ∀ j f, (s.setDesc i k w).place j f = s.place j f := by
    intro j f
    by_cases here : j = i ∧ f = k
    · obtain ⟨rfl, rfl⟩ := here
      exact place
    · exact Sce.setDesc_place_ne here
  have slots : ∀ j f, (s.setDesc i k w).slot j f = s.slot j f := by
    intro j f
    by_cases here : j = i ∧ f = k
    · obtain ⟨rfl, rfl⟩ := here
      rw [Sce.slot_setDesc_unmapped clear, h.shape.slot_none_iff.mpr unmapped]
    · exact Sce.slot_setDesc_ne here
  refine ⟨⟨h.shape.setDesc place, ?_, ?_⟩, ?_⟩
  · intro j f m slot
    rw [slots] at slot
    exact h.pages j f m slot
  · intro a g frag off
    simp only [places]
    exact h.kept a g frag off
  · refine Sce.view_congr rfl ?_ (fun j f => by rw [slots]) fun _ => Iff.rfl
    intro j
    unfold Sce.setDesc
    rw [Sce.modifyLun_luntbl]
    split
    · cases s.luntbl j <;> rfl
    · rfl

theorem Inv.setDesc_valid (h : Inv out s) {l : Lun} (lun : s.luntbl i = some l) (slot : s.slot i k = some m) :
    Inv out (s.setDesc i k (l.fragmap k ||| fragdescValid)) ∧
      (s.setDesc i k (l.fragmap k ||| fragdescValid)).slot i k = some { m with valid := true } ∧
      (s.setDesc i k (l.fragmap k ||| fragdescValid)).view =
        s.view.setCell i k fun c => { c with valid := true } := by
  obtain ⟨l', lun', inside, mapped, addr, _, frag⟩ := Sce.slot_eq_some.mp slot
  obtain rfl := Option.some.inj (lun.symm.trans lun')
  have place : (s.setDesc i k (l.fragmap k ||| fragdescValid)).place i k = s.place i k := by
    rw [Sce.setDesc_place_self lun inside, Sce.place_of_slot slot]
    simp [mapped, addr]
  have places : ∀ j f, (s.setDesc i k (l.fragmap k ||| fragdescValid)).place j f = s.place j f := by
    intro j f
    by_cases here : j = i ∧ f = k
    · obtain ⟨rfl, rfl⟩ := here
      exact place
    · exact Sce.setDesc_place_ne here
  have self : (s.setDesc i k (l.fragmap k ||| fragdescValid)).slot i k = some { m with valid := true } := by
    refine Sce.slot_eq_some.mpr
      ⟨{ l with fragmap := fun f => if f = k then l.fragmap k ||| fragdescValid else l.fragmap f },
        by simp [Sce.setDesc, lun], inside, by simp [mapped], by simp [addr], by simp, ?_⟩
    rw [Sce.setDesc_frag?]
    exact frag
  refine ⟨⟨h.shape.setDesc place, ?_, ?_⟩, self, ?_⟩
  · intro j f m' slot'
    by_cases here : j = i ∧ f = k
    · obtain ⟨rfl, rfl⟩ := here
      rw [self] at slot'
      obtain rfl := Option.some.inj slot'
      exact h.pages _ _ m slot
    · rw [Sce.slot_setDesc_ne here] at slot'
      exact h.pages _ _ _ slot'
  · intro a g frag off
    simp only [places]
    exact h.kept a g frag off
  · refine View.ext_fields rfl ?_ ?_ fun _ => Iff.rfl
    · funext j
      show ((s.setDesc i k _).luntbl j).map Lun.volume = (s.luntbl j).map Lun.volume
      unfold Sce.setDesc
      rw [Sce.modifyLun_luntbl]
      split
      · cases s.luntbl j <;> rfl
      · rfl
    · funext j f
      show ((s.setDesc i k _).slot j f).map Slot.cell = _
      rw [View.setCell_cell]
      show _ = if j = i ∧ f = k then ((s.slot j f).map Slot.cell).map _ else (s.slot j f).map Slot.cell
      by_cases here : j = i ∧ f = k
      · obtain ⟨rfl, rfl⟩ := here
        rw [self, slot]
        simp [Slot.cell]
      · rw [Sce.slot_setDesc_ne here, if_neg here]

theorem Inv.congr {t : Sce} (h : Inv out s) (cdevtbl : t.cdevtbl = s.cdevtbl) (luntbl : t.luntbl = s.luntbl)
    (nrCdev : t.nrCdev = s.nrCdev) (nrLun : t.nrLun = s.nrLun) (nrFrag : t.nrFrag = s.nrFrag)
    (head : t.freefraglist = s.freefraglist) (count : t.nrFreefrag = s.nrFreefrag) :
    Inv out t ∧ t.view = s.view := by
  have frag : t.frag? = s.frag? := by funext a; simp [Sce.frag?, cdevtbl]
  have node : t.node = s.node := by funext a; simp [Sce.node, frag]
  have dev : t.dev = s.dev := by funext d; simp [Sce.dev, cdevtbl]
  have place : t.place = s.place := by funext i f; simp [Sce.place, luntbl]
  have slot : t.slot = s.slot := by funext i f; simp [Sce.slot, luntbl, frag]
  have extent : t.extent = s.extent := by funext i; simp [Sce.extent, luntbl]
  refine ⟨⟨h.shape.congr dev extent place node nrCdev nrLun nrFrag head count, ?_, ?_⟩, ?_⟩
  · rw [slot]; exact h.pages
  · rw [frag, place]; exact h.kept
  · exact Sce.view_congr dev (fun j => by rw [luntbl]) (fun j k => by rw [slot])
      fun b => by unfold Sce.isFree; rw [node]

end Iostash
