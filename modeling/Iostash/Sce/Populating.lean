import Iostash.Sce.Allocation

/-!
# Populations

`sce_get4pop` maps a fragment that is not valid yet; `sce_put4pop` makes it valid or unmaps it.
-/

namespace Iostash

open Util

variable {s : Sce} {v : View} {c : Cell} {i f j k : Nat} {a : Phys} {m : Slot} {w pfid : Word}

/-! ### The pages of a new mapping -/

theorem fragInit_pages : fragInit.bitmap.length = bitmapArraySize ∧
    fragInit.nrValid = clearCount (bitmapBit fragInit.bitmap) 0 scePagePerFrag := by
  refine ⟨by simp [fragInit, Frag.zero], ?_⟩
  have clear : bitmapBit Frag.zero.bitmap = fun _ => false := funext bitmapBit_zero
  simp [clear, clearCount, fragInit]

/-- The fragment starts with the pages invalid that do not lie inside the LUN. -/
theorem mapFragInit_spec {l : Lun} (pos : 0 < l.nrFrag)
    (size : l.nrFrag = u32 ((l.nrSctr + (sceSctrPerFrag - 1)) / sceSctrPerFrag)) :
    ∃ g, mapFragInit l f = .ok g ∧ g.nrService = 0 ∧ g.next = 0#32 ∧ g.bitmap.length = bitmapArraySize ∧
      g.nrValid = clearCount (bitmapBit g.bitmap) 0 scePagePerFrag ∧
      bitmapBit g.bitmap = View.tailBad l.nrSctr l.nrFrag f := by
  obtain ⟨len, count⟩ := fragInit_pages
  simp only [sceSctrPerFrag] at size
  by_cases tail : f = l.nrFrag - 1 ∧ l.nrSctr < u32 (l.nrFrag * sceSctrPerFrag)
  · obtain ⟨last, short⟩ := tail
    have short' := short
    simp only [sceSctrPerFrag] at short'
    have small : l.nrSctr < 2 ^ 32 := lt_trans short' (u32_lt _)
    have frags : l.nrFrag = (l.nrSctr + 2047) / 2048 := by
      rw [size]
      exact u32_of_lt (by omega)
    have exact_size : u32 (l.nrFrag * 2048) = l.nrFrag * 2048 := by
      have le : l.nrFrag * 2048 ≤ 2 ^ 32 := by omega
      rcases Nat.lt_or_ge (l.nrFrag * 2048) (2 ^ 32) with lt | ge
      · exact u32_of_lt lt
      · rw [show l.nrFrag * 2048 = 2 ^ 32 by omega] at short'
        exact absurd short' (by simp [u32])
    obtain ⟨pagecnt, hp⟩ : ∃ pagecnt, pagecnt = (l.nrFrag * 2048 - l.nrSctr + 7) / 8 := ⟨_, rfl⟩
    have cnt : u32 (l.nrFrag * 2048 - l.nrSctr + 8 - 1) / 8 = pagecnt := by
      rw [u32_of_lt (by omega), hp]
      rfl
    have num : sub32 256 pagecnt = 256 - pagecnt := sub32_of_le (by omega) (by decide)
    have pos : 0 < pagecnt := by omega
    have fits : 256 - pagecnt + pagecnt ≤ scePagePerFrag := by simp only [scePagePerFrag]; omega
    obtain ⟨g, nr, inval, node, service, len', count', bits⟩ := fragInvalidate_spec (g := fragInit) len count pos fits
    refine ⟨g, ?_, service, congrArg Node.next node, len', count', ?_⟩
    · simp only [mapFragInit, if_pos (And.intro last short)]
      simp only [sceSctrPerFrag, sceSctrPerPage, scePagePerFrag, exact_size, cnt, num, inval, bind, Except.bind]
      rfl
    · funext q
      rw [bits, show bitmapBit fragInit.bitmap q = false from bitmapBit_zero q, Bool.false_or, Bool.eq_iff_iff]
      simp only [View.tailBad, scePagePerFrag, sceSctrPerPage, sceSctrPerFrag, exact_size, last, Bool.and_eq_true,
        decide_eq_true_eq]
      rw [and_true]
      omega
  · refine ⟨fragInit, ?_, rfl, rfl, len, count, ?_⟩
    · simp only [mapFragInit, if_neg tail]
      rfl
    · funext q
      rw [show bitmapBit fragInit.bitmap q = false from bitmapBit_zero q, eq_comm, ← Bool.not_eq_true]
      intro bad
      simp only [View.tailBad, Bool.and_eq_true, decide_eq_true_eq] at bad
      obtain ⟨⟨lt, last⟩, past⟩ := bad
      exact tail ⟨last, by omega⟩

/-! ### `_map_frag` -/

/-- A node off the list may change, if it stays off. -/
theorem FreeList.frame {s' : Sce} {fl : List Phys} (list : FreeList s fl) (off : ¬ s.isFree a) (off' : ¬ s'.isFree a)
    (node : ∀ b, b ≠ a → s'.node b = s.node b) (head : s'.freefraglist = s.freefraglist)
    (count : s'.nrFreefrag = s.nrFreefrag) : FreeList s' fl := by
  refine ⟨?_, list.nodup, by rw [count, list.nrFreefrag], ?_⟩
  · rw [head]
    refine list.chain.frame fun b member => ?_
    have ne : b ≠ a := by
      rintro rfl
      exact off ((list.mem b).mp member)
    simp only [Sce.nextWord, node b ne]
  · intro b
    rw [list.mem]
    by_cases e : b = a
    · subst e
      exact ⟨fun free => absurd free off, fun free => absurd free off'⟩
    · simp only [Sce.isFree, node b e]

theorem mapFrag_spec (h : Inv (fun b => b = phys pfid) s) {l : Lun} (lun : s.luntbl i = some l)
    (inside : f < l.nrFrag) (empty : s.slot i f = none) {g₀ : Frag} (frag : s.frag? (phys pfid) = some g₀)
    (apart : ∀ j k c, s.view.cell j k = some c → c.addr ≠ phys pfid) (taken : ¬ s.isFree (phys pfid)) :
    ∃ s' m, mapFrag s i f pfid = .ok (.success, s') ∧ Inv nowhere s' ∧ s'.luntbl i ≠ none ∧
      s'.slot i f = some m ∧ m.addr = phys pfid ∧ m.frag.nrService = 0 ∧
      s'.view = s.view.enter i f ⟨phys pfid, false, 0, View.tailBad l.nrSctr l.nrFrag f⟩ := by
  obtain ⟨_, pos, _, size⟩ := h.shape.luns.bounds i _ _ (Sce.extent_eq_some.mpr ⟨l, lun, rfl, rfl⟩)
  obtain ⟨g, init, service, next, len, count, bits⟩ := mapFragInit_spec (f := f) pos size
  have clear := h.shape.unmapped lun inside empty
  have place := h.shape.slot_none_iff.mp empty
  have valid : s.isvalidpfid pfid = true := Sce.isvalidpfid_iff.mpr (by rw [frag]; rfl)
  have bound := h.shape.nrFrag_lt lun
  have apart' : ∀ j k b, s.place j k = some b → b ≠ phys pfid := by
    intro j k b there
    obtain ⟨m, slot, rfl⟩ := h.shape.slot_of_place there
    exact apart j k _ (Sce.view_cell_some slot)
  obtain ⟨φ, hφ⟩ : ∃ φ : Frag → Frag, φ = fun _ => { g with lunidx := i, fragnum := f } := ⟨_, rfl⟩
  obtain ⟨w, hw⟩ : ∃ w, w = fragdescMapped ||| (pfid &&& fragdescDatamask) := ⟨_, rfl⟩
  have mapped : isMapped w = true := by rw [hw]; exact isMapped_new _
  have invalid : isValid w = false := by rw [hw]; exact isValid_new _
  have addr : phys w = phys pfid := by rw [hw]; exact phys_new _
  obtain ⟨s', hs'⟩ : ∃ s', s' = (s.modifyFrag (phys pfid) φ).setDesc i f w := ⟨_, rfl⟩
  have frags : ∀ b, s'.frag? b =
      if b = phys pfid then (some { g with lunidx := i, fragnum := f } : Option Frag) else s.frag? b := by
    intro b
    rw [hs', Sce.setDesc_frag?, Sce.modifyFrag_frag?]
    split
    · rename_i e
      rw [e, frag, hφ]
      rfl
    · rfl
  have node : ∀ b, s'.node b = if b = phys pfid then (some ⟨i, f, 0#32⟩ : Option Node) else s.node b := by
    intro b
    unfold Sce.node
    rw [frags]
    split
    · simp [Frag.node, next]
    · rfl
  have places : ∀ j k, s'.place j k = if j = i ∧ k = f then some (phys pfid) else s.place j k := by
    intro j k
    split
    · rename_i e
      obtain ⟨rfl, rfl⟩ := e
      rw [hs', Sce.setDesc_place_self (s := s.modifyFrag _ φ) lun inside, if_pos mapped, addr]
    · rename_i e
      rw [hs', Sce.setDesc_place_ne e]
      rfl
  have self : s'.slot i f = some ⟨phys pfid, false, { g with lunidx := i, fragnum := f }⟩ := by
    refine Sce.slot_eq_some.mpr ⟨{ l with fragmap := fun k => if k = f then w else l.fragmap k }, ?_, inside, ?_, ?_,
      ?_, ?_⟩
    · simp [hs', Sce.setDesc, lun]
    · simp [mapped]
    · simp [addr]
    · simp [invalid]
    · simp [frags]
  have others : ∀ j k, ¬ (j = i ∧ k = f) → s'.slot j k = s.slot j k := by
    intro j k ne
    rw [hs', Sce.slot_setDesc_ne ne, Sce.slot_modifyFrag]
    cases slot : s.slot j k with
    | none => rfl
    | some m =>
      have off := apart' j k _ (Sce.place_of_slot slot)
      simp [off]
  have frees : ∀ b, s'.isFree b ↔ s.isFree b := by
    intro b
    by_cases e : b = phys pfid
    · subst e
      refine iff_of_false ?_ taken
      rintro ⟨n, here, within⟩
      rw [node, if_pos rfl] at here
      obtain rfl := Option.some.inj here
      simp only [fragnumWithinFreeList] at within
      omega
    · simp only [Sce.isFree, node, if_neg e]
  have volumes : ∀ j, (s'.luntbl j).map Lun.volume = (s.luntbl j).map Lun.volume := by
    intro j
    rw [hs', Sce.setDesc, Sce.modifyLun_luntbl]
    split
    · rw [Sce.modifyFrag_luntbl]
      cases s.luntbl j <;> rfl
    · rfl
  refine ⟨s', _, ?_, ⟨⟨?_, ?_, ?_, ?_⟩, ?_, ?_⟩, ?_, self, rfl, service, ?_⟩
  · simp only [mapFrag, lun, if_neg (Nat.not_le.mpr inside), valid, clear, Sce.pfid2frag, frag, init, bind,
      Except.bind, pure, Except.pure, hs', hφ, hw]
    rfl
  · rw [hs']
    exact h.shape.devices.congr Sce.modifyFrag_dev rfl rfl
  · rw [hs']
    exact h.shape.luns.congr Sce.setDesc_extent rfl
  · intro j k b there
    rw [places] at there
    rw [node]
    split at there
    · rename_i e
      obtain ⟨rfl, rfl⟩ := e
      rw [if_pos (Option.some.inj there).symm]
    · rw [if_neg (apart' j k b there)]
      exact h.shape.mapped j k b there
  · obtain ⟨fl, list⟩ := h.shape.free
    refine ⟨fl, list.frame taken ?_ (fun b ne => by rw [node, if_neg ne]) (by rw [hs']; rfl) (by rw [hs']; rfl)⟩
    rw [frees]
    exact taken
  · intro j k m slot
    by_cases e : j = i ∧ k = f
    · obtain ⟨rfl, rfl⟩ := e
      rw [self] at slot
      obtain rfl := Option.some.inj slot
      exact ⟨len, count⟩
    · rw [others j k e] at slot
      exact h.pages j k m slot
  · intro b g' there off
    rw [frags] at there
    split at there
    · rename_i e
      exact Or.inr (Or.inl ⟨i, f, by rw [places, if_pos ⟨rfl, rfl⟩, e]⟩)
    · rename_i ne
      rcases h.kept b g' there off with hand | ⟨j, k, there⟩ | busy
      · exact absurd hand ne
      · refine Or.inr (Or.inl ⟨j, k, ?_⟩)
        rw [places, if_neg]
        · exact there
        · rintro ⟨rfl, rfl⟩
          rw [place] at there
          cases there
      · exact Or.inr (Or.inr busy)
  · intro gone
    have volume := volumes i
    rw [gone, lun] at volume
    cases volume
  · refine View.ext_fields (by rw [hs']; exact Sce.modifyFrag_dev) (funext volumes) ?_ frees
    funext j k
    show (s'.slot j k).map Slot.cell = if j = i ∧ k = f then _ else (s.slot j k).map Slot.cell
    split
    · rename_i e
      obtain ⟨rfl, rfl⟩ := e
      rw [self]
      simp [Slot.cell, service, bits]
    · rename_i e
      rw [others j k e]

/-! ### `_alloc4population` -/

theorem Sce.frag_of_free (free : s.view.free a) : ∃ g, s.frag? a = some g := by
  obtain ⟨n, node, _⟩ := free
  obtain ⟨g, frag, _⟩ := Sce.node_eq_some.mp node
  exact ⟨g, frag⟩

theorem Sce.frag_of_available (free : s.view.available a) : ∃ g, s.frag? a = some g := by
  rcases free with free | ⟨_, j, k, c, cell, _, rfl⟩
  · exact Sce.frag_of_free free
  · obtain ⟨m, slot, rfl⟩ := Option.map_eq_some_iff.mp (Sce.view_cell ▸ cell)
    exact ⟨m.frag, Sce.frag_of_slot slot⟩

theorem Sce.frag_of_dev {s' : Sce} (dev : s'.dev = s.dev) {g : Frag} (frag : s.frag? a = some g) :
    ∃ g', s'.frag? a = some g' := by
  have present := Sce.frag?_isSome.mp (Option.isSome_of_eq_some frag)
  rw [← dev] at present
  exact Option.isSome_iff_exists.mp (Sce.frag?_isSome.mpr present)

theorem alloc4population_granted {l : Lun} {s₁ : Sce} (lun : s.luntbl i = some l) (inside : f < l.nrFrag)
    (empty : s.slot i f = none) (alloc : allocLoop (s.nrFrag + 2) s = .ok ((.success, pfid), s₁))
    (h₁ : Inv (fun b => b = phys pfid) s₁) (view₁ : s₁.view = s.view.seize (phys pfid))
    (free : s.view.available (phys pfid)) : ∃ s', alloc4population s i f = .ok (some pfid, s') ∧ Inv nowhere s' ∧
      s'.view = s.view.place i f (phys pfid) l.volume := by
  have volume : s.view.lun i = some l.volume := by rw [Sce.view_lun, lun]; rfl
  obtain ⟨g₀, frag₀⟩ := Sce.frag_of_available free
  obtain ⟨g₁, frag₁⟩ := Sce.frag_of_dev (show s₁.dev = s.dev from congrArg View.dev view₁) frag₀
  have volume₁ : s₁.view.lun i = some l.volume := by rw [view₁]; exact volume
  obtain ⟨l₁, lun₁, same⟩ := Option.map_eq_some_iff.mp (Sce.view_lun ▸ volume₁)
  have size : l₁.nrFrag = l.nrFrag := congrArg Volume.nrFrag same
  have sctrs : l₁.nrSctr = l.nrSctr := congrArg Volume.nrSctr same
  have empty₁ : s₁.slot i f = none := by
    have cell : s₁.view.cell i f = none := by
      rw [view₁]
      show (s.view.cell i f).filter _ = none
      rw [Sce.view_cell, empty]
      rfl
    rw [Sce.view_cell] at cell
    exact Option.map_eq_none_iff.mp cell
  obtain ⟨s₂, m, map, h₂, _, slot₂, addr, idle, view₂⟩ := mapFrag_spec h₁ lun₁ (by rw [size]; exact inside)
    empty₁ frag₁ (by
      intro j k c cell e
      rw [view₁] at cell
      obtain ⟨_, ne⟩ := Option.filter_eq_some_iff.mp cell
      exact absurd e (of_decide_eq_true ne)) (by
      intro free₁
      have : s₁.view.free (phys pfid) := free₁
      rw [view₁] at this
      exact this.1 rfl)
  obtain ⟨ψ, hψ⟩ : ∃ ψ : Lun → Lun, ψ = fun l => { l with nrService := u32 (l.nrService + 1) } := ⟨_, rfl⟩
  obtain ⟨φ, hφ⟩ : ∃ φ : Frag → Frag, φ = fun g => { g with nrService := u16 (g.nrService + 1) } := ⟨_, rfl⟩
  have h₃ : Inv nowhere (s₂.modifyLun i ψ) := h₂.modifyLun (by simp [hψ]) (by simp [hψ]) (by simp [hψ])
  have view₃ : (s₂.modifyLun i ψ).view = s₂.view.setLun i fun l => { l with service := u32 (l.service + 1) } :=
    Sce.view_modifyLun (by simp [hψ]) (by simp [hψ]) (by simp [hψ, Lun.volume])
  have slot₃ : (s₂.modifyLun i ψ).slot i f = some m := by
    rw [Sce.slot_modifyLun (by simp [hψ]) (by simp [hψ]), slot₂]
  have h₄ := h₃.modifyFrag (φ := φ) slot₃ (by simp [hφ, Frag.node]) (by simpa [hφ] using h₃.pages _ _ _ slot₃)
  have view₄ := h₃.shape.view_modifyFrag (φ := φ) slot₃ (by simp [hφ, Frag.node])
  have cell₂ : s₂.view.cell i f = some m.cell := Sce.view_cell_some slot₂
  refine ⟨(s₂.modifyLun i ψ).modifyFrag (phys pfid) φ, ?_, addr ▸ h₄, ?_⟩
  · have there : s₂.frag? (phys pfid) = some m.frag := addr ▸ Sce.frag_of_slot slot₂
    simp [alloc4population, lun, Nat.not_le.mpr inside, alloc, map, ← hψ, ← hφ, Sce.pfid2frag, there, bind,
      Except.bind, pure, Except.pure]
  · rw [← addr, view₄, view₃, view₂, View.place, size, sctrs]
    rw [view₂, View.enter_cell, if_pos ⟨rfl, rfl⟩] at cell₂
    have cellm := Option.some.inj cell₂
    refine View.ext_fields ?_ ?_ ?_ ?_
    · rw [view₁]; rfl
    · rw [view₁]; rfl
    · funext j k
      simp only [View.setCell_cell, View.setLun_cell, View.enter_cell, view₁]
      by_cases e : j = i ∧ k = f
      · obtain ⟨rfl, rfl⟩ := e
        have fields : m.valid = false ∧ bitmapBit m.frag.bitmap = View.tailBad l₁.nrSctr l₁.nrFrag k := by
          simp only [Slot.cell, Cell.mk.injEq] at cellm
          exact ⟨cellm.2.1.symm, cellm.2.2.2.symm⟩
        simp [Slot.cell, hφ, idle, fields, size, sctrs, u16, Lun.volume]
      · rw [if_neg e, if_neg e, if_neg e, addr]
    · intro b
      rw [view₁, addr]
      rfl

theorem alloc4population_spec (h : Inv nowhere s) (empty : s.slot i f = none) :
    Stops s (alloc4population s i f) ∨
    (∃ s', alloc4population s i f = .ok (none, s') ∧ Inv nowhere s' ∧ s'.view = s.view) ∨
    (∃ pfid l s', alloc4population s i f = .ok (some pfid, s') ∧ Inv nowhere s' ∧ s.view.lun i = some l ∧
      f < l.nrFrag ∧ s.view.available (phys pfid) ∧ s'.view = s.view.place i f (phys pfid) l) := by
  cases lun : s.luntbl i with
  | none => exact Or.inr (Or.inl ⟨s, by simp [alloc4population, lun], h, rfl⟩)
  | some l =>
    by_cases past : l.nrFrag ≤ f
    · exact Or.inr (Or.inl ⟨s, by simp [alloc4population, lun, past], h, rfl⟩)
    · have enough : 2 ≤ s.nrFrag + 2 := by omega
      rcases allocLoop_spec h enough with
        ⟨tight, stop⟩ | ⟨s₁, alloc, h₁, view₁⟩ | ⟨pfid, s₁, alloc, h₁, view₁, free⟩
      · exact Or.inl ⟨tight, by simp [alloc4population, lun, past, stop, bind, Except.bind]⟩
      · exact Or.inr (Or.inl ⟨s₁, by simp [alloc4population, lun, past, alloc, bind, Except.bind, pure, Except.pure],
          h₁, view₁⟩)
      · obtain ⟨s', run, h', view'⟩ := alloc4population_granted lun (Nat.not_le.mp past) empty alloc h₁ view₁ free
        exact Or.inr (Or.inr ⟨pfid, l.volume, s', run, h', by rw [Sce.view_lun, lun]; rfl, Nat.not_le.mp past, free,
          view'⟩)

/-! ### `sce_get4pop` -/

theorem lunIsvalididx_iff : lunIsvalididx s i = true ↔
    i < sceMaxLun ∧ ∃ l, s.luntbl i = some l ∧ l.waiting4deletion = false := by
  unfold lunIsvalididx
  rw [Bool.and_eq_true, decide_eq_true_eq]
  cases s.luntbl i <;> simp

theorem choose4populationLoop_spec {past : Nat → Nat → Word} (n : Nat) : ∀ maxmiss best,
    choose4populationLoop s past n maxmiss best = some (i, f) → best = some (i, f) ∨
    ∃ l, s.luntbl i = some l ∧ l.waiting4deletion = false ∧ isMapped (readFragmap past i l f) = false := by
  induction n with
  | zero => exact fun maxmiss best chosen => Or.inl chosen
  | succ n ih =>
    intro maxmiss best chosen
    unfold choose4populationLoop at chosen
    split at chosen
    · rename_i lunidx fragnum _
      split at chosen
      · exact ih _ _ chosen
      · rename_i serves
        obtain ⟨_, l, lun, active⟩ := lunIsvalididx_iff.mp (by simpa using serves)
        simp only [lun] at chosen
        split at chosen
        · exact ih _ _ chosen
        · rename_i clear
          split at chosen
          · rcases ih _ _ chosen with taken | later
            · obtain ⟨rfl, rfl⟩ := Prod.mk.inj (Option.some.inj taken)
              exact Or.inr ⟨l, lun, active, by simpa using clear⟩
            · exact Or.inr later
          · exact ih _ _ chosen
    · exact Or.inl chosen

/-- A task is handed out for an unmapped fragment, with an available place. -/
theorem sceGet4pop_spec (h : Inv nowhere s) (past : Nat → Nat → Word) :
    Stops s (sceGet4pop s past) ∨
    (∃ s', sceGet4pop s past = .ok (none, s') ∧ Inv nowhere s' ∧ s'.view = s.view) ∨
    (∃ i f a l ctx size s', sceGet4pop s past = .ok (some ⟨l.lunctx, ctx, f, a.off⟩, s') ∧ Inv nowhere s' ∧
      s.view.lun i = some l ∧ l.waiting = false ∧ f < l.nrFrag ∧ s.view.cell i f = none ∧ s.view.available a ∧
      s.dev a.dev = some (ctx, size) ∧ s'.view = s.view.place i f a l) := by
  unfold sceGet4pop
  cases chosen : choose4population s past with
  | none => exact Or.inr (Or.inl ⟨s, rfl, h, rfl⟩)
  | some p =>
    obtain ⟨i, f⟩ := p
    have choice : ∃ l, s.luntbl i = some l ∧ l.waiting4deletion = false ∧
        isMapped (readFragmap past i l f) = false := by
      rcases choose4populationLoop_spec _ _ _ chosen with none | found
      · cases none
      · exact found
    obtain ⟨l, lun, active, clear⟩ := choice
    have empty : s.slot i f = none := by
      cases slot : s.slot i f with
      | none => rfl
      | some m =>
        obtain ⟨l', lun', inside, mapped, _⟩ := Sce.slot_eq_some.mp slot
        obtain rfl := Option.some.inj (lun.symm.trans lun')
        rw [readFragmap, if_pos inside, mapped] at clear
        cases clear
    simp only
    rcases alloc4population_spec h empty with
      ⟨tight, stop⟩ | ⟨s', alloc, h', view'⟩ | ⟨pfid, v, s', alloc, h', volume, inside, free, view'⟩
    · exact Or.inl ⟨tight, by simp [stop, bind, Except.bind]⟩
    · exact Or.inr (Or.inl ⟨s', by simp [alloc, bind, Except.bind, pure, Except.pure], h', view'⟩)
    · right
      right
      obtain ⟨g, frag⟩ := Sce.frag_of_available free
      obtain ⟨ctx, size, dev, _⟩ := Sce.frag?_isSome.mp (Option.isSome_of_eq_some frag)
      have volume' : s.view.lun i = some l.volume := by rw [Sce.view_lun, lun]; rfl
      obtain rfl : l.volume = v := Option.some.inj (volume'.symm.trans volume)
      refine ⟨i, f, phys pfid, l.volume, ctx, size, s', ?_, h', volume, active, inside, ?_, free, dev, view'⟩
      · have dev' : s'.dev (phys pfid).dev = some (ctx, size) := by
          rw [show s'.dev = s.dev from congrArg View.dev view', dev]
        obtain ⟨cdev, cdev', rfl, _⟩ := Sce.dev_eq_some.mp dev'
        have lun' : (s'.luntbl i).map Lun.volume = some { l.volume with service := u32 (l.nrService + 1) } := by
          rw [← Sce.view_lun, view', View.place, View.setLun_lun, if_pos rfl]
          show (s.view.lun i).map _ = _
          rw [volume']
          rfl
        obtain ⟨l', present, same⟩ := Option.map_eq_some_iff.mp lun'
        have ctx : l'.lunctx = l.lunctx := congrArg Volume.lunctx same
        simp only [alloc, bind, Except.bind, pure, Except.pure, present, Option.elim_some, ctx]
        simp only [phys] at cdev'
        simp [cdev', phys, Lun.volume]
      · rw [Sce.view_cell, empty]
        rfl

theorem sceGet4pop_chosen {past : Nat → Nat → Word} {task : Poptask} (run : sceGet4pop s past = .ok (some task, s')) :
    ∃ i f l, choose4population s past = some (i, f) ∧ s.luntbl i = some l ∧
      task.lunctx = (s'.luntbl i).elim 0 Lun.lunctx := by
  unfold sceGet4pop at run
  cases chosen : choose4population s past with
  | none =>
    rw [chosen] at run
    cases run
  | some p =>
    obtain ⟨i, f⟩ := p
    rw [chosen] at run
    obtain ⟨l, lun, _⟩ : ∃ l, s.luntbl i = some l ∧ l.waiting4deletion = false ∧
        isMapped (readFragmap past i l f) = false := by
      rcases choose4populationLoop_spec _ _ _ chosen with none | found
      · cases none
      · exact found
    refine ⟨i, f, l, rfl, lun, ?_⟩
    simp only [bind, Except.bind, pure, Except.pure] at run
    split at run
    · cases run
    · split at run
      · cases run
      · obtain ⟨same, rfl⟩ := Prod.mk.inj (Except.ok.inj run)
        rw [← Option.some.inj same]

/-! ### `sce_put4pop` -/

theorem releasePopulation_view (h : Inv nowhere s) :
    Inv nowhere (s.modifyLun i fun l => { l with nrService := sub32 l.nrService 1 }) ∧
      (s.modifyLun i fun l => { l with nrService := sub32 l.nrService 1 }).view = s.view.release i :=
  ⟨h.modifyLun (fun _ _ => rfl) (fun _ _ => rfl) (fun _ _ => rfl),
    Sce.view_modifyLun (fun _ _ => rfl) (fun _ _ => rfl) (fun _ _ => rfl)⟩

theorem releasePopulation_mapped (h : Inv nowhere s) (slot : s.slot i f = some m) :
    Stops s (releasePopulation s i m.addr) ∨ ∃ s', releasePopulation s i m.addr = .ok (.success, s') ∧ Inv nowhere s' ∧
      s'.view = (s.view.release i).collect i f := by
  obtain ⟨h₁, view₁⟩ := releasePopulation_view (i := i) h
  have slot₁ : (s.modifyLun i fun l => { l with nrService := sub32 l.nrService 1 }).slot i f = some m := by
    rw [← slot]
    exact Sce.slot_modifyLun (fun _ _ => rfl) (fun _ _ => rfl)
  rcases lunGc_spec h₁ slot₁ with stop | ⟨s', gc, h', view'⟩
  · exact Or.inl (stop.of_view view₁ rfl id)
  · exact Or.inr ⟨s', gc, h', by rw [view', view₁]⟩

theorem releasePopulation_free (h : Inv nowhere s) (free : s.view.free a) :
    Stops s (releasePopulation s i a) ∨ ∃ s', releasePopulation s i a = .ok (.success, s') ∧ Inv nowhere s' ∧
      s'.view = (s.view.release i).settle i := by
  obtain ⟨h₁, view₁⟩ := releasePopulation_view (i := i) h
  obtain ⟨n, node, within⟩ := free
  obtain ⟨g, frag, rfl⟩ := Sce.node_eq_some.mp node
  rcases lunGc_free (i := i) h₁ (a := a) (g := g) frag within with stop | ⟨s', gc, h', view'⟩
  · exact Or.inl (stop.of_view view₁ rfl id)
  · exact Or.inr ⟨s', gc, h', by rw [view', view₁]⟩

theorem completePopulation_spec (h : Inv nowhere s) :
    Stops s (completePopulation s i f) ∨ ∃ s', completePopulation s i f = .ok ((s.view.complete i f).1, s') ∧
    Inv nowhere s' ∧
      s'.view = (s.view.complete i f).2 := by
  cases slot : s.slot i f with
  | none =>
    have cell : s.view.cell i f = none := by rw [Sce.view_cell, slot]; rfl
    refine Or.inr ⟨s, ?_, h, by simp [View.complete, cell]⟩
    simp only [View.complete, cell]
    unfold completePopulation
    cases lun : s.luntbl i with
    | none => rfl
    | some l =>
      simp only
      split
      · rfl
      · rename_i inside
        simp [h.shape.unmapped lun (Nat.not_le.mp inside) slot]
  | some m =>
    obtain ⟨l, lun, inside, mapped, addr, valid, frag⟩ := Sce.slot_eq_some.mp slot
    have cell := Sce.view_cell_some slot
    have next : m.frag.next = 0#32 := congrArg Node.next (h.shape.node_of_slot slot)
    simp only [completePopulation, lun, if_neg (Nat.not_le.mpr inside), mapped, Sce.pfid2frag, ← addr, frag, ← valid,
      next, View.complete, cell]
    cases good : m.valid with
    | true =>
      rcases releasePopulation_mapped h slot with stop | ⟨s', release, h', view'⟩
      · exact Or.inl (by simpa using stop)
      · exact Or.inr ⟨s', by simp [release, Slot.cell, good], h', by simp [view', Slot.cell, good]⟩
    | false =>
      by_cases one : m.frag.nrService = 1
      · obtain ⟨h₁, slot₁, view₁⟩ := h.setDesc_valid lun slot
        obtain ⟨φ, hφ⟩ : ∃ φ : Frag → Frag, φ = fun g => { g with nrService := 0 } := ⟨_, rfl⟩
        have node : (φ m.frag).node = m.frag.node := by simp [hφ, Frag.node]
        have h₂ := h₁.modifyFrag (φ := φ) slot₁ node (by simpa [hφ] using h₁.pages _ _ _ slot₁)
        have view₂ := h₁.shape.view_modifyFrag (φ := φ) slot₁ node
        have slot₂ : ((s.setDesc i f (l.fragmap f ||| fragdescValid)).modifyFrag m.addr φ).slot i f =
            some ⟨m.addr, true, φ m.frag⟩ := by
          rw [Sce.slot_modifyFrag, slot₁]
          simp
        rcases releasePopulation_mapped h₂ slot₂ with stop | ⟨s', release, h', view'⟩
        · rw [view₁] at view₂
          refine Or.inl (stop.of_view view₂ rfl fun e => ?_)
          simp only [one]
          simpa [← hφ] using e
        refine Or.inr ⟨s', ?_, h', ?_⟩
        · simp only [Slot.cell, good, one]
          simpa [← hφ] using release
        · rw [view', view₂, view₁]
          have both : ((s.view.setCell i f fun c => { c with valid := true }).setCell i f fun _ =>
              Slot.cell ⟨m.addr, true, φ m.frag⟩) = s.view.setCell i f fun c =>
              { c with valid := true, service := 0 } := by
            refine View.ext_fields rfl rfl ?_ fun _ => Iff.rfl
            funext j k
            simp only [View.setCell_cell]
            by_cases e : j = i ∧ k = f
            · obtain ⟨rfl, rfl⟩ := e
              simp [cell, Slot.cell, hφ]
            · simp [e]
          rw [both]
          simp [Slot.cell, good, one]
      · exact Or.inr ⟨s, by simp [Slot.cell, good, one], h, by simp [Slot.cell, good, one]⟩

theorem cancelPopulation_spec (h : Inv nowhere s) :
    Stops s (cancelPopulation s i f) ∨ ∃ s', cancelPopulation s i f = .ok ((s.view.cancel i f).1, s') ∧ Inv nowhere s' ∧
      s'.view = (s.view.cancel i f).2 := by
  cases slot : s.slot i f with
  | none =>
    have cell : s.view.cell i f = none := by rw [Sce.view_cell, slot]; rfl
    refine Or.inr ⟨s, ?_, h, by simp [View.cancel, cell]⟩
    simp only [View.cancel, cell]
    unfold cancelPopulation
    cases lun : s.luntbl i with
    | none => rfl
    | some l =>
      simp only
      split
      · rfl
      · rename_i inside
        simp [h.shape.unmapped lun (Nat.not_le.mp inside) slot]
  | some m =>
    obtain ⟨l, lun, inside, mapped, addr, valid, frag⟩ := Sce.slot_eq_some.mp slot
    have cell := Sce.view_cell_some slot
    have next : m.frag.next = 0#32 := congrArg Node.next (h.shape.node_of_slot slot)
    simp only [cancelPopulation, lun, if_neg (Nat.not_le.mpr inside), mapped, Sce.pfid2frag, ← addr, frag, ← valid,
      next, View.cancel, cell]
    by_cases pending : m.valid = false ∧ m.frag.nrService = 1
    · obtain ⟨bad, one⟩ := pending
      obtain ⟨φ, hφ⟩ : ∃ φ : Frag → Frag, φ = fun g => { g with nrService := 0 } := ⟨_, rfl⟩
      have node : (φ m.frag).node = m.frag.node := by simp [hφ, Frag.node]
      have h₁ := h.modifyFrag (φ := φ) slot node (by simpa [hφ] using h.pages _ _ _ slot)
      have view₁ := h.shape.view_modifyFrag (φ := φ) slot node
      have slot₁ : (s.modifyFrag m.addr φ).slot i f = some ⟨m.addr, m.valid, φ m.frag⟩ := by
        rw [Sce.slot_modifyFrag, slot]
        simp
      rcases unmapFrag_idle h₁ slot₁ (by simp [hφ]) with stop | ⟨s₂, unmap, h₂, view₂⟩
      · exact Or.inl (stop.of_view view₁ rfl fun e => by simp [bad, one, ← hφ, e, bind, Except.bind])
      have dropped : s₂.view = s.view.drop i f := by
        rw [view₂, view₁]
        refine View.ext_fields rfl rfl ?_ ?_
        · funext j k
          simp only [View.drop_cell, View.setCell_cell]
          split <;> rfl
        · intro b
          rw [View.drop_free, View.drop_free, View.setCell_cell, if_pos ⟨rfl, rfl⟩, cell]
          simp [Slot.cell]
      have free : s₂.view.free m.addr := by
        rw [dropped]
        exact Or.inr ⟨m.cell, cell, rfl⟩
      rcases releasePopulation_free (i := i) h₂ free with stop | ⟨s', release, h', view'⟩
      · exact Or.inl (stop.of_view dropped rfl fun e => by simp [bad, one, ← hφ, unmap, e, bind, Except.bind])
      refine Or.inr ⟨s', ?_, h', ?_⟩
      · simp [bad, one, Slot.cell, ← hφ, unmap, release, bind, Except.bind]
      · rw [view', dropped]
        simp [bad, one, Slot.cell]
    · have skip : ¬ (m.cell.valid = false ∧ m.cell.service = 1) := pending
      refine Or.inr ⟨s, ?_, h, by rw [if_neg skip]⟩
      rw [if_neg skip]
      by_cases bad : m.valid = false
      · have busy : m.frag.nrService ≠ 1 := fun one => pending ⟨bad, one⟩
        simp [bad, busy]
      · simp [bad]

theorem Sce.view_search {ctx : Nat} : s.view.search ctx = lunSearch s ctx := by
  unfold View.search lunSearch
  congr 1
  funext i
  rw [Sce.view_lun]
  cases s.luntbl i <;> rfl

theorem scePut4pop_spec (h : Inv nowhere s) (poptask : Poptask) (failed : Bool) :
    Stops s (scePut4pop s poptask failed) ∨
    ∃ s', scePut4pop s poptask failed = .ok ((s.view.put4pop poptask failed).1, s') ∧ Inv nowhere s' ∧
      s'.view = (s.view.put4pop poptask failed).2 := by
  unfold scePut4pop View.put4pop
  rw [Sce.view_search]
  cases lunSearch s poptask.lunctx with
  | none => exact Or.inr ⟨s, rfl, h, rfl⟩
  | some i =>
    cases failed with
    | true => exact cancelPopulation_spec h
    | false =>
      rcases completePopulation_spec (i := i) (f := poptask.lunFragnum) h with ⟨tight, stop⟩ | ⟨s', complete, h', view'⟩
      · exact Or.inl ⟨tight, by simp [stop, bind, Except.bind]⟩
      obtain ⟨ψ, hψ⟩ : ∃ ψ : Lun → Lun, ψ = fun l => { l with stats := { l.stats with
        populations := l.stats.populations + 1
        allocSctrs := l.stats.allocSctrs + 1
        validSctrs := l.stats.validSctrs + (sceSctrPerFrag : Nat) } } := ⟨_, rfl⟩
      refine Or.inr ⟨s'.modifyLun i ψ, ?_, h'.modifyLun (by simp [hψ]) (by simp [hψ]) (by simp [hψ]), ?_⟩
      · simp only [← hψ, complete, bind, Except.bind]
        rfl
      · rw [Sce.view_modifyLun_same (by simp [hψ]) (by simp [hψ]) (by simp [hψ, Lun.volume])]
        exact view'

end Iostash
