import Iostash.Sce.Populating
import Mathlib.Algebra.BigOperators.Group.Finset.Piecewise

/-!
# Adding devices, adding and removing LUNs

`sce_addcdev`, `sce_addlun` and `sce_rmlun`. A new device brings its fragments to the free list one
by one, a new LUN starts with nothing mapped.
-/

namespace Iostash

open Util

variable {s : Sce} {v : View} {c : Cell} {i f j k d n : Nat} {a : Phys} {m : Slot} {pfid : Word} {out : Phys → Prop}

/-! ### `sce_addcdev` -/

/-- Putting a fragment that nothing maps on the free list; one that is there already stays. -/
theorem pushFree_spec (h : Inv out s) {g : Frag} (frag : s.frag? (phys pfid) = some g)
    (apart : ∀ j k, s.place j k ≠ some (phys pfid)) : Stops s (freefraglistPut s pfid) ∨
      ∃ ret s', freefraglistPut s pfid = .ok (ret, s') ∧ Inv out s' ∧ s'.place = s.place ∧
        s'.view = { s.view with free := fun b => s.view.free b ∨ b = phys pfid } := by
  obtain ⟨fl, list⟩ := h.shape.free
  have node := Sce.node_of_frag frag
  by_cases within : g.fragnum = fragnumWithinFreeList
  · refine Or.inr ⟨.error, s, freefraglistPut_free frag within, h, rfl, View.ext_fields rfl rfl rfl fun b => ?_⟩
    refine ⟨Or.inl, ?_⟩
    rintro (free | rfl)
    · exact free
    · exact (Sce.isFree_iff frag).mpr within
  rcases freefraglistPut_used list h.shape.devices node within with stop | put
  · exact Or.inl stop
  have slots : ∀ j k, (s.pushFree pfid).slot j k = s.slot j k := by
    intro j k
    rw [Sce.pushFree_slot]
    cases slot : s.slot j k with
    | none => rfl
    | some m =>
      have ne : m.addr ≠ phys pfid := fun e => apart j k (e ▸ Sce.place_of_slot slot)
      simp [ne]
  refine Or.inr ⟨.success, s.pushFree pfid, put, ⟨⟨?_, ?_, ?_, _, list.push node within⟩, ?_, ?_⟩, rfl, ?_⟩
  · exact h.shape.devices.congr Sce.pushFree_dev rfl rfl
  · exact h.shape.luns.congr rfl rfl
  · intro j k b place
    have ne : b ≠ phys pfid := fun e => apart j k (e ▸ place)
    rw [Sce.pushFree_node, if_neg ne]
    exact h.shape.mapped j k b place
  · intro j k m slot
    rw [slots] at slot
    exact h.pages j k m slot
  · intro b g' there used
    rw [Sce.pushFree_frag?] at there
    split at there
    · obtain ⟨g₀, _, rfl⟩ := Option.map_eq_some_iff.mp there
      exact absurd rfl used
    · exact h.kept b g' there used
  · refine View.ext_fields Sce.pushFree_dev rfl ?_ ?_
    · funext j k
      show ((s.pushFree pfid).slot j k).map Slot.cell = (s.slot j k).map Slot.cell
      rw [slots]
    · intro b
      show (s.pushFree pfid).isFree b ↔ s.isFree b ∨ b = phys pfid
      rw [Sce.pushFree_isFree node, or_comm]

/-- The loop over the fragments of a new device. A pfid holds 24 bits of an offset, so that what lies
past them is not put on the list. -/
theorem freeFragments_spec (hd : d < sceMaxCdev) (n : Nat) : ∀ s, Inv nowhere s →
    (∀ o, o ≤ n → (s.frag? ⟨d, o⟩).isSome) → (∀ j k o, s.place j k ≠ some ⟨d, o⟩) →
    Stops s (freeFragments d n s) ∨ ∃ s', freeFragments d n s = .ok s' ∧ Inv nowhere s' ∧
      s'.view = { s.view with free := fun a => s.view.free a ∨ a.dev = d ∧ a.off < min (n + 1) (2 ^ 24) } := by
  have put : ∀ (n : Nat) (s : Sce), Inv nowhere s → (∀ o, o ≤ n → (s.frag? ⟨d, o⟩).isSome) →
      (∀ j k o, s.place j k ≠ some ⟨d, o⟩) → Stops s (freefraglistPut s (scePfid d n)) ∨
      ∃ ret s', freefraglistPut s (scePfid d n) = .ok (ret, s') ∧ Inv nowhere s' ∧ s'.place = s.place ∧
        s'.view = { s.view with free := fun b => s.view.free b ∨ b = ⟨d, n % 2 ^ 24⟩ } := by
    intro n s h present apart
    have addr : phys (scePfid d n) = ⟨d, n % 2 ^ 24⟩ := phys_scePfid hd
    obtain ⟨g, frag⟩ := Option.isSome_iff_exists.mp (present (n % 2 ^ 24) (Nat.mod_le _ _))
    rw [← addr] at frag
    have spec := pushFree_spec h frag (by rw [addr]; exact fun j k => apart j k _)
    rw [addr] at spec
    exact spec
  induction n with
  | zero =>
    intro s h present apart
    rcases put 0 s h present apart with ⟨tight, stop⟩ | ⟨ret, s', run, h', _, view'⟩
    · exact Or.inl ⟨tight, by simp [freeFragments, stop, bind, Except.bind]⟩
    refine Or.inr ⟨s', by simp [freeFragments, run, bind, Except.bind, pure, Except.pure], h', ?_⟩
    rw [view']
    refine View.ext_fields rfl rfl rfl fun b => or_congr_right ?_
    cases b
    simp
  | succ n ih =>
    intro s h present apart
    rcases put (n + 1) s h present apart with ⟨tight, stop⟩ | ⟨ret, s₁, run, h₁, place₁, view₁⟩
    · exact Or.inl ⟨tight, by simp [freeFragments, stop, bind, Except.bind]⟩
    have present₁ : ∀ o, o ≤ n → (s₁.frag? ⟨d, o⟩).isSome := by
      intro o le
      obtain ⟨g, frag⟩ := Option.isSome_iff_exists.mp (present o (by omega))
      obtain ⟨g', frag'⟩ := Sce.frag_of_dev (show s₁.dev = s.dev from congrArg View.dev view₁) frag
      simp [frag']
    rcases ih s₁ h₁ present₁ (by rw [place₁]; exact apart) with stop | ⟨s', rest, h', view'⟩
    · exact Or.inl (stop.of_view view₁ rfl fun e => by simp [freeFragments, run, bind, Except.bind, e])
    refine Or.inr ⟨s', by simp [freeFragments, run, bind, Except.bind, rest], h', ?_⟩
    rw [view', view₁]
    refine View.ext_fields rfl rfl rfl fun b => ?_
    cases b with
    | mk bd bo =>
      simp only [Phys.mk.injEq, or_assoc]
      refine or_congr_right ?_
      omega

theorem find_free_slot {α : Type*} {tbl : Nat → Option α} {bound : Nat}
    (found : (List.range bound).find? (fun d => (tbl d).isNone) = some d) : d < bound ∧ tbl d = none := by
  have here := List.find?_some found
  exact ⟨List.mem_range.mp (List.mem_of_find?_eq_some found), by simpa using here⟩

theorem cdevSearch_none {ctx : Nat} (unknown : (cdevSearch s ctx).isSome = false) :
    ∀ d, d < sceMaxCdev → (s.cdevtbl d).elim 0 Cdev.cdevctx ≠ ctx := by
  intro d lt
  simp only [cdevSearch, Option.isSome_eq_false_iff, Option.isNone_iff_eq_none, List.find?_eq_none,
    List.mem_range, beq_iff_eq] at unknown
  exact unknown d lt

/-- The state with the new device in the table and none of its fragments free. -/
def Sce.withCdev (s : Sce) (d ctx n : Nat) : Sce :=
  { s with
    cdevtbl := fun e => if e = d then some { cdevctx := ctx, nrFrag := n, fragtbl := fun _ => Frag.fill85 }
      else s.cdevtbl e
    nrCdev := s.nrCdev + 1
    nrFrag := u32 (s.nrFrag + n) }

theorem Sce.withCdev_dev {ctx e : Nat} : (s.withCdev d ctx n).dev e = if e = d then some (ctx, n) else s.dev e := by
  unfold Sce.dev Sce.withCdev
  split <;> simp_all

theorem Sce.withCdev_frag? {ctx : Nat} : (s.withCdev d ctx n).frag? a =
    if a.dev = d then if a.off < n then some Frag.fill85 else none else s.frag? a := by
  unfold Sce.frag? Sce.withCdev
  split <;> simp_all

theorem Devices.withCdev (h : Devices s) {ctx : Nat} (absent : s.dev d = none) (hd : d < sceMaxCdev)
    (hctx : ctx ≠ 0) (fresh : ∀ e n, s.dev e ≠ some (ctx, n)) (word : n < 2 ^ 32) (pos : 0 < n) :
    Devices (s.withCdev d ctx n) := by
  refine ⟨?_, ?_, ?_, ?_⟩
  · intro e ctx' n' dev
    rw [Sce.withCdev_dev] at dev
    split at dev
    · rename_i here
      obtain ⟨rfl, rfl⟩ := Prod.mk.inj (Option.some.inj dev)
      rw [here]
      exact ⟨hd, hctx, word, pos⟩
    · exact h.bounds e ctx' n' dev
  · intro e e' ctx' m m' dev dev'
    rw [Sce.withCdev_dev] at dev dev'
    split at dev <;> split at dev'
    · rename_i here there
      rw [here, there]
    · obtain ⟨rfl, rfl⟩ := Prod.mk.inj (Option.some.inj dev)
      exact absurd dev' (fresh _ _)
    · obtain ⟨rfl, rfl⟩ := Prod.mk.inj (Option.some.inj dev')
      exact absurd dev (fresh _ _)
    · exact h.unique _ _ _ _ _ dev dev'
  · have grown : ((Finset.range sceMaxCdev).filter fun e => ((s.withCdev d ctx n).dev e).isSome) =
        insert d ((Finset.range sceMaxCdev).filter fun e => (s.dev e).isSome) := by
      ext e
      simp only [Finset.mem_filter, Finset.mem_insert, Sce.withCdev_dev]
      by_cases here : e = d
      · simp [here, hd]
      · simp [here]
    rw [grown, Finset.card_insert_of_notMem (by simp [absent]), ← h.nrCdev]
    rfl
  · have sizes : ∀ e, devSize (s.withCdev d ctx n).dev e = devSize s.dev e + if e = d then n else 0 := by
      intro e
      unfold devSize
      rw [Sce.withCdev_dev]
      split
      · rename_i here
        simp [here, absent]
      · rfl
    simp only [sizes, Finset.sum_add_distrib, Finset.sum_ite_eq', Finset.mem_range, if_pos hd]
    show u32 (s.nrFrag + n) = _
    rw [h.nrFrag, u32, u32, u32, Nat.mod_add_mod]

theorem Inv.withCdev (h : Inv nowhere s) {ctx : Nat} (absent : s.dev d = none) (hd : d < sceMaxCdev)
    (hctx : ctx ≠ 0) (fresh : ∀ e n, s.dev e ≠ some (ctx, n)) (word : n < 2 ^ 32) (pos : 0 < n) :
    Inv nowhere (s.withCdev d ctx n) ∧
      (s.withCdev d ctx n).view =
        { s.view with dev := fun e => if e = d then some (ctx, n) else s.dev e } := by
  have gone : ∀ b : Phys, b.dev = d → s.frag? b = none := by
    intro b e
    have none : s.cdevtbl b.dev = none := by simpa [Sce.dev, e] using absent
    simp [Sce.frag?, none]
  have old : ∀ b : Phys, b.dev ≠ d → (s.withCdev d ctx n).frag? b = s.frag? b := by
    intro b ne
    rw [Sce.withCdev_frag?, if_neg ne]
  have node : ∀ b : Phys, b.dev ≠ d → (s.withCdev d ctx n).node b = s.node b := by
    intro b ne
    unfold Sce.node
    rw [old b ne]
  have frees : ∀ b, (s.withCdev d ctx n).isFree b ↔ s.isFree b := by
    intro b
    by_cases e : b.dev = d
    · refine iff_of_false ?_ ?_
      · rintro ⟨m, here, within⟩
        obtain ⟨g, frag, rfl⟩ := Sce.node_eq_some.mp here
        rw [Sce.withCdev_frag?, if_pos e] at frag
        split at frag
        · obtain rfl := Option.some.inj frag
          simp [Frag.node, Frag.fill85] at within
        · cases frag
      · rintro ⟨m, here, _⟩
        obtain ⟨g, frag, _⟩ := Sce.node_eq_some.mp here
        rw [gone b e] at frag
        cases frag
    · simp only [Sce.isFree, node b e]
  have apart : ∀ j k b, s.place j k = some b → b.dev ≠ d := by
    intro j k b place e
    obtain ⟨m, slot, rfl⟩ := h.shape.slot_of_place place
    have frag := Sce.frag_of_slot slot
    rw [gone _ e] at frag
    cases frag
  have slots : ∀ j k, (s.withCdev d ctx n).slot j k = s.slot j k := by
    intro j k
    rw [Sce.slot_eq_bind, Sce.slot_eq_bind]
    show (s.luntbl j).bind _ = _
    congr 1
    funext l
    show (s.place j k).bind _ = _
    cases place : s.place j k with
    | none => rfl
    | some b => simp only [Option.bind_some, old b (apart j k b place)]
  obtain ⟨fl, list⟩ := h.shape.free
  have alive : ∀ b, b ∈ fl → b.dev ≠ d := by
    intro b member e
    obtain ⟨m, here, _⟩ := (list.mem b).mp member
    obtain ⟨g, frag, _⟩ := Sce.node_eq_some.mp here
    rw [gone b e] at frag
    cases frag
  refine ⟨⟨⟨h.shape.devices.withCdev absent hd hctx fresh word pos, ?_, ?_, fl, ?_, list.nodup, list.nrFreefrag, ?_⟩,
    ?_, ?_⟩, ?_⟩
  · exact h.shape.luns.congr rfl rfl
  · intro j k b place
    rw [node b (apart j k b place)]
    exact h.shape.mapped j k b place
  · refine list.chain.frame fun b member => ?_
    simp only [Sce.nextWord, node b (alive b member)]
  · intro b
    rw [list.mem, frees]
  · intro j k m slot
    rw [slots] at slot
    exact h.pages j k m slot
  · intro b g frag off
    by_cases e : b.dev = d
    · rw [Sce.withCdev_frag?, if_pos e] at frag
      split at frag
      · obtain rfl := Option.some.inj frag
        exact Or.inr (Or.inr (by simp [Frag.fill85]))
      · cases frag
    · rw [old b e] at frag
      rcases h.kept b g frag off with hand | rest
      · exact hand.elim
      · exact Or.inr rest
  · refine View.ext_fields (funext fun e => Sce.withCdev_dev) rfl ?_ frees
    funext j k
    show ((s.withCdev d ctx n).slot j k).map Slot.cell = (s.slot j k).map Slot.cell
    rw [slots]

/-- A device is added in an empty slot, with a context no present device has, or not at all. -/
theorem sceAddcdev_spec (h : Inv nowhere s) (nrSctr ctx : Nat) (vmalloc : Bool) :
    sceAddcdev s nrSctr ctx vmalloc = .ok (none, s) ∨
    ∃ d n, n = u32 (nrSctr / sceSctrPerFrag) ∧ 0 < n ∧ d < sceMaxCdev ∧ s.dev d = none ∧ ctx ≠ 0 ∧
      (∀ e n, s.dev e ≠ some (ctx, n)) ∧
      ((¬ Roomy (s.view.plug d ctx n).dev ∧ sceAddcdev s nrSctr ctx vmalloc = .error .bugOn) ∨
      ∃ s', sceAddcdev s nrSctr ctx vmalloc = .ok (some d, s') ∧ Inv nowhere s' ∧
        s'.view = s.view.plug d ctx n) := by
  unfold sceAddcdev
  split
  · exact Or.inl rfl
  split
  · exact Or.inl rfl
  rename_i unknown
  cases found : (List.range sceMaxCdev).find? fun d => (s.cdevtbl d).isNone with
  | none => exact Or.inl rfl
  | some d =>
    obtain ⟨hd, absent⟩ := find_free_slot found
    have differ := cdevSearch_none (by simpa using unknown)
    have hctx : ctx ≠ 0 := by
      have := differ d hd
      rw [absent] at this
      exact fun e => this e.symm
    have fresh : ∀ e n, s.dev e ≠ some (ctx, n) := by
      intro e n dev
      obtain ⟨lt, _⟩ := h.shape.devices.bounds e ctx n dev
      obtain ⟨cdev, here, same, _⟩ := Sce.dev_eq_some.mp dev
      have := differ e lt
      rw [here] at this
      exact this same
    have none : s.dev d = none := by simp [Sce.dev, absent]
    cases init : cdevInit nrSctr vmalloc with
    | none => exact Or.inl rfl
    | some cdev =>
      right
      obtain ⟨n, hn⟩ : ∃ n, n = u32 (nrSctr / sceSctrPerFrag) := ⟨_, rfl⟩
      have shape : cdev = { cdevctx := 0, nrFrag := n, fragtbl := fun _ => Frag.fill85 } ∧ 0 < n := by
        simp only [cdevInit, ← hn] at init
        split at init
        · cases init
        · split at init
          · rename_i ok
            exact ⟨(Option.some.inj init).symm, Nat.pos_of_ne_zero ok.2⟩
          · cases init
      obtain ⟨rfl, pos⟩ := shape
      refine ⟨d, n, hn, pos, hd, none, hctx, fresh, ?_⟩
      obtain ⟨h₁, view₁⟩ := h.withCdev none hd hctx fresh (hn ▸ u32_lt _) pos
      have present : ∀ o, o ≤ n - 1 → ((s.withCdev d ctx n).frag? ⟨d, o⟩).isSome := by
        intro o le
        rw [Sce.withCdev_frag?, if_pos rfl, if_pos (by simp only; omega)]
        rfl
      have apart : ∀ j k o, (s.withCdev d ctx n).place j k ≠ some ⟨d, o⟩ := by
        intro j k o place
        obtain ⟨m, slot, addr⟩ := h.shape.slot_of_place (show s.place j k = some ⟨d, o⟩ from place)
        obtain ⟨cdev, here, _⟩ := Sce.frag?_some_iff.mp (Sce.frag_of_slot slot)
        rw [addr, absent] at here
        cases here
      rcases freeFragments_spec hd (n - 1) (s.withCdev d ctx n) h₁ present apart with
        ⟨tight, stop⟩ | ⟨s', free, h', view'⟩
      · refine Or.inl ⟨?_, ?_⟩
        · rw [show (s.withCdev d ctx n).dev = _ from congrArg View.dev view₁] at tight
          exact tight
        · simp only [Sce.withCdev] at stop
          simp only [stop, bind, Except.bind]
      · refine Or.inr ⟨s', ?_, h', ?_⟩
        · simp only [Sce.withCdev] at free
          simp only [free, bind, Except.bind, pure, Except.pure]
        · rw [view', view₁]
          refine View.ext_fields rfl rfl rfl fun b => or_congr_right (and_congr_right fun _ => ?_)
          omega

/-- A device is added in the first empty slot. -/
theorem sceAddcdev_lowest {nrSctr ctx d e : Nat} {vmalloc : Bool}
    (run : sceAddcdev s nrSctr ctx vmalloc = .ok (some d, s')) (lt : e < d) : (s.dev e).isSome := by
  unfold sceAddcdev at run
  split at run
  · cases run
  split at run
  · cases run
  cases found : (List.range sceMaxCdev).find? fun d => (s.cdevtbl d).isNone with
  | none =>
    rw [found] at run
    cases run
  | some d' =>
    rw [found] at run
    have earlier : (s.cdevtbl e).isSome := by
      cases init : cdevInit nrSctr vmalloc with
      | none =>
        rw [init] at run
        cases run
      | some cdev =>
        rw [init] at run
        simp only [bind, Except.bind] at run
        split at run
        · cases run
        · obtain ⟨same, _⟩ := Prod.mk.inj (Except.ok.inj run)
          obtain rfl := Option.some.inj same
          obtain ⟨_, _, before⟩ := List.find?_range_eq_some.mp found
          simpa using before e lt
    unfold Sce.dev
    rw [Option.isSome_map]
    exact earlier

/-! ### `sce_addlun` and `sce_rmlun` -/

theorem isMapped_fill : isMapped 0x55555555#32 = false := by decide

theorem Inv.withLun (h : Inv nowhere s) {l : Lun} (absent : s.luntbl i = none) (hi : i < sceMaxLun)
    (blank : ∀ f, isMapped (l.fragmap f) = false) (pos : 0 < l.nrFrag)
    (limit : l.nrSctr + (sceSctrPerFrag - 1) < 2 ^ 64)
    (size : l.nrFrag = u32 ((l.nrSctr + (sceSctrPerFrag - 1)) / sceSctrPerFrag)) :
    Inv nowhere { s with luntbl := fun j => if j = i then some l else s.luntbl j, nrLun := s.nrLun + 1 } ∧
      ({ s with luntbl := fun j => if j = i then some l else s.luntbl j, nrLun := s.nrLun + 1 } : Sce).view =
        s.view.attach i l.volume := by
  obtain ⟨s', hs'⟩ : ∃ s' : Sce, s' = { s with
    luntbl := fun j => if j = i then some l else s.luntbl j, nrLun := s.nrLun + 1 } := ⟨_, rfl⟩
  have lun : ∀ j, s'.luntbl j = if j = i then some l else s.luntbl j := fun j => by rw [hs']
  have frag : s'.frag? = s.frag? := by rw [hs']; rfl
  have node : s'.node = s.node := by rw [hs']; rfl
  have extent : ∀ j, s'.extent j = if j = i then some (l.nrSctr, l.nrFrag) else s.extent j := by
    intro j
    unfold Sce.extent
    rw [lun]
    split <;> rfl
  have places : ∀ j k, s'.place j k = s.place j k := by
    intro j k
    unfold Sce.place
    rw [lun]
    split
    · rename_i e
      simp [e, absent, blank]
    · rfl
  have slots : ∀ j k, s'.slot j k = s.slot j k := by
    intro j k
    unfold Sce.slot
    rw [lun, frag]
    split
    · rename_i e
      simp [e, absent, blank]
    · rfl
  rw [← hs']
  refine ⟨⟨⟨?_, ⟨?_, ?_⟩, ?_, ?_⟩, ?_, ?_⟩, ?_⟩
  · rw [hs']
    exact h.shape.devices.congr rfl rfl rfl
  · intro j m n there
    rw [extent] at there
    split at there
    · rename_i e
      obtain ⟨rfl, rfl⟩ := Prod.mk.inj (Option.some.inj there)
      rw [e]
      exact ⟨hi, pos, limit, size⟩
    · exact h.shape.luns.bounds j m n there
  · have grown : ((Finset.range sceMaxLun).filter fun j => (s'.extent j).isSome) =
        insert i ((Finset.range sceMaxLun).filter fun j => (s.extent j).isSome) := by
      ext j
      simp only [Finset.mem_filter, Finset.mem_insert, extent]
      by_cases e : j = i
      · simp [e, hi]
      · simp [e]
    rw [grown, Finset.card_insert_of_notMem (by simp [Sce.extent, absent]), ← h.shape.luns.nrLun, hs']
  · intro j k b place
    rw [places] at place
    rw [node]
    exact h.shape.mapped j k b place
  · obtain ⟨fl, list⟩ := h.shape.free
    exact ⟨fl, list.congr node (by rw [hs']) (by rw [hs'])⟩
  · intro j k m slot
    rw [slots] at slot
    exact h.pages j k m slot
  · intro b g there off
    rw [frag] at there
    simp only [places]
    exact h.kept b g there off
  · refine View.ext_fields (by rw [hs']; rfl) ?_ ?_ fun b => ?_
    · funext j
      show (s'.luntbl j).map Lun.volume = if j = i then some l.volume else (s.luntbl j).map Lun.volume
      rw [lun]
      split <;> rfl
    · funext j k
      show (s'.slot j k).map Slot.cell = (s.slot j k).map Slot.cell
      rw [slots]
    · show s'.isFree b ↔ s.isFree b
      unfold Sce.isFree
      rw [node]

/-- The number of fragments of a LUN. -/
def lunFrags (nrSctr : Nat) : Nat := u32 (u64 (nrSctr + sceSctrPerFrag - 1) / sceSctrPerFrag)

theorem lunFrags_eq {nrSctr : Nat} (hs : nrSctr < 2 ^ 64) (pos : lunFrags nrSctr ≠ 0) :
    nrSctr + (sceSctrPerFrag - 1) < 2 ^ 64 ∧
    lunFrags nrSctr = u32 ((nrSctr + (sceSctrPerFrag - 1)) / sceSctrPerFrag) := by
  have short : nrSctr + 2047 < 2 ^ 64 := by
    by_contra wrap
    refine pos ?_
    simp only [lunFrags, sceSctrPerFrag]
    have small : u64 (nrSctr + 2048 - 1) / 2048 = 0 := by unfold u64; omega
    rw [small]
    rfl
  refine ⟨short, ?_⟩
  simp only [lunFrags, sceSctrPerFrag]
  rw [u64_of_lt (by omega)]
  rfl

/-- A LUN just added. -/
def Lun.blank (ctx nrSctr : Nat) : Lun :=
  { fragmap := fun _ => 0x55555555#32, lunctx := ctx, nrSctr := nrSctr, nrFrag := lunFrags nrSctr,
    nrService := 0, waiting4deletion := false, stats := {} }

theorem sceAddlun_spec (h : Inv nowhere s) {nrSctr : Nat} (hs : nrSctr < 2 ^ 64) (ctx : Nat) (vmalloc : Bool) :
    sceAddlun s nrSctr ctx vmalloc = .ok (none, s) ∨
    ∃ i s', sceAddlun s nrSctr ctx vmalloc = .ok (some i, s') ∧ Inv nowhere s' ∧ i < sceMaxLun ∧
      s.view.lun i = none ∧ 0 < nrSctr ∧ 0 < lunFrags nrSctr ∧
      s'.view = s.view.attach i ⟨ctx, nrSctr, lunFrags nrSctr, 0, false⟩ := by
  unfold sceAddlun
  split
  · exact Or.inl rfl
  rename_i sized
  cases found : (List.range sceMaxLun).find? fun i => (s.luntbl i).isNone with
  | none => exact Or.inl rfl
  | some i =>
    obtain ⟨hi, absent⟩ := find_free_slot found
    by_cases ok : vmalloc = true ∧ lunFrags nrSctr ≠ 0
    · right
      obtain ⟨limit, size⟩ := lunFrags_eq hs ok.2
      have init : lunInit nrSctr vmalloc = some (Lun.blank 0 nrSctr) := if_pos ok
      obtain ⟨h', view'⟩ := h.withLun (l := Lun.blank ctx nrSctr) absent hi (fun _ => isMapped_fill)
        (Nat.pos_of_ne_zero ok.2) limit size
      refine ⟨i, _, by simp only [init]; rfl, h', hi, ?_, Nat.pos_of_ne_zero sized, Nat.pos_of_ne_zero ok.2, view'⟩
      rw [Sce.view_lun, absent]
      rfl
    · refine Or.inl ?_
      have init : lunInit nrSctr vmalloc = none := if_neg ok
      simp only [init]

theorem sceRmlun_spec (h : Inv nowhere s) (i : Nat) :
    (s.view.lun i = none ∧ sceRmlun s i = .ok (.error, s)) ∨
    ∃ l, s.view.lun i = some l ∧ (Stops s (sceRmlun s i) ∨
      ∃ s', sceRmlun s i = .ok (.success, s') ∧ Inv nowhere s' ∧
        s'.view = if 0 < l.service then s.view.setLun i fun l => { l with waiting := true } else s.view.purge i) := by
  unfold sceRmlun
  cases lun : s.luntbl i with
  | none => exact Or.inl ⟨by rw [Sce.view_lun, lun]; rfl, rfl⟩
  | some l =>
    have volume : s.view.lun i = some l.volume := by rw [Sce.view_lun, lun]; rfl
    refine Or.inr ⟨l.volume, volume, ?_⟩
    have same : l.volume.service = l.nrService := rfl
    rw [same]
    by_cases busy : 0 < l.nrService
    · rw [if_pos busy]
      simp only [if_pos busy]
      exact Or.inr ⟨_, rfl, h.modifyLun (fun _ _ => rfl) (fun _ _ => rfl) (fun _ _ => rfl),
        Sce.view_modifyLun (fun _ _ => rfl) (fun _ _ => rfl) (fun _ _ => rfl)⟩
    · rw [if_neg busy]
      simp only [if_neg busy]
      exact lunPurge_spec h lun (Nat.eq_zero_of_not_pos busy)

end Iostash
