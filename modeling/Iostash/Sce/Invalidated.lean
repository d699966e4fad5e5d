import Iostash.Sce.Within
import Iostash.Sce.Runs

/-!
# What an invalidation changes

`sce_invalidate` marks the pages of a range and unmaps what is left without a usable page. The rest of the
engine is as before.
-/

namespace Iostash

open Util

/-- Page `p` of fragment `f` shares a sector with the range. -/
def pageTouched (x n f p : Nat) : Prop :=
  ∃ t, t < sceSctrPerPage ∧ x ≤ f * sceSctrPerFrag + p * sceSctrPerPage + t ∧
    f * sceSctrPerFrag + p * sceSctrPerPage + t < x + n

instance (x n f : Nat) : DecidablePred (pageTouched x n f) := fun _ => Nat.decidableExistsLT _

/-- `s'` is `s` after the pages that share a sector with the range were invalidated in LUN `i`. -/
structure Sce.Invalidated (s s' : Sce) (i x n : Nat) : Prop where
  marked : ∀ f m', s'.slot i f = some m' → ∃ m, s.slot i f = some m ∧ m'.addr = m.addr ∧ m'.valid = m.valid ∧
    (∀ p, p < scePagePerFrag → (bitmapBit m'.frag.bitmap p = true ↔
      bitmapBit m.frag.bitmap p = true ∨ pageTouched x n f p)) ∧
    m'.frag.nrValid + ((Finset.range scePagePerFrag).filter fun p =>
      bitmapBit m.frag.bitmap p = false ∧ pageTouched x n f p).card = m.frag.nrValid
  unmaps : ∀ f m, s.slot i f = some m → (s'.slot i f = none ↔
    (∃ p, p < scePagePerFrag ∧ pageTouched x n f p) ∧ m.valid = true ∧ m.frag.nrService = 0 ∧
      ∀ p, p < scePagePerFrag → bitmapBit m.frag.bitmap p = true ∨ pageTouched x n f p)
  freed : ∀ f m, s.slot i f = some m → s'.slot i f = none → s'.isFree m.addr
  unmapped : ∀ f, s.place i f = none → s'.entry i f = s.entry i f
  others : ∀ j, j ≠ i → s'.luntbl j = s.luntbl j
  frags : ∀ a, (∀ f, s.place i f ≠ some a) → s'.frag? a = s.frag? a
  misslog : s'.misslog = s.misslog
  lunService : ∀ j, (s'.luntbl j).map Lun.nrService = (s.luntbl j).map Lun.nrService
  fragService : ∀ a, (s'.frag? a).map Frag.nrService = (s.frag? a).map Frag.nrService

variable {s s' t : Sce} {i f n p x : Nat} {a : Phys} {r : Ret} {l : Lun}

/-! ### Requests on fragments -/

/-- The requests on every fragment are as before. -/
def Sce.Serves (s s' : Sce) : Prop := ∀ a, (s'.frag? a).map Frag.nrService = (s.frag? a).map Frag.nrService

theorem Sce.Serves.refl (s : Sce) : s.Serves s := fun _ => rfl

theorem Sce.Serves.trans (h : s.Serves t) (h' : t.Serves s') : s.Serves s' := fun a => (h' a).trans (h a)

theorem unmapFrag_serves (run : unmapFrag s i f = .ok (r, s')) : s.Serves s' := by
  rcases unmapFrag_cases run with rfl | ⟨l, g, ret, t, _, _, _, _, _, put, done⟩
  · exact .refl s'
  · have first : s.Serves t := freefraglistPut_keeps (fun _ _ _ => rfl) put
    rcases done with rfl | rfl <;> exact first

theorem reclaims_serves (i : Nat) : Reclaims i Sce.Serves where
  refl := .refl
  trans := .trans
  unmap := unmapFrag_serves
  destroy := fun _ _ => rfl

theorem invalidateFrag_serves {w : Word} {g : Frag} {pgoff pgcnt : Nat} (frag : s.pfid2frag w = some g)
    (run : invalidateFrag s i w g pgoff pgcnt = .ok s') : s.Serves s' := by
  unfold invalidateFrag at run
  obtain ⟨⟨g', k⟩, inval, run⟩ := Except.bind_eq_ok run
  have first : s.Serves ((s.modifyFrag (phys w) fun _ => g').modifyLun i fun l => { l with stats :=
      { l.stats with validSctrs := l.stats.validSctrs - (k * sceSctrPerPage : Nat) } }) := by
    intro b
    rw [Sce.modifyLun_frag?, Sce.modifyFrag_frag?]
    split
    · rename_i e
      rw [e, show s.frag? (phys w) = some g from frag]
      exact congrArg some (fragInvalidate_keeps (φ := Frag.nrService) (fun _ _ _ => rfl) inval)
    · rfl
  simp only at run
  split at run
  · obtain ⟨⟨_, t⟩, gc, run⟩ := Except.bind_eq_ok run
    cases run
    exact first.trans ((reclaims_serves i).lunGc gc)
  · cases run
    exact first

theorem invalidateLoop_serves {q : Nat × Nat} (fuel : Nat) : ∀ (fragnum pgoff count wh : Nat) (s : Sce),
    invalidateLoop i fuel fragnum pgoff count wh s = .ok (q, s') → s.Serves s' := by
  induction fuel with
  | zero =>
    intro fragnum pgoff count wh s run
    cases run
    exact .refl _
  | succ fuel ih =>
    intro fragnum pgoff count wh s run
    unfold invalidateLoop at run
    split at run
    · cases run
      exact .refl _
    · simp only at run
      split at run
      · cases run
      · split at run
        · cases run
        · split at run
          · exact ih _ _ _ _ _ run
          · split at run
            · cases run
              exact .refl _
            · rename_i g frag
              obtain ⟨t, inval, run⟩ := Except.bind_eq_ok run
              exact (invalidateFrag_serves frag inval).trans (ih _ _ _ _ _ run)

theorem sceInvalidate_serves (run : sceInvalidate s i x n = .ok (r, s')) : s.Serves s' := by
  cases lock : lockLun s i x n true with
  | none =>
    unfold sceInvalidate at run
    rw [lock] at run
    cases run
    exact .refl s
  | some l =>
    rw [sceInvalidate_eq lock] at run
    obtain ⟨⟨⟨_, wh⟩, t⟩, visit, run⟩ := Except.bind_eq_ok run
    unfold visitFragments at visit
    -- the counters of the LUN are written before and after
    simp only at visit
    have counted : s.Serves (s.modifyLun i fun l => { l with stats := { l.stats with
      writes := l.stats.writes + 1, writeSctrs := l.stats.writeSctrs + (n : Nat) } }) := fun _ => rfl
    have first : s.Serves t := counted.trans (invalidateLoop_serves _ _ _ _ _ _ visit)
    cases run
    split <;> exact first

/-! ### Pages -/

theorem pageTouched_iff (pos : 0 < n) :
    pageTouched x n f p ↔ x / 8 ≤ f * 256 + p ∧ f * 256 + p < x / 8 + ((x + n - 1) / 8 - x / 8 + 1) := by
  have base : f * sceSctrPerFrag + p * sceSctrPerPage = (f * 256 + p) * 8 := by
    simp only [sceSctrPerPage, sceSctrPerFrag]
    omega
  have order : x / 8 ≤ (x + n - 1) / 8 := Nat.div_le_div_right (by omega)
  have last : f * 256 + p < x / 8 + ((x + n - 1) / 8 - x / 8 + 1) ↔ (f * 256 + p) * 8 ≤ x + n - 1 := by
    rw [← Nat.le_div_iff_mul_le (by decide)]
    omega
  unfold pageTouched
  rw [base, last]
  generalize f * 256 + p = q
  simp only [sceSctrPerPage]
  constructor
  · rintro ⟨t, lt, low, high⟩
    omega
  · rintro ⟨low, high⟩
    rcases Nat.le_total x (q * 8) with before | inside
    · exact ⟨0, by omega, by omega, by omega⟩
    · exact ⟨x - q * 8, by omega, by omega, by omega⟩

/-- The pages of a range in a fragment, marked. -/
theorem Cell.mark_bad {c : Cell} (pos : 0 < n) (page : p < 256) :
    (c.mark f (x / 8) ((x + n - 1) / 8 - x / 8 + 1)).bad p = true ↔ c.bad p = true ∨ pageTouched x n f p := by
  rw [pageTouched_iff pos]
  simp [Cell.mark, page]

theorem Cell.goes_iff {c : Cell} (pos : 0 < n) : c.goes f (x / 8) ((x + n - 1) / 8 - x / 8 + 1) = true ↔
    (∃ p, p < scePagePerFrag ∧ pageTouched x n f p) ∧ c.valid = true ∧ c.service = 0 ∧
      ∀ p, p < scePagePerFrag → c.bad p = true ∨ pageTouched x n f p := by
  have some_ : touched f (x / 8) ((x + n - 1) / 8 - x / 8 + 1) = true ↔
      ∃ p, p < scePagePerFrag ∧ pageTouched x n f p := by
    rw [touched_iff]
    constructor
    · intro both
      refine ⟨max (x / 8) (f * 256) - f * 256, by simp only [scePagePerFrag]; omega, ?_⟩
      exact (pageTouched_iff pos).mpr (by omega)
    · rintro ⟨p, page, touch⟩
      have := (pageTouched_iff pos).mp touch
      simp only [scePagePerFrag] at page
      omega
  have spent : (c.mark f (x / 8) ((x + n - 1) / 8 - x / 8 + 1)).spent = true ↔
      ∀ p, p < scePagePerFrag → c.bad p = true ∨ pageTouched x n f p := by
    simp only [Cell.spent, List.all_eq_true, List.mem_range]
    exact forall₂_congr fun p page => Cell.mark_bad pos page
  simp only [Cell.goes, Bool.and_eq_true, beq_iff_eq, some_, spent, and_assoc]

/-- Marking pages takes the newly marked ones from the count. -/
theorem clearCount_marked {b b' : Nat → Bool} {q : Nat → Prop} [DecidablePred q]
    (marked : ∀ p, p < 256 → (b' p = true ↔ b p = true ∨ q p)) :
    clearCount b' 0 256 + ((Finset.range 256).filter fun p => b p = false ∧ q p).card = clearCount b 0 256 := by
  unfold clearCount
  rw [Nat.zero_add, ← Finset.range_eq_Ico]
  have split := Finset.card_filter_add_card_filter_not (s := (Finset.range 256).filter fun p => b p = false) q
  rw [Finset.filter_filter, Finset.filter_filter] at split
  rw [← split, Nat.add_comm]
  congr 1
  refine congrArg Finset.card (Finset.filter_congr fun p member => ?_)
  have here := marked p (Finset.mem_range.mp member)
  rw [← Bool.not_eq_true, here, ← Bool.not_eq_true]
  exact not_or

/-- A range that is accepted is invalidated, and nothing else is touched. -/
theorem Sce.sceInvalidate_exact (reached : s.Reached) (lun : s.luntbl i = some l) (active : l.waiting4deletion = false)
    (pos : 0 < n) (typed : n < 2 ^ 32) (inside : x + n ≤ l.nrSctr) (below : x + n ≤ 2 ^ 43)
    (run : sceInvalidate s i x n = .ok (.success, s')) : s.Invalidated s' i x n := by
  have h := reached.inv
  have within := sceInvalidate_within run
  obtain ⟨h', view'⟩ : Inv nowhere s' ∧ s'.view = s.view.invalidate i (x / 8) ((x + n - 1) / 8 - x / 8 + 1) := by
    obtain ⟨start, count⟩ := inv_pages pos typed below
    have writable : s.view.writable i x n := by
      refine ⟨l.volume, by rw [Sce.view_lun, lun]; rfl, active, Nat.pos_iff_ne_zero.mp pos, ?_⟩
      rw [u64_of_lt (by omega)]
      exact inside
    rcases sceInvalidate_spec h i x n with ⟨no, _⟩ | ⟨_, ⟨_, stop⟩ | ⟨stop, _⟩ | ⟨_, t, ok, h', view', _⟩⟩
    · exact absurd writable no
    · cases stop.symm.trans run
    · cases stop.symm.trans run
    · have same := congrArg Prod.snd (Except.ok.inj (ok.symm.trans run))
      simp only at same
      rw [start, count] at view'
      exact ⟨same ▸ h', same ▸ view'⟩
  have volumes : ∀ j, (s'.luntbl j).map Lun.volume = (s.luntbl j).map Lun.volume := by
    intro j
    have kept : s'.view.lun = s.view.lun := by rw [view']; rfl
    exact congrFun kept j
  have cells : ∀ f, s'.view.cell i f = (s.view.cell i f).bind fun c =>
      if c.goes f (x / 8) ((x + n - 1) / 8 - x / 8 + 1) then none
      else some (c.mark f (x / 8) ((x + n - 1) / 8 - x / 8 + 1)) := by
    intro f
    rw [view']
    exact if_pos rfl
  refine ⟨?_, ?_, ?_, ?_, within.lun, within.frag, within.misslog, ?_, sceInvalidate_serves run⟩
  · intro f m' slot'
    have cell' := Sce.view_cell_some slot'
    rw [cells] at cell'
    obtain ⟨c, cell, kept⟩ := Option.bind_eq_some_iff.mp cell'
    obtain ⟨m, slot, rfl⟩ := Option.map_eq_some_iff.mp (Sce.view_cell ▸ cell)
    split at kept
    · cases kept
    · have same := Option.some.inj kept
      have marked : ∀ p, p < 256 → (bitmapBit m'.frag.bitmap p = true ↔
          bitmapBit m.frag.bitmap p = true ∨ pageTouched x n f p) := by
        intro p page
        rw [show bitmapBit m'.frag.bitmap = m'.cell.bad from rfl, ← same]
        exact Cell.mark_bad pos page
      refine ⟨m, slot, (congrArg Cell.addr same).symm, (congrArg Cell.valid same).symm, marked, ?_⟩
      rw [(h'.pages _ _ _ slot').2, (h.pages _ _ _ slot).2]
      exact clearCount_marked marked
  · intro f m slot
    have cell := Sce.view_cell_some slot
    have gone : s'.slot i f = none ↔ s'.view.cell i f = none := by
      rw [Sce.view_cell]
      simp
    rw [gone, cells, cell, Option.bind_some]
    refine Iff.trans ?_ (Cell.goes_iff (c := m.cell) pos)
    split
    · rename_i goes
      exact iff_of_true rfl goes
    · rename_i stays
      exact iff_of_false (by simp) stays
  · intro f m slot gone
    have cell := Sce.view_cell_some slot
    have none_ : s'.view.cell i f = none := by
      rw [Sce.view_cell, gone]
      rfl
    rw [cells, cell, Option.bind_some] at none_
    have free : s'.view.free m.addr := by
      rw [view']
      refine Or.inr ⟨f, m.cell, cell, rfl, ?_⟩
      split at none_
      · rename_i goes
        exact goes
      · cases none_
    exact free
  · intro f clear
    have there := volumes i
    rw [lun] at there
    obtain ⟨l', lun', volume⟩ := Option.map_eq_some_iff.mp there
    have frags : l'.nrFrag = l.nrFrag := congrArg Volume.nrFrag volume
    by_cases low : f < l.nrFrag
    · have entry' : s'.entry i f = some (l'.fragmap f) := Sce.entry_eq_some.mpr ⟨l', lun', by omega, rfl⟩
      rw [entry', within.entry f _ entry' clear]
    · have none_ : ∀ {t : Sce} {m : Lun}, t.luntbl i = some m → m.nrFrag = l.nrFrag → t.entry i f = none := by
        intro t m here size
        simp [Sce.entry, here, size, low]
      rw [none_ lun' frags, none_ lun rfl]
  · intro j
    have kept := congrArg (Option.map Volume.service) (volumes j)
    rwa [Option.map_map, Option.map_map] at kept

/-- One device, a LUN of `m` sectors, and its first fragment populated. -/
def Sce.populated (m : Nat) : Sce := Sce.after
  [.addcdev 4096 7 true, .addlun m 9 true, .get4read 0 0 8, .get4pop fun _ _ => 0#32, .put4pop ⟨9, 7, 0, 0⟩ false]

theorem Sce.sceInvalidate_exact_populated : ∃ s', sceInvalidate (Sce.populated 4096) 0 0 2048 = .ok (.success, s') ∧
    (Sce.populated 4096).Invalidated s' 0 0 2048 := by
  have reached : (Sce.populated 4096).Reached := Sce.after_reached (by decide +kernel)
  obtain ⟨l, lun⟩ : ∃ l, (Sce.populated 4096).luntbl 0 = some l :=
    Option.isSome_iff_exists.mp (by decide +kernel)
  have fields : ((Sce.populated 4096).luntbl 0).map (fun l => (l.waiting4deletion, l.nrSctr)) = some (false, 4096) := by
    decide +kernel
  rw [lun] at fields
  obtain ⟨active, size⟩ := Prod.mk.inj (Option.some.inj fields)
  have returns : ((sceInvalidate (Sce.populated 4096) 0 0 2048).toOption.map Prod.fst) = some .success := by
    decide +kernel
  cases run : sceInvalidate (Sce.populated 4096) 0 0 2048 with
  | error e =>
    rw [run] at returns
    cases returns
  | ok p =>
    rw [run] at returns
    obtain ⟨r, s'⟩ := p
    obtain rfl : r = .success := Option.some.inj returns
    exact ⟨s', rfl, Sce.sceInvalidate_exact reached lun active (by decide) (by decide) (by rw [size]; decide)
        (by decide) run⟩

/-- A range past 2^43 sectors: the fragment number is cut to 32 bits, and another fragment is invalidated. -/
theorem Sce.invalidates_other : (Sce.populated (2 ^ 43 + 4096)).Reached ∧
    ((Sce.populated (2 ^ 43 + 4096)).luntbl 0).map (fun l => (l.waiting4deletion, l.nrSctr)) =
    some (false, 2 ^ 43 + 4096) ∧
    ∃ s', sceInvalidate (Sce.populated (2 ^ 43 + 4096)) 0 (2 ^ 43) 8 = .ok (.success, s') ∧
      ¬ (Sce.populated (2 ^ 43 + 4096)).Invalidated s' 0 (2 ^ 43) 8 := by
  refine ⟨Sce.after_reached (by decide +kernel), by decide +kernel, ?_⟩
  have returns : ((sceInvalidate (Sce.populated (2 ^ 43 + 4096)) 0 (2 ^ 43) 8).toOption.map fun p =>
      (p.1, (p.2.slot 0 0).map fun m => bitmapBit m.frag.bitmap 0)) = some (.success, some true) := by decide +kernel
  cases run : sceInvalidate (Sce.populated (2 ^ 43 + 4096)) 0 (2 ^ 43) 8 with
  | error e =>
    rw [run] at returns
    cases returns
  | ok p =>
    rw [run] at returns
    obtain ⟨r, s'⟩ := p
    obtain ⟨rfl, bit⟩ := Prod.mk.inj (Option.some.inj returns)
    refine ⟨s', rfl, fun exact => ?_⟩
    obtain ⟨m', slot', bad'⟩ := Option.map_eq_some_iff.mp bit
    obtain ⟨m, slot, _, _, marked, _⟩ := exact.marked 0 m' slot'
    have before : ((Sce.populated (2 ^ 43 + 4096)).slot 0 0).map (fun m => bitmapBit m.frag.bitmap 0) = some false := by
      decide +kernel
    rw [slot] at before
    rcases (marked 0 (by decide)).mp bad' with bad | ⟨t, lt, low, _⟩
    · cases bad.symm.trans (Option.some.inj before)
    · simp only [sceSctrPerPage, sceSctrPerFrag] at lt low
      omega

end Iostash
