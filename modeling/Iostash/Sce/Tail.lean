import Iostash.Sce.Populating
import Iostash.Sce.Runs

/-!
# The last fragment of a LUN

`_lun_init` rounds the size of a LUN up to fragments, and `_map_frag` rounds what the last fragment has too
much up to pages. It computes the size of all fragments in 32 bits.
-/

namespace Iostash

/-- All sectors of page `p` of fragment `k` lie inside a LUN of `nrSctr` sectors. -/
def pageInside (nrSctr k p : Nat) : Prop :=
  ∀ t, t < sceSctrPerPage → k * sceSctrPerFrag + p * sceSctrPerPage + t < nrSctr

instance (nrSctr k : Nat) : DecidablePred (pageInside nrSctr k) := fun _ => Nat.decidableBallLT _ _

/-- Fragment `k` of LUN `i` is mapped, and its valid pages are the ones that lie inside the LUN. -/
def Sce.MarksInside (s : Sce) (i k nrSctr : Nat) : Prop :=
  ∃ m, s.slot i k = some m ∧
    (∀ p, p < scePagePerFrag → (bitmapBit m.frag.bitmap p = false ↔ pageInside nrSctr k p)) ∧
    m.frag.nrValid = ((Finset.range scePagePerFrag).filter (pageInside nrSctr k)).card

variable {s s' : Sce} {i k m n p : Nat} {pfid : Word} {l l₀ : Lun}

theorem pageInside_iff : pageInside m k p ↔ (k * 256 + p + 1) * 8 ≤ m := by
  unfold pageInside
  simp only [sceSctrPerPage, sceSctrPerFrag]
  constructor
  · intro inside
    have := inside 7 (by decide)
    omega
  · intro le t lt
    omega

/-- Below 2^43 sectors the number of fragments fits in 32 bits. -/
theorem lunInit_size (small : m < 2 ^ 43) (init : lunInit m true = some l₀) :
    l₀.nrSctr = m ∧ l₀.nrFrag = (m + 2047) / 2048 ∧ 0 < l₀.nrFrag ∧ l₀.nrFrag < 2 ^ 32 := by
  simp only [lunInit, sceSctrPerFrag, true_and] at init
  rw [u64_of_lt (by omega), show m + 2048 - 1 = m + 2047 from rfl] at init
  split at init
  · rename_i size
    obtain rfl := Option.some.inj init
    have le : (m + 2047) / 2048 ≤ 2 ^ 32 := by omega
    have fits : (m + 2047) / 2048 < 2 ^ 32 := by
      refine lt_of_le_of_ne le fun full => size ?_
      rw [full]
      decide
    rw [u32_of_lt fits] at size ⊢
    exact ⟨rfl, rfl, Nat.pos_of_ne_zero size, fits⟩
  · cases init

/-- The pages `_map_frag` invalidates are the ones outside the LUN, unless the size of the last fragment's
LUN wraps. -/
theorem tailBad_outside (size : n = (m + 2047) / 2048) (limit : n < 2 ^ 32) (inside : k < n) :
    (∀ p, p < scePagePerFrag → (View.tailBad m n k p = false ↔ pageInside m k p)) ↔
      n * sceSctrPerFrag < 2 ^ 32 ∨ k ≠ n - 1 ∨ sceSctrPerFrag ∣ m := by
  simp only [pageInside_iff, View.tailBad, scePagePerFrag, sceSctrPerPage, sceSctrPerFrag, ← Bool.not_eq_true,
    Bool.and_eq_true, decide_eq_true_eq]
  constructor
  · intro exact
    by_contra wraps
    obtain ⟨wide, last, ragged⟩ : 2 ^ 32 ≤ n * 2048 ∧ k = n - 1 ∧ ¬ 2048 ∣ m := by
      refine ⟨by omega, by omega, fun whole => wraps (Or.inr (Or.inr whole))⟩
    -- the last page reaches past the end
    have last_page := exact 255 (by decide)
    have low : u32 (n * 2048) ≤ 2 ^ 32 - 2048 := by
      unfold u32
      omega
    omega
  · rintro cond p page
    by_cases last : k = n - 1
    · rcases cond with narrow | other | whole
      · rw [u32_of_lt narrow]
        omega
      · exact absurd last other
      · have low := Nat.mod_le (n * 2048) (2 ^ 32)
        unfold u32
        omega
    · omega

theorem mapFrag_slot (lun : s.luntbl i = some l) (small : l.nrSctr < 2 ^ 43)
    (init : lunInit l.nrSctr true = some l₀) (size : l.nrFrag = l₀.nrFrag) (inside : k < l.nrFrag)
    (unmapped : isMapped (l.fragmap k) = false) (valid : s.isvalidpfid pfid = true) :
    ∃ s' g, mapFrag s i k pfid = .ok (.success, s') ∧ s'.slot i k = some ⟨phys pfid, false, g⟩ ∧
      bitmapBit g.bitmap = View.tailBad l.nrSctr l.nrFrag k ∧
      g.nrValid = clearCount (bitmapBit g.bitmap) 0 scePagePerFrag := by
  obtain ⟨-, frags, pos, limit⟩ := lunInit_size small init
  rw [← size] at frags pos limit
  have rounded : l.nrFrag = u32 ((l.nrSctr + (sceSctrPerFrag - 1)) / sceSctrPerFrag) := by
    simp only [sceSctrPerFrag]
    rw [frags, u32_of_lt (by omega)]
  obtain ⟨g, start, _, _, _, count, bits⟩ := mapFragInit_spec (f := k) pos rounded
  obtain ⟨g₀, frag⟩ := Option.isSome_iff_exists.mp (Sce.isvalidpfid_iff.mp valid)
  obtain ⟨w, hw⟩ : ∃ w, w = fragdescMapped ||| (pfid &&& fragdescDatamask) := ⟨_, rfl⟩
  refine ⟨(s.modifyFrag (phys pfid) fun _ => { g with lunidx := i, fragnum := k }).setDesc i k w,
    { g with lunidx := i, fragnum := k }, ?_, ?_, bits, count⟩
  · simp only [mapFrag, lun, if_neg (Nat.not_le.mpr inside), valid, unmapped, Sce.pfid2frag, frag, start, bind,
      Except.bind, pure, Except.pure, hw]
    rfl
  · refine Sce.slot_eq_some.mpr ⟨{ l with fragmap := fun j => if j = k then w else l.fragmap j }, ?_, inside, ?_, ?_,
      ?_, ?_⟩
    · simp [Sce.setDesc, lun]
    · simp [hw]
    · simp [hw]
    · simp [hw]
    · simp [frag]

/-- After a successful `_map_frag` the valid pages are the ones inside the LUN, exactly when the size in
sectors of all fragments fits in 32 bits, the fragment is not the last, or the last one is full. -/
theorem mapFrag_marks_iff (lun : s.luntbl i = some l) (small : l.nrSctr < 2 ^ 43)
    (init : lunInit l.nrSctr true = some l₀) (size : l.nrFrag = l₀.nrFrag) (inside : k < l.nrFrag)
    (unmapped : isMapped (l.fragmap k) = false) (valid : s.isvalidpfid pfid = true) :
    ∃ s', mapFrag s i k pfid = .ok (.success, s') ∧ (s'.MarksInside i k l.nrSctr ↔
      l.nrFrag * sceSctrPerFrag < 2 ^ 32 ∨ k ≠ l.nrFrag - 1 ∨ sceSctrPerFrag ∣ l.nrSctr) := by
  obtain ⟨s', g, run, slot, bits, count⟩ := mapFrag_slot lun small init size inside unmapped valid
  obtain ⟨-, frags, -, limit⟩ := lunInit_size small init
  have exact := tailBad_outside (size.trans frags) (size ▸ limit) inside
  rw [← bits] at exact
  refine ⟨s', run, ?_⟩
  unfold Sce.MarksInside
  rw [slot]
  constructor
  · rintro ⟨_, same, pages, _⟩
    obtain rfl := Option.some.inj same
    exact exact.mp pages
  · intro cond
    refine ⟨_, rfl, exact.mpr cond, ?_⟩
    show g.nrValid = _
    rw [count, clearCount, Nat.zero_add, Finset.range_eq_Ico]
    congr 1
    refine Finset.filter_congr fun p member => ?_
    exact exact.mpr cond p (Finset.mem_Ico.mp member).2

/-- One device, and a LUN of 2^32 - 8 sectors: the last of its fragments has 255 pages. -/
def Sce.bigLun : Sce := Sce.after [.addcdev 2048 7 true, .addlun (2 ^ 32 - 8) 8 true]

theorem Sce.bigLun_lun (k : Nat) : ∃ l l₀, Sce.bigLun.luntbl 0 = some l ∧ lunInit (2 ^ 32 - 8) true = some l₀ ∧
    l.nrSctr = 2 ^ 32 - 8 ∧ l.nrFrag = 2 ^ 21 ∧ l₀.nrFrag = 2 ^ 21 ∧ isMapped (l.fragmap k) = false := by
  refine ⟨_, _, rfl, rfl, rfl, ?_, ?_, (by decide : isMapped 0x55555555#32 = false)⟩
  · decide +kernel
  · decide +kernel

theorem mapFrag_marks_bigLun : ∃ s', mapFrag Sce.bigLun 0 0 0#32 = .ok (.success, s') ∧
    (s'.MarksInside 0 0 (2 ^ 32 - 8) ↔ 2 ^ 21 * sceSctrPerFrag < 2 ^ 32 ∨ 0 ≠ 2 ^ 21 - 1 ∨
    sceSctrPerFrag ∣ 2 ^ 32 - 8) := by
  obtain ⟨l, l₀, lun, init, sctrs, frags, frags₀, unmapped⟩ := Sce.bigLun_lun 0
  have valid : Sce.bigLun.isvalidpfid 0#32 = true := by decide +kernel
  have run := mapFrag_marks_iff lun (by rw [sctrs]; decide) (sctrs ▸ init) (frags.trans frags₀.symm)
    (by rw [frags]; decide) unmapped valid
  rwa [sctrs, frags] at run

/-- The size of all fragments wraps to 0, and the page past the end stays valid. -/
theorem mapFrag_overruns : ∃ s', mapFrag Sce.bigLun 0 (2 ^ 21 - 1) 0#32 = .ok (.success, s') ∧
    ¬ s'.MarksInside 0 (2 ^ 21 - 1) (2 ^ 32 - 8) := by
  obtain ⟨l, l₀, lun, init, sctrs, frags, frags₀, unmapped⟩ := Sce.bigLun_lun (2 ^ 21 - 1)
  have valid : Sce.bigLun.isvalidpfid 0#32 = true := by decide +kernel
  obtain ⟨s', g, run, slot, bits, _⟩ := mapFrag_slot lun (by rw [sctrs]; decide) (sctrs ▸ init)
    (frags.trans frags₀.symm) (by rw [frags]; decide) unmapped valid
  refine ⟨s', run, ?_⟩
  rintro ⟨_, same, pages, _⟩
  obtain rfl := Option.some.inj (slot.symm.trans same)
  have page := pages 255 (by decide)
  rw [bits, sctrs, frags, pageInside_iff] at page
  exact absurd (page.mp (by decide)) (by decide)

end Iostash
