import Iostash.Sce.Word
import Mathlib.Data.Finset.Card
import Mathlib.Order.Interval.Finset.Nat

/-!
# Page bitmaps

`_set_bitmap` and `_check_bitmap` of `sce_fragment.c` work a word at a time over the invalid-page
bitmap. `setBitmap_spec` and `checkBitmap_iff` say what they do to the page numbers.
-/

namespace Iostash

/-- `bitmap_t[]`: page `p` is bit `p % 32` of word `p / 32`; a set bit is an invalid page. -/
abbrev Bitmap := List Word

def bitmapBit (bm : Bitmap) (p : Nat) : Bool := (bm.getD (p / 32) 0#32).getLsbD (p % 32)

/-- The inner loop of `_set_bitmap`: the word, the pages left and the number newly set. -/
def setWord : Nat → Word → Word → Nat → Word × Nat × Nat
  | 0, b, _, nrSet => (b, 0, nrSet)
  | pgcnt + 1, b, mask, nrSet =>
    if mask = 0#32 then (b, pgcnt + 1, nrSet)
    else if b &&& mask = 0#32 then setWord pgcnt (b ||| mask) (mask <<< 1) (nrSet + 1)
    else setWord pgcnt b (mask <<< 1) nrSet

/-- The outer loop of `_set_bitmap`, on the words from the bitmap pointer on. -/
def setWords : Bitmap → Word → Nat → Nat → Except Fault (Bitmap × Nat)
  | bm, _, 0, nrSet => .ok (bm, nrSet)
  | [], _, _ + 1, _ => .error .outOfRange
  | b :: bm, mask, pgcnt + 1, nrSet => do
    let (b', pgcnt', nrSet') := setWord (pgcnt + 1) b mask nrSet
    let (bm', nr) ← setWords bm 1#32 pgcnt' nrSet'
    return (b' :: bm', nr)

/-- `_set_bitmap` -/
def setBitmap (bm : Bitmap) (pgnum pgcnt : Nat) : Except Fault (Bitmap × Nat) := do
  let w := pgnum / bitmapEntSize
  let (bm', nrSet) ← setWords (bm.drop w) (1#32 <<< (pgnum % bitmapEntSize)) pgcnt 0
  return (bm.take w ++ bm', nrSet)

/-- The word-by-word loop of `_check_bitmap`; its result is the number of pages not yet checked. -/
def checkWords : Bitmap → Nat → Nat → Except Fault Nat
  | _, _, 0 => .ok 0
  | [], _, _ + 1 => .error .outOfRange
  | b :: bm, offset, pgcnt + 1 =>
    let nrCheck := bitmapEntSize - offset
    let narrow := pgcnt + 1 < nrCheck
    let mask := BitVec.allOnes 32
    let mask := if narrow then mask >>> (bitmapEntSize - (pgcnt + 1)) else mask
    let nrCheck := if narrow then pgcnt + 1 else nrCheck
    let mask := mask <<< offset
    if b &&& mask ≠ 0#32 then .ok (pgcnt + 1)
    else checkWords bm 0 (pgcnt + 1 - nrCheck)

/-- `_check_bitmap` -/
def checkBitmap (bm : Bitmap) (pgnum pgcnt : Nat) : Except Fault Ret := do
  let bm := bm.drop (pgnum / bitmapEntSize)
  let offset := pgnum % bitmapEntSize
  if pgcnt = 1 then
    match bm with
    | [] => throw .outOfRange
    | b :: _ => return if b &&& (1#32 <<< offset) ≠ 0#32 then .error else .success
  else
    let left ← checkWords bm offset pgcnt
    return if 0 < left then .error else .success

/-- The number of clear bits among `cnt` from `lo` on. -/
def clearCount (f : Nat → Bool) (lo cnt : Nat) : Nat :=
  ((Finset.Ico lo (lo + cnt)).filter fun q => f q = false).card

/-! ### Counting clear bits -/

@[simp] theorem clearCount_zero (f : Nat → Bool) (lo : Nat) : clearCount f lo 0 = 0 := by
  simp [clearCount]

theorem clearCount_add (f : Nat → Bool) (lo a b : Nat) :
    clearCount f lo (a + b) = clearCount f lo a + clearCount f (lo + a) b := by
  unfold clearCount
  rw [← Finset.Ico_union_Ico_eq_Ico (show lo ≤ lo + a by omega) (show lo + a ≤ lo + (a + b) by omega),
    Finset.filter_union, Finset.card_union_of_disjoint, Nat.add_assoc]
  apply Finset.disjoint_filter_filter
  exact Finset.Ico_disjoint_Ico_consecutive _ _ _

theorem clearCount_succ (f : Nat → Bool) (lo c : Nat) :
    clearCount f lo (c + 1) = (if f lo then 0 else 1) + clearCount f (lo + 1) c := by
  rw [Nat.add_comm c 1, clearCount_add]
  congr 1
  cases h : f lo <;> simp [clearCount, Finset.filter_singleton, h]

theorem clearCount_congr {f g : Nat → Bool} {m n c : Nat}
    (h : ∀ t, t < c → f (m + t) = g (n + t)) : clearCount f m c = clearCount g n c := by
  induction c generalizing m n with
  | zero => simp
  | succ c ih =>
    have head := h 0 (by omega)
    simp only [Nat.add_zero] at head
    rw [clearCount_succ, clearCount_succ, head, ih]
    intro t ht
    have := h (t + 1) (by omega)
    rwa [Nat.add_comm t 1, ← Nat.add_assoc, ← Nat.add_assoc] at this

theorem clearCount_le (f : Nat → Bool) (lo c : Nat) : clearCount f lo c ≤ c := by
  unfold clearCount
  refine (Finset.card_filter_le _ _).trans ?_
  simp

theorem clearCount_eq_zero {f : Nat → Bool} {lo c : Nat} :
    clearCount f lo c = 0 ↔ ∀ q, lo ≤ q → q < lo + c → f q = true := by
  simp only [clearCount, Finset.card_eq_zero, Finset.filter_eq_empty_iff, Finset.mem_Ico,
    Bool.not_eq_false]
  exact ⟨fun h q h1 h2 => h ⟨h1, h2⟩, fun h q hq => h q hq.1 hq.2⟩

theorem clearCount_set {f g : Nat → Bool} {lo pg c n : Nat} (hlo : lo ≤ pg) (hn : pg + c ≤ lo + n)
    (h : ∀ q, lo ≤ q → q < lo + n → g q = (f q || (decide (pg ≤ q) && decide (q < pg + c)))) :
    clearCount g lo n + clearCount f pg c = clearCount f lo n := by
  have split : n = (pg - lo) + (c + (lo + n - (pg + c))) := by omega
  have at_pg : lo + (pg - lo) = pg := by omega
  rw [split, clearCount_add, clearCount_add, clearCount_add f, clearCount_add f, at_pg]
  have before : clearCount g lo (pg - lo) = clearCount f lo (pg - lo) := by
    apply clearCount_congr
    intro t ht
    rw [h _ (by omega) (by omega), decide_eq_false (by omega : ¬ pg ≤ lo + t)]
    simp
  have inside : clearCount g pg c = 0 := by
    rw [clearCount_eq_zero]
    intro q h1 h2
    rw [h q (by omega) (by omega), decide_eq_true h1, decide_eq_true h2]
    simp
  have after : clearCount g (pg + c) (lo + n - (pg + c)) = clearCount f (pg + c) (lo + n - (pg + c)) := by
    apply clearCount_congr
    intro t ht
    rw [h _ (by omega) (by omega), decide_eq_false (by omega : ¬ pg + c + t < pg + c)]
    simp
  omega

/-! ### One word -/

theorem mask_eq_zero {k : Nat} (h : k ≤ 32) : (1#32 <<< k = 0#32) ↔ k = 32 := by
  constructor
  · intro e
    by_contra ne
    have bit := congrArg (fun w => w.getLsbD k) e
    simp [show k < 32 by omega] at bit
  · rintro rfl
    decide

theorem and_mask_eq_zero {b : Word} {k : Nat} (h : k < 32) :
    (b &&& 1#32 <<< k = 0#32) ↔ b.getLsbD k = false := by
  constructor
  · intro e
    have bit := congrArg (fun w => w.getLsbD k) e
    simpa [h] using bit
  · intro e
    ext j hj
    by_cases hjk : j = k
    · subst hjk
      simp [← BitVec.getLsbD_eq_getElem, e]
    · by_cases lt : j < k
      · simp [lt]
      · simp [lt, show ¬ j - k = 0 by omega]

theorem getLsbD_or_mask {b : Word} {k j : Nat} (h : k < 32) :
    (b ||| 1#32 <<< k).getLsbD j = (b.getLsbD j || decide (j = k)) := by
  by_cases hj : j < 32
  · by_cases hjk : j = k
    · subst hjk
      simp [h]
    · by_cases lt : j < k
      · simp [hj, lt, hjk]
      · simp [hj, lt, hjk, show ¬ j - k = 0 by omega]
  · simp [BitVec.getLsbD_of_ge _ _ (Nat.le_of_not_lt hj), show ¬ j = k by omega]

theorem mask_shift (k : Nat) : (1#32 <<< k) <<< 1 = 1#32 <<< (k + 1) := by
  rw [BitVec.shiftLeft_add]

theorem setWord_spec (c : Nat) : ∀ (b : Word) (k n : Nat), k ≤ 32 →
    (setWord c b (1#32 <<< k) n).2.1 = c - (32 - k) ∧
    (setWord c b (1#32 <<< k) n).2.2 = n + clearCount b.getLsbD k (min c (32 - k)) ∧
    ∀ j, j < 32 → (setWord c b (1#32 <<< k) n).1.getLsbD j =
      (b.getLsbD j || (decide (k ≤ j) && decide (j < k + c))) := by
  induction c with
  | zero =>
    intro b k n hk
    refine ⟨by simp [setWord], by simp [setWord], ?_⟩
    intro j _
    simp only [setWord]
    rw [show (decide (k ≤ j) && decide (j < k + 0)) = false by
      simp only [Bool.and_eq_false_iff, decide_eq_false_iff_not]; omega]
    simp
  | succ c ih =>
    intro b k n hk
    unfold setWord
    by_cases hend : k = 32
    · rw [if_pos ((mask_eq_zero hk).mpr hend)]
      subst hend
      refine ⟨by simp, by simp, ?_⟩
      intro j hj
      simp [show ¬ 32 ≤ j by omega]
    · have hlt : k < 32 := by omega
      rw [if_neg fun e => hend ((mask_eq_zero hk).mp e), mask_shift]
      have room : min (c + 1) (32 - k) = min c (32 - (k + 1)) + 1 := by omega
      rw [room, clearCount_succ]
      by_cases bit : b.getLsbD k = false
      · rw [if_pos ((and_mask_eq_zero hlt).mpr bit)]
        obtain ⟨left, count, bits⟩ := ih (b ||| 1#32 <<< k) (k + 1) (n + 1) (by omega)
        refine ⟨by rw [left]; omega, ?_, ?_⟩
        · rw [count, bit, clearCount_congr (g := b.getLsbD) (n := k + 1)]
          · simp; omega
          · intro t _
            rw [getLsbD_or_mask hlt, decide_eq_false (by omega), Bool.or_false]
        · intro j hj
          rw [bits j hj, getLsbD_or_mask hlt]
          by_cases hjk : j = k
          · subst hjk; simp
          · rw [decide_eq_false hjk]
            have same : (decide (k + 1 ≤ j) && decide (j < k + 1 + c)) =
                (decide (k ≤ j) && decide (j < k + (c + 1))) := by
              rw [Bool.eq_iff_iff]; simp only [Bool.and_eq_true, decide_eq_true_eq]; omega
            rw [same, Bool.or_false]
      · rw [if_neg fun e => bit ((and_mask_eq_zero hlt).mp e)]
        have set : b.getLsbD k = true := by simpa using bit
        obtain ⟨left, count, bits⟩ := ih b (k + 1) n (by omega)
        refine ⟨by rw [left]; omega, ?_, ?_⟩
        · rw [count, set]; simp
        · intro j hj
          rw [bits j hj]
          by_cases hjk : j = k
          · subst hjk; simp [set]
          · have same : (decide (k + 1 ≤ j) && decide (j < k + 1 + c)) =
                (decide (k ≤ j) && decide (j < k + (c + 1))) := by
              rw [Bool.eq_iff_iff]; simp only [Bool.and_eq_true, decide_eq_true_eq]; omega
            rw [same]

/-! ### Whole bitmaps -/

theorem bitmapBit_cons (b : Word) (bm : Bitmap) (q : Nat) :
    bitmapBit (b :: bm) q = if q < 32 then b.getLsbD q else bitmapBit bm (q - 32) := by
  unfold bitmapBit
  split
  · rename_i h
    rw [show q / 32 = 0 by omega, show q % 32 = q by omega]
    rfl
  · rw [show q / 32 = (q - 32) / 32 + 1 by omega, show q % 32 = (q - 32) % 32 by omega]
    rfl

theorem bitmapBit_zero (q : Nat) : bitmapBit (List.replicate bitmapArraySize 0#32) q = false := by
  unfold bitmapBit
  rw [List.getD_eq_getElem?_getD, List.getElem?_replicate]
  split <;> simp

theorem bitmapBit_drop (bm : Bitmap) (w q : Nat) :
    bitmapBit (bm.drop w) q = bitmapBit bm (w * 32 + q) := by
  unfold bitmapBit
  rw [show (w * 32 + q) / 32 = w + q / 32 by omega, show (w * 32 + q) % 32 = q % 32 by omega]
  simp [List.getD_eq_getElem?_getD, List.getElem?_drop]

theorem bitmapBit_take_append (bm bm' : Bitmap) (w q : Nat) (hw : w ≤ bm.length) :
    bitmapBit (bm.take w ++ bm') q = if q < w * 32 then bitmapBit bm q else bitmapBit bm' (q - w * 32) := by
  unfold bitmapBit
  have len : (bm.take w).length = w := by simp [hw]
  split
  · rename_i h
    have hq : q / 32 < w := by omega
    simp only [List.getD_eq_getElem?_getD]
    rw [List.getElem?_append_left (by rw [len]; exact hq), List.getElem?_take_of_lt hq]
  · simp only [List.getD_eq_getElem?_getD]
    rw [List.getElem?_append_right (by rw [len]; omega), len, show (q - w * 32) / 32 = q / 32 - w by omega,
      show (q - w * 32) % 32 = q % 32 by omega]

theorem setWords_spec (bm : Bitmap) : ∀ (k c n : Nat), k < 32 → k + c ≤ 32 * bm.length →
    ∃ bm', setWords bm (1#32 <<< k) c n = .ok (bm', n + clearCount (bitmapBit bm) k c) ∧
      bm'.length = bm.length ∧
      ∀ q, bitmapBit bm' q = (bitmapBit bm q || (decide (k ≤ q) && decide (q < k + c))) := by
  induction bm with
  | nil =>
    intro k c n hk hc
    have hc0 : c = 0 := by simp at hc; omega
    subst hc0
    refine ⟨[], by simp [setWords], rfl, ?_⟩
    intro q
    rw [show (decide (k ≤ q) && decide (q < k + 0)) = false by
      simp only [Bool.and_eq_false_iff, decide_eq_false_iff_not]; omega, Bool.or_false]
  | cons b bm ih =>
    intro k c n hk hc
    cases c with
    | zero =>
      refine ⟨b :: bm, by simp [setWords], rfl, ?_⟩
      intro q
      rw [show (decide (k ≤ q) && decide (q < k + 0)) = false by
        simp only [Bool.and_eq_false_iff, decide_eq_false_iff_not]; omega, Bool.or_false]
    | succ c =>
      obtain ⟨left, count, bits⟩ := setWord_spec (c + 1) b k n (by omega)
      simp only [List.length_cons] at hc
      obtain ⟨bm', tail, len, rest⟩ := ih 0 (c + 1 - (32 - k))
        (setWord (c + 1) b (1#32 <<< k) n).2.2 (by omega) (by omega)
      have mask0 : 1#32 <<< 0 = 1#32 := rfl
      rw [mask0, count] at tail
      refine ⟨(setWord (c + 1) b (1#32 <<< k) n).1 :: bm', ?_, by simp [len], ?_⟩
      · simp only [setWords, left, tail, bind, Except.bind, pure, Except.pure, count]
        congr 2
        rw [Nat.add_assoc]
        congr 1
        -- the pages of the range split at the word boundary
        have cut : c + 1 = min (c + 1) (32 - k) + (c + 1 - (32 - k)) := by omega
        conv_rhs => rw [cut, clearCount_add]
        congr 1
        · apply clearCount_congr
          intro t ht
          rw [bitmapBit_cons, if_pos (by omega)]
        · by_cases fits : c + 1 ≤ 32 - k
          · rw [show c + 1 - (32 - k) = 0 by omega]; simp
          · apply clearCount_congr
            intro t ht
            rw [bitmapBit_cons, if_neg (by omega)]
            congr 1
            omega
      · intro q
        rw [bitmapBit_cons, bitmapBit_cons]
        split
        · rename_i hq
          rw [bits q hq]
        · rename_i hq
          rw [rest]
          congr 1
          rw [Bool.eq_iff_iff]
          simp only [Bool.and_eq_true, decide_eq_true_eq]
          omega

/-- `_set_bitmap` sets exactly the pages of the range and returns how many were clear. -/
theorem setBitmap_spec {bm : Bitmap} {pgnum pgcnt : Nat} (h : pgnum + pgcnt ≤ 32 * bm.length) :
    ∃ bm', setBitmap bm pgnum pgcnt = .ok (bm', clearCount (bitmapBit bm) pgnum pgcnt) ∧
      bm'.length = bm.length ∧
      ∀ q, bitmapBit bm' q = (bitmapBit bm q || (decide (pgnum ≤ q) && decide (q < pgnum + pgcnt))) := by
  have hw : pgnum / 32 ≤ bm.length := by omega
  obtain ⟨bm', eq, len, bits⟩ := setWords_spec (bm.drop (pgnum / 32)) (pgnum % 32) pgcnt 0
    (Nat.mod_lt _ (by decide)) (by rw [List.length_drop]; omega)
  refine ⟨bm.take (pgnum / 32) ++ bm', ?_, by simp [len, hw], ?_⟩
  · simp only [setBitmap, bitmapEntSize, eq, bind, Except.bind, pure, Except.pure, Nat.zero_add]
    congr 2
    apply clearCount_congr
    intro t _
    rw [bitmapBit_drop]
    congr 1
    omega
  · intro q
    rw [bitmapBit_take_append _ _ _ _ hw]
    split
    · rename_i hq
      rw [decide_eq_false (by omega : ¬ pgnum ≤ q)]
      simp
    · rename_i hq
      rw [bits, bitmapBit_drop]
      congr 1
      · congr 1
        omega
      · rw [Bool.eq_iff_iff]
        simp only [Bool.and_eq_true, decide_eq_true_eq]
        omega

/-! ### Checking a range -/

/-- The mask of the pages `offset ≤ j < offset + n` of one word. -/
theorem getLsbD_mask {offset n j : Nat} (hle : offset + n ≤ 32) (hj : j < 32) :
    ((BitVec.allOnes 32 >>> (32 - n)) <<< offset).getLsbD j =
      (decide (offset ≤ j) && decide (j < offset + n)) := by
  simp only [BitVec.getLsbD_shiftLeft, BitVec.getLsbD_ushiftRight, BitVec.getLsbD_allOnes, hj,
    decide_true, Bool.true_and]
  rw [Bool.eq_iff_iff]
  simp only [Bool.and_eq_true, decide_eq_true_eq, Bool.not_eq_true', decide_eq_false_iff_not]
  omega

theorem and_eq_zero_iff {b m : Word} :
    b &&& m = 0#32 ↔ ∀ j, j < 32 → m.getLsbD j = true → b.getLsbD j = false := by
  constructor
  · intro e j hj hm
    have bit := congrArg (fun w => w.getLsbD j) e
    simp only [BitVec.getLsbD_and, hm, Bool.and_true] at bit
    simpa using bit
  · intro h
    ext j hj
    have := h j hj
    simp only [BitVec.getLsbD_eq_getElem hj] at this
    simp only [BitVec.getElem_and, BitVec.getElem_zero, Bool.and_eq_false_iff]
    cases hm : m[j] with
    | true => exact Or.inl (this hm)
    | false => exact Or.inr rfl

theorem checkWords_spec (bm : Bitmap) : ∀ (offset c : Nat), offset < 32 → offset + c ≤ 32 * bm.length →
    ∃ left, checkWords bm offset c = .ok left ∧
      (left = 0 ↔ ∀ q, offset ≤ q → q < offset + c → bitmapBit bm q = false) := by
  induction bm with
  | nil =>
    intro offset c ho hc
    have hc0 : c = 0 := by simp at hc; omega
    subst hc0
    exact ⟨0, rfl, by simp; intro q _ _; omega⟩
  | cons b bm ih =>
    intro offset c ho hc
    cases c with
    | zero => exact ⟨0, rfl, by simp; intro q _ _; omega⟩
    | succ c =>
      simp only [List.length_cons] at hc
      -- the pages this word is checked for
      obtain ⟨n, hn⟩ : ∃ n, n = min (c + 1) (32 - offset) := ⟨_, rfl⟩
      have mask : (if c + 1 < 32 - offset then BitVec.allOnes 32 >>> (32 - (c + 1)) else BitVec.allOnes 32)
          <<< offset = (BitVec.allOnes 32 >>> (32 - n)) <<< offset := by
        split
        · rw [show n = c + 1 by omega]
        · rename_i wide
          ext j hj
          by_cases lt : j < offset
          · simp [lt]
          · simp only [BitVec.getElem_shiftLeft, lt, decide_false, Bool.not_false, Bool.true_and,
              BitVec.getElem_ushiftRight, BitVec.getElem_allOnes, BitVec.getLsbD_allOnes]
            exact (decide_eq_true (by omega)).symm
      have checked : (if c + 1 < 32 - offset then c + 1 else 32 - offset) = n := by split <;> omega
      simp only [checkWords, bitmapEntSize, mask, checked]
      by_cases clean : b &&& (BitVec.allOnes 32 >>> (32 - n)) <<< offset = 0#32
      · rw [if_neg (by simpa using clean)]
        obtain ⟨left, eq, iff⟩ := ih 0 (c + 1 - n) (by omega) (by omega)
        refine ⟨left, eq, iff.trans ?_⟩
        rw [and_eq_zero_iff] at clean
        constructor
        · intro rest q h1 h2
          rw [bitmapBit_cons]
          split
          · rename_i hq
            exact clean q hq (by rw [getLsbD_mask (by omega) hq]; simp; omega)
          · exact rest (q - 32) (by omega) (by omega)
        · intro all q _ h2
          have := all (q + 32) (by omega) (by omega)
          rwa [bitmapBit_cons, if_neg (by omega), Nat.add_sub_cancel] at this
      · rw [if_pos (by simpa using clean)]
        refine ⟨c + 1, rfl, ⟨fun e => absurd e (by omega), fun all => absurd ?_ clean⟩⟩
        rw [and_eq_zero_iff]
        intro j hj hm
        rw [getLsbD_mask (by omega) hj] at hm
        simp only [Bool.and_eq_true, decide_eq_true_eq] at hm
        have := all j (by omega) (by omega)
        rwa [bitmapBit_cons, if_pos hj] at this

/-- `_check_bitmap` succeeds exactly when no page of the range is set. -/
theorem checkBitmap_iff {bm : Bitmap} {pgnum pgcnt : Nat} (hc : 0 < pgcnt)
    (h : pgnum + pgcnt ≤ 32 * bm.length) :
    ∃ r, checkBitmap bm pgnum pgcnt = .ok r ∧
      (r = .success ↔ ∀ q, pgnum ≤ q → q < pgnum + pgcnt → bitmapBit bm q = false) := by
  have hlen : (bm.drop (pgnum / 32)).length = bm.length - pgnum / 32 := List.length_drop
  by_cases one : pgcnt = 1
  · cases hd : bm.drop (pgnum / 32) with
    | nil => rw [hd] at hlen; simp at hlen; omega
    | cons b rest =>
      have bit : bitmapBit bm pgnum = b.getLsbD (pgnum % 32) := by
        have := bitmapBit_drop bm (pgnum / 32) (pgnum % 32)
        rw [hd, bitmapBit_cons, if_pos (Nat.mod_lt _ (by decide))] at this
        rw [this]
        congr 1
        omega
      refine ⟨if b &&& (1#32 <<< (pgnum % 32)) ≠ 0#32 then .error else .success, ?_, ?_⟩
      · simp only [checkBitmap, bitmapEntSize, one, hd]
        rfl
      · have clear := and_mask_eq_zero (b := b) (Nat.mod_lt pgnum (show 0 < 32 by decide))
        rw [← bit] at clear
        constructor
        · intro e q h1 h2
          have hq : q = pgnum := by omega
          subst hq
          by_contra set
          rw [if_pos (fun z => set (clear.mp z))] at e
          cases e
        · intro all
          rw [if_neg (by simpa using clear.mpr (all pgnum (by omega) (by omega)))]
  · obtain ⟨left, eq, iff⟩ := checkWords_spec (bm.drop (pgnum / 32)) (pgnum % 32) pgcnt
      (Nat.mod_lt _ (by decide)) (by rw [hlen]; omega)
    refine ⟨if 0 < left then .error else .success, ?_, ?_⟩
    · simp only [checkBitmap, bitmapEntSize, if_neg one, eq]
      rfl
    · have ret : (if 0 < left then Ret.error else Ret.success) = .success ↔ left = 0 := by
        split <;> simp <;> omega
      rw [ret, iff]
      constructor
      · intro all q h1 h2
        have := all (q - pgnum / 32 * 32) (by omega) (by omega)
        rwa [bitmapBit_drop, show pgnum / 32 * 32 + (q - pgnum / 32 * 32) = q by omega] at this
      · intro all q h1 h2
        rw [bitmapBit_drop]
        exact all _ (by omega) (by omega)

end Iostash
