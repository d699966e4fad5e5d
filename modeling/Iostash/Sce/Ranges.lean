import Iostash.Sce.Bitmap

/-!
# Ranges of a bitmap

`_reset_bitmap` is `_set_bitmap` of the complement, and `_check_bitmap` reads the words of its range only.
So the three operations of `sce_fragment.c` agree with what they are page by page.
-/

namespace Iostash

/-- Conversion to `int`. -/
def int32 (n : Nat) : Int := (BitVec.ofNat 32 n).toInt

theorem int32_of_lt {n : Nat} (small : n < 2 ^ 31) : int32 n = n := by
  unfold int32
  rw [BitVec.toInt_eq_toNat_of_lt (by rw [BitVec.toNat_ofNat]; omega), BitVec.toNat_ofNat,
    Nat.mod_eq_of_lt (by omega)]

/-! ### `_reset_bitmap` -/

/-- The inner loop of `_reset_bitmap`: the word, the pages left and the number newly clear. -/
def resetWord : Nat → Word → Word → Nat → Word × Nat × Nat
  | 0, b, _, nrReset => (b, 0, nrReset)
  | pgcnt + 1, b, mask, nrReset =>
    if mask = 0#32 then (b, pgcnt + 1, nrReset)
    else if b &&& mask ≠ 0#32 then resetWord pgcnt (b &&& ~~~mask) (mask <<< 1) (nrReset + 1)
    else resetWord pgcnt b (mask <<< 1) nrReset

/-- The outer loop of `_reset_bitmap`, on the words from the bitmap pointer on. -/
def resetWords : Bitmap → Word → Nat → Nat → Except Fault (Bitmap × Nat)
  | bm, _, 0, nrReset => .ok (bm, nrReset)
  | [], _, _ + 1, _ => .error .outOfRange
  | b :: bm, mask, pgcnt + 1, nrReset => do
    let (b', pgcnt', nrReset') := resetWord (pgcnt + 1) b mask nrReset
    let (bm', nr) ← resetWords bm 1#32 pgcnt' nrReset'
    return (b' :: bm', nr)

/-- `_reset_bitmap` -/
def resetBitmap (bm : Bitmap) (pgnum pgcnt : Nat) : Except Fault (Bitmap × Int) := do
  let w := pgnum / bitmapEntSize
  let (bm', nrReset) ← resetWords (bm.drop w) (1#32 <<< (pgnum % bitmapEntSize)) pgcnt 0
  return (bm.take w ++ bm', int32 nrReset)

/-- `_set_bitmap`, with the `int` it returns. -/
def setBitmapInt (bm : Bitmap) (pgnum pgcnt : Nat) : Except Fault (Bitmap × Int) := do
  let (bm', nrSet) ← setBitmap bm pgnum pgcnt
  return (bm', int32 nrSet)

/-- The number of set bits among `cnt` from `lo` on. -/
def setCount (f : Nat → Bool) (lo cnt : Nat) : Nat :=
  ((Finset.Ico lo (lo + cnt)).filter fun q => f q = true).card

/-- All words complemented. -/
def complement (bm : Bitmap) : Bitmap := bm.map fun b => ~~~b

theorem bitmapBit_complement (bm : Bitmap) (q : Nat) :
    bitmapBit (complement bm) q = (decide (q < 32 * bm.length) && !bitmapBit bm q) := by
  unfold bitmapBit complement
  rw [List.getD_eq_getElem?_getD, List.getElem?_map, List.getD_eq_getElem?_getD]
  by_cases inside : q < 32 * bm.length
  · rw [List.getElem?_eq_getElem (show q / 32 < bm.length by omega)]
    simp [inside, Nat.mod_lt]
  · rw [List.getElem?_eq_none (show bm.length ≤ q / 32 by omega)]
    simp [inside]

theorem complement_complement (bm : Bitmap) : complement (complement bm) = bm := by
  unfold complement
  rw [List.map_map]
  exact (List.map_congr_left fun _ _ => BitVec.not_not).trans (List.map_id bm)

theorem setCount_complement {bm : Bitmap} {lo c : Nat} (inside : lo + c ≤ 32 * bm.length) :
    clearCount (bitmapBit (complement bm)) lo c = setCount (bitmapBit bm) lo c := by
  unfold clearCount setCount
  congr 1
  apply Finset.filter_congr
  intro q member
  have less := (Finset.mem_Ico.mp member).2
  rw [bitmapBit_complement, decide_eq_true (by omega)]
  simp

theorem resetWord_eq (c : Nat) : ∀ (b : Word) (k n : Nat), k ≤ 32 → resetWord c b (1#32 <<< k) n =
    (~~~(setWord c (~~~b) (1#32 <<< k) n).1, (setWord c (~~~b) (1#32 <<< k) n).2) := by
  induction c with
  | zero =>
    intro b k n _
    simp [resetWord, setWord]
  | succ c ih =>
    intro b k n hk
    unfold resetWord setWord
    by_cases last : k = 32
    · rw [if_pos ((mask_eq_zero hk).mpr last), if_pos ((mask_eq_zero hk).mpr last)]
      simp
    · have lt : k < 32 := by omega
      have more : ¬ (1#32 <<< k = 0#32) := fun e => last ((mask_eq_zero hk).mp e)
      rw [if_neg more, if_neg more, mask_shift]
      by_cases bit : b.getLsbD k = false
      · have clear : ¬ (~~~b &&& 1#32 <<< k = 0#32) := by
          rw [and_mask_eq_zero lt, BitVec.getLsbD_not, bit]
          simp [lt]
        rw [if_neg (not_not.mpr ((and_mask_eq_zero lt).mpr bit)), if_neg clear]
        exact ih b (k + 1) n (by omega)
      · have clear : ~~~b &&& 1#32 <<< k = 0#32 := by
          rw [and_mask_eq_zero lt, BitVec.getLsbD_not, Bool.eq_true_of_not_eq_false bit]
          simp
        have same : ~~~(b &&& ~~~(1#32 <<< k)) = ~~~b ||| 1#32 <<< k := by
          rw [BitVec.not_and, BitVec.not_not]
        rw [if_pos fun e => bit ((and_mask_eq_zero lt).mp e), if_pos clear, ih _ (k + 1) (n + 1) (by omega), same]

theorem resetWords_eq (bm : Bitmap) : ∀ (k c n : Nat), k ≤ 32 → resetWords bm (1#32 <<< k) c n =
    (setWords (complement bm) (1#32 <<< k) c n).map fun r => (complement r.1, r.2) := by
  induction bm with
  | nil =>
    intro k c n _
    cases c <;> rfl
  | cons b bm ih =>
    intro k c n hk
    cases c with
    | zero =>
      show Except.ok (b :: bm, n) = Except.ok (complement (complement (b :: bm)), n)
      rw [complement_complement]
    | succ c =>
      obtain ⟨r, same⟩ : ∃ r, r = setWord (c + 1) (~~~b) (1#32 <<< k) n := ⟨_, rfl⟩
      have word := resetWord_eq (c + 1) b k n hk
      have rest := ih 0 r.2.1 r.2.2 (Nat.zero_le 32)
      rw [← same] at word
      rw [show 1#32 <<< 0 = 1#32 from rfl] at rest
      rw [resetWords, show complement (b :: bm) = ~~~b :: complement bm from rfl, setWords]
      simp only [word, ← same, rest]
      cases setWords (complement bm) 1#32 r.2.1 r.2.2 <;> rfl

theorem resetBitmap_eq (bm : Bitmap) (pgnum pgcnt : Nat) : resetBitmap bm pgnum pgcnt =
    (setBitmapInt (complement bm) pgnum pgcnt).map fun r => (complement r.1, r.2) := by
  have drop : complement (bm.drop (pgnum / 32)) = (complement bm).drop (pgnum / 32) := List.map_drop
  have take : complement (bm.take (pgnum / 32)) = (complement bm).take (pgnum / 32) := List.map_take
  unfold resetBitmap setBitmapInt setBitmap
  simp only [bitmapEntSize]
  rw [resetWords_eq _ _ _ _ (Nat.le_of_lt (Nat.mod_lt pgnum (by decide))), drop]
  cases setWords ((complement bm).drop (pgnum / 32)) (1#32 <<< (pgnum % 32)) pgcnt 0 with
  | error e => rfl
  | ok r =>
    have parts : complement ((complement bm).take (pgnum / 32) ++ r.1) = bm.take (pgnum / 32) ++ complement r.1 := by
      rw [complement, List.map_append, ← take]
      exact congrArg (· ++ _) (complement_complement _)
    exact congrArg (fun bm => Except.ok (bm, int32 r.2)) parts.symm

/-- `_reset_bitmap` clears exactly the pages of the range and returns how many were set. -/
theorem resetBitmap_spec {bm : Bitmap} {pgnum pgcnt : Nat} (inside : pgnum + pgcnt ≤ 32 * bm.length) :
    ∃ bm', resetBitmap bm pgnum pgcnt = .ok (bm', int32 (setCount (bitmapBit bm) pgnum pgcnt)) ∧
      bm'.length = bm.length ∧
      ∀ q, bitmapBit bm' q = (bitmapBit bm q && !(decide (pgnum ≤ q) && decide (q < pgnum + pgcnt))) := by
  have size : (complement bm).length = bm.length := List.length_map _
  have fits : pgnum + pgcnt ≤ 32 * (complement bm).length := by
    rw [size]
    exact inside
  obtain ⟨bm', run, len, bits⟩ := setBitmap_spec fits
  refine ⟨complement bm', ?_, ?_, ?_⟩
  · rw [resetBitmap_eq, setBitmapInt, run, setCount_complement inside]
    rfl
  · rw [complement, List.length_map, len, size]
  · intro q
    rw [bitmapBit_complement, bits, bitmapBit_complement, len, size]
    by_cases lt : q < 32 * bm.length
    · rw [decide_eq_true lt]
      cases bitmapBit bm q <;> simp
    · have outside : bitmapBit bm q = false := by
        unfold bitmapBit
        rw [List.getD_eq_getElem?_getD, List.getElem?_eq_none (by omega)]
        simp
      rw [decide_eq_false lt, outside]
      rfl

/-! ### What `_check_bitmap` reads -/

/-- A bitmap in memory, of which some words cannot be read. -/
abbrev Memory := List (Option Word)

/-- The words from a place on, as far as they can be read. -/
def Memory.readable (ws : Memory) (w : Nat) : Bitmap := ((ws.drop w).takeWhile Option.isSome).filterMap id

/-- `_check_bitmap` of a bitmap in memory. It reads one word after another, from the one of the first page on. -/
def checkBitmapIn (ws : Memory) (pgnum pgcnt : Nat) : Except Fault Ret :=
  checkBitmap (ws.readable (pgnum / bitmapEntSize)) (pgnum % bitmapEntSize) pgcnt

/-- The words of the range can be read, and are those of the bitmap. -/
def Memory.Shows (ws : Memory) (bm : Bitmap) (pgnum pgcnt : Nat) : Prop :=
  ∀ i, pgnum / 32 ≤ i → i * 32 < pgnum + pgcnt → ws[i]? = bm[i]?.map some

theorem readable_getElem? : ∀ {ws : Memory} {bm : Bitmap} {i : Nat}, (∀ j ≤ i, ws[j]? = bm[j]?.map some) →
    ((ws.takeWhile Option.isSome).filterMap id)[i]? = bm[i]? := by
  intro ws
  induction ws with
  | nil =>
    intro bm i shown
    cases bm with
    | nil => rfl
    | cons b bm => cases shown 0 (Nat.zero_le i)
  | cons w ws ih =>
    intro bm i shown
    cases bm with
    | nil => cases shown 0 (Nat.zero_le i)
    | cons b bm =>
      obtain rfl : w = some b := Option.some.inj (shown 0 (Nat.zero_le i))
      rw [List.takeWhile_cons_of_pos rfl, List.filterMap_cons_some (f := id) (b := b) rfl]
      cases i with
      | zero => rfl
      | succ i => exact ih fun j le => shown (j + 1) (Nat.succ_le_succ le)

/-- The loop reads no word behind its range. -/
theorem checkWords_congr {bm : Bitmap} : ∀ {bm' : Bitmap} {offset c : Nat}, offset < 32 →
    (∀ i, i * 32 < offset + c → bm'[i]? = bm[i]?) → checkWords bm' offset c = checkWords bm offset c := by
  induction bm with
  | nil =>
    intro bm' offset c low same
    cases c with
    | zero => cases bm' <;> rfl
    | succ c =>
      have head := same 0 (by omega)
      cases bm' with
      | nil => rfl
      | cons b' bm' => cases head
  | cons b bm ih =>
    intro bm' offset c low same
    cases c with
    | zero => cases bm' <;> rfl
    | succ c =>
      have head := same 0 (by omega)
      cases bm' with
      | nil => cases head
      | cons b' bm' =>
        obtain rfl : b' = b := Option.some.inj head
        have rest : checkWords bm' 0 (c + 1 - if c + 1 < 32 - offset then c + 1 else 32 - offset) =
            checkWords bm 0 (c + 1 - if c + 1 < 32 - offset then c + 1 else 32 - offset) := by
          apply ih (by decide)
          intro i less
          exact same (i + 1) (by split at less <;> omega)
        rw [checkWords, checkWords]
        simp only [bitmapEntSize]
        rw [rest]

/-- `_check_bitmap` reads no word outside its range. -/
theorem checkBitmapIn_eq {bm : Bitmap} {ws : Memory} {pgnum pgcnt : Nat} (shown : ws.Shows bm pgnum pgcnt) :
    checkBitmapIn ws pgnum pgcnt = checkBitmap bm pgnum pgcnt := by
  have low : pgnum % 32 < 32 := Nat.mod_lt _ (by decide)
  have same : ∀ i, i * 32 < pgnum % 32 + pgcnt → (ws.readable (pgnum / 32))[i]? = (bm.drop (pgnum / 32))[i]? := by
    intro i less
    apply readable_getElem?
    intro j le
    rw [List.getElem?_drop, List.getElem?_drop]
    exact shown (pgnum / 32 + j) (Nat.le_add_right _ _) (by omega)
  unfold checkBitmapIn checkBitmap
  simp only [bitmapEntSize]
  rw [Nat.div_eq_of_lt low, List.drop_zero, Nat.mod_mod]
  by_cases one : pgcnt = 1
  · rw [if_pos one, if_pos one]
    have head := same 0 (by omega)
    cases words : bm.drop (pgnum / 32) with
    | nil =>
      cases found : ws.readable (pgnum / 32) with
      | nil => rfl
      | cons b' rest' =>
        rw [words, found] at head
        cases head
    | cons b rest =>
      cases found : ws.readable (pgnum / 32) with
      | nil =>
        rw [words, found] at head
        cases head
      | cons b' rest' =>
        rw [words, found] at head
        obtain rfl := Option.some.inj head
        rfl
  · rw [if_neg one, if_neg one, checkWords_congr low same]

/-- The operations agree with the pages of the range: `_set_bitmap` sets them and `_reset_bitmap` clears them,
no other page changes, and both return the number that changed, as an `int`; `_check_bitmap` succeeds when none
is set, whatever words outside the range hold or whether they can be read, and its loop, where it takes the
short way for one page, would have said the same. -/
theorem bitmap_ranges {bm : Bitmap} {pgnum pgcnt : Nat} (pos : 0 < pgcnt) (inside : pgnum + pgcnt ≤ 32 * bm.length) :
    (∃ bm', setBitmapInt bm pgnum pgcnt = .ok (bm', int32 (clearCount (bitmapBit bm) pgnum pgcnt)) ∧
      bm'.length = bm.length ∧
      ∀ q, bitmapBit bm' q = (bitmapBit bm q || (decide (pgnum ≤ q) && decide (q < pgnum + pgcnt)))) ∧
    (∃ bm', resetBitmap bm pgnum pgcnt = .ok (bm', int32 (setCount (bitmapBit bm) pgnum pgcnt)) ∧
      bm'.length = bm.length ∧
      ∀ q, bitmapBit bm' q = (bitmapBit bm q && !(decide (pgnum ≤ q) && decide (q < pgnum + pgcnt)))) ∧
    (pgcnt < 2 ^ 31 → int32 (clearCount (bitmapBit bm) pgnum pgcnt) = clearCount (bitmapBit bm) pgnum pgcnt ∧
      int32 (setCount (bitmapBit bm) pgnum pgcnt) = setCount (bitmapBit bm) pgnum pgcnt) ∧
    (∀ ws : Memory, ws.Shows bm pgnum pgcnt → ∃ r, checkBitmapIn ws pgnum pgcnt = .ok r ∧
      (r = .success ↔ ∀ q, pgnum ≤ q → q < pgnum + pgcnt → bitmapBit bm q = false)) ∧
    ∃ left, checkWords (bm.drop (pgnum / 32)) (pgnum % 32) pgcnt = .ok left ∧
      (left = 0 ↔ ∀ q, pgnum ≤ q → q < pgnum + pgcnt → bitmapBit bm q = false) := by
  obtain ⟨bm', run, facts⟩ := setBitmap_spec inside
  refine ⟨⟨bm', ?_, facts⟩, resetBitmap_spec inside, ?_, ?_, ?_⟩
  · rw [setBitmapInt, run]
    rfl
  · intro small
    have set : setCount (bitmapBit bm) pgnum pgcnt ≤ pgcnt := by
      rw [← setCount_complement inside]
      exact clearCount_le _ _ _
    exact ⟨int32_of_lt (Nat.lt_of_le_of_lt (clearCount_le _ _ _) small), int32_of_lt (Nat.lt_of_le_of_lt set small)⟩
  · intro ws shown
    rw [checkBitmapIn_eq shown]
    exact checkBitmap_iff pos inside
  · obtain ⟨left, loop, iff⟩ := checkWords_spec (bm.drop (pgnum / 32)) (pgnum % 32) pgcnt
      (Nat.mod_lt _ (by decide)) (by rw [List.length_drop]; omega)
    refine ⟨left, loop, iff.trans ⟨?_, ?_⟩⟩
    · intro clear q low high
      have bit := clear (q - pgnum / 32 * 32) (by omega) (by omega)
      rwa [bitmapBit_drop, Nat.add_sub_cancel' (by omega)] at bit
    · intro clear q low high
      rw [bitmapBit_drop]
      exact clear _ (by omega) (by omega)

theorem bitmap_ranges_straddling : ∃ r, checkBitmapIn [none, some 0x0fffffff#32, some 0xfffffff0#32, none] 60 8 = .ok r ∧
    (r = .success ↔ ∀ q, 60 ≤ q → q < 68 → bitmapBit [0#32, 0x0fffffff#32, 0xfffffff0#32] q = false) := by
  have inside : 60 + 8 ≤ 32 * ([0#32, 0x0fffffff#32, 0xfffffff0#32] : Bitmap).length := by decide
  refine (bitmap_ranges (by decide) inside).2.2.2.1 _ ?_
  intro i low high
  obtain rfl | rfl : i = 1 ∨ i = 2 := by omega
  · rfl
  · rfl

theorem bitmapBit_replicate (n q : Nat) : bitmapBit (List.replicate n 0#32) q = false := by
  unfold bitmapBit
  rw [List.getD_eq_getElem?_getD, List.getElem?_replicate]
  split <;> simp

/-- Where 2^31 pages are newly set, the number is negative. -/
theorem setBitmap_wraps : ∃ bm', setBitmapInt (List.replicate (2 ^ 26) 0#32) 0 (2 ^ 31) = .ok (bm', -2 ^ 31) ∧
    clearCount (bitmapBit (List.replicate (2 ^ 26) 0#32)) 0 (2 ^ 31) = 2 ^ 31 := by
  have clear : ∀ n c, clearCount (bitmapBit (List.replicate n 0#32)) 0 c = c := by
    intro n c
    unfold clearCount
    rw [Finset.filter_true_of_mem fun q _ => bitmapBit_replicate n q]
    simp
  have inside : 0 + 2 ^ 31 ≤ 32 * (List.replicate (2 ^ 26) 0#32 : Bitmap).length := by
    rw [List.length_replicate]
    decide
  obtain ⟨bm', run, _⟩ := setBitmap_spec inside
  refine ⟨bm', ?_, clear _ _⟩
  rw [setBitmapInt, run, clear]
  rfl

end Iostash
