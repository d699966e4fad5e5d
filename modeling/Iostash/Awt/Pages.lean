import Iostash.Util.Writers
import Iostash.Awt.Fragment
import Mathlib.Algebra.BigOperators.Group.Finset.Piecewise

/-!
# Pages of a fragment that is written

Two bits make the mark of a page. Every operation changes the marks of a range of pages by one rule, and
`nr_valid` counts the valid ones.
-/

namespace Iostash

open Util.Writers

/-- The mark two bits stand for. -/
def pageMark : Bool → Bool → Mark
  | false, false => .valid
  | true, false => .invalid
  | true, true => .writing
  | false, true => .conflict

def marks (bitmap0 bitmap1 : Bitmap) (p : Nat) : Mark := pageMark (bitmapBit bitmap0 p) (bitmapBit bitmap1 p)

/-- The mark of a page; without a second bitmap its second bit is clear. -/
def AwtFrag.mark (frag : AwtFrag) (p : Nat) : Mark :=
  pageMark (bitmapBit frag.bitmap p) (frag.pendingAwt.elim false fun bm => bitmapBit bm p)

/-- The number of valid pages. -/
def validPages (π : Nat → Mark) : Nat := ((Finset.range scePagePerFrag).filter fun p => π p = .valid).card

/-- The bitmaps have their length, and `nr_valid` counts the valid pages. -/
structure AwtFrag.Counted (frag : AwtFrag) : Prop where
  bitmap : frag.bitmap.length = bitmapArraySize
  pending : ∀ bm, frag.pendingAwt = some bm → bm.length = bitmapArraySize
  nrValid : frag.nrValid = validPages frag.mark

variable {bm bm0 bm1 : Bitmap} {p q n : Nat} {π ρ : Nat → Mark} {frag : AwtFrag}

/-! ### Single bits -/

theorem getabit_eq : getabit bm q = if bitmapBit bm q then 1 else 0 := by
  unfold getabit bitmapBit
  simp only [bitmapEntSize]
  by_cases bit : (bm.getD (q / 32) 0#32).getLsbD (q % 32) = false
  · rw [if_neg (not_not.mpr ((and_mask_eq_zero (Nat.mod_lt _ (by decide))).mpr bit)), bit]
    rfl
  · rw [if_pos fun e => bit ((and_mask_eq_zero (Nat.mod_lt _ (by decide))).mp e), if_pos (by simpa using bit)]

@[simp] theorem setabit_length : (setabit bm q).length = bm.length := List.length_modify ..

@[simp] theorem resetabit_length : (resetabit bm q).length = bm.length := List.length_modify ..

theorem modify_getD {φ : Word → Word} {k : Nat} (inside : k < bm.length) (j : Nat) :
    (bm.modify k φ).getD j 0#32 = if j = k then φ (bm.getD j 0#32) else bm.getD j 0#32 := by
  simp only [List.getD_eq_getElem?_getD, List.getElem?_modify]
  by_cases here : j = k
  · subst here
    simp [inside]
  · simp [here, Ne.symm here]

theorem setabit_bit (inside : q < 32 * bm.length) : bitmapBit (setabit bm q) p = (bitmapBit bm p || decide (p = q)) := by
  have lt : q % 32 < 32 := Nat.mod_lt _ (by decide)
  unfold bitmapBit setabit
  simp only [bitmapEntSize]
  rw [modify_getD (by omega)]
  split
  · rename_i word
    rw [getLsbD_or_mask lt]
    congr 1
    rw [decide_eq_decide]
    omega
  · rename_i word
    rw [decide_eq_false (by rintro rfl; exact word rfl), Bool.or_false]

theorem resetabit_bit (inside : q < 32 * bm.length) : bitmapBit (resetabit bm q) p =
    (bitmapBit bm p && decide (p ≠ q)) := by
  have lt : q % 32 < 32 := Nat.mod_lt _ (by decide)
  unfold bitmapBit resetabit
  simp only [bitmapEntSize]
  rw [modify_getD (by omega)]
  split
  · rename_i word
    have lt' : p % 32 < 32 := Nat.mod_lt _ (by decide)
    have mask := getLsbD_or_mask (b := 0#32) (j := p % 32) lt
    rw [BitVec.zero_or] at mask
    rw [BitVec.getLsbD_and, BitVec.getLsbD_not, mask]
    simp only [lt', decide_true, Bool.true_and, BitVec.getLsbD_zero, Bool.false_or]
    congr 1
    rw [← decide_not, decide_eq_decide]
    omega
  · rename_i word
    rw [decide_eq_true (by rintro rfl; exact word rfl), Bool.and_true]

/-! ### The mark of one page -/

theorem marks_set0 (inside : q < 32 * bm0.length) :
    marks (setabit bm0 q) bm1 p = if p = q then pageMark true (bitmapBit bm1 q) else marks bm0 bm1 p := by
  unfold marks
  rw [setabit_bit inside]
  split
  · rename_i e
    simp [e]
  · rename_i ne
    simp [ne]

theorem marks_reset0 (inside : q < 32 * bm0.length) :
    marks (resetabit bm0 q) bm1 p = if p = q then pageMark false (bitmapBit bm1 q) else marks bm0 bm1 p := by
  unfold marks
  rw [resetabit_bit inside]
  split
  · rename_i e
    simp [e]
  · rename_i ne
    simp [ne]

theorem marks_set1 (inside : q < 32 * bm1.length) :
    marks bm0 (setabit bm1 q) p = if p = q then pageMark (bitmapBit bm0 q) true else marks bm0 bm1 p := by
  unfold marks
  rw [setabit_bit inside]
  split
  · rename_i e
    simp [e]
  · rename_i ne
    simp [ne]

theorem marks_reset1 (inside : q < 32 * bm1.length) :
    marks bm0 (resetabit bm1 q) p = if p = q then pageMark (bitmapBit bm0 q) false else marks bm0 bm1 p := by
  unfold marks
  rw [resetabit_bit inside]
  split
  · rename_i e
    simp [e]
  · rename_i ne
    simp [ne]

/-! ### Ranges of pages -/

/-- The marks of a range changed by one rule. -/
def onRange (φ : Mark → Mark) (pgnum pgcnt : Nat) (π : Nat → Mark) : Nat → Mark :=
  fun p => if pgnum ≤ p ∧ p < pgnum + pgcnt then φ (π p) else π p

theorem onRange_zero {φ : Mark → Mark} : onRange φ q 0 π = π := by
  funext p
  exact if_neg (by omega)

/-- The first page, and then the rest of the range. -/
theorem onRange_succ {φ : Mark → Mark} (first : ρ q = φ (π q)) (others : ∀ p, p ≠ q → ρ p = π p) :
    onRange φ (q + 1) n ρ = onRange φ q (n + 1) π := by
  funext p
  unfold onRange
  by_cases e : p = q
  · subst e
    rw [if_neg (by omega), if_pos (by omega), first]
  · rw [others p e]
    by_cases inside : q ≤ p ∧ p < q + (n + 1)
    · rw [if_pos inside, if_pos (by omega)]
    · rw [if_neg inside, if_neg (by omega)]

theorem validPages_update (page : q < scePagePerFrag) (others : ∀ p, p ≠ q → ρ p = π p) :
    validPages ρ + (if π q = .valid then 1 else 0) = validPages π + if ρ q = .valid then 1 else 0 := by
  unfold validPages
  rw [Finset.card_filter, Finset.card_filter]
  have member : q ∈ Finset.range scePagePerFrag := Finset.mem_range.mpr page
  rw [← Finset.add_sum_erase _ _ member, ← Finset.add_sum_erase _ (fun p => if π p = .valid then 1 else 0) member]
  have rest : ∑ p ∈ (Finset.range scePagePerFrag).erase q, (if ρ p = .valid then 1 else 0) =
      ∑ p ∈ (Finset.range scePagePerFrag).erase q, if π p = .valid then 1 else 0 := by
    apply Finset.sum_congr rfl
    intro p inside
    rw [others p (Finset.ne_of_mem_erase inside)]
  omega

theorem validPages_le (π : Nat → Mark) : validPages π ≤ scePagePerFrag := by
  refine (Finset.card_filter_le _ _).trans ?_
  rw [Finset.card_range]

/-! ### The loops -/

theorem setBitmap4awt_spec (c : Nat) : ∀ (pgnum : Nat) (bm0 : Bitmap) (nr : Nat),
    bm0.length = bitmapArraySize → pgnum + c ≤ scePagePerFrag → ∃ bm nr', setBitmap4awt bm1 pgnum c bm0 nr = (bm, nr') ∧
      bm.length = bitmapArraySize ∧ marks bm bm1 = onRange Mark.invalidate pgnum c (marks bm0 bm1) ∧
      nr' + validPages (marks bm bm1) = nr + validPages (marks bm0 bm1) := by
  induction c with
  | zero =>
    intro pgnum bm0 nr len0 _
    exact ⟨bm0, nr, rfl, len0, onRange_zero.symm, rfl⟩
  | succ c ih =>
    intro pgnum bm0 nr len0 fits
    have page : pgnum < scePagePerFrag := by omega
    have inside : pgnum < 32 * bm0.length := by rw [len0]; simpa using page
    -- one turn of the loop, and then the rest
    have turn : ∀ (bm : Bitmap) (nr' : Nat), bm.length = bitmapArraySize →
        setBitmap4awt bm1 pgnum (c + 1) bm0 nr = setBitmap4awt bm1 (pgnum + 1) c bm nr' →
        (∀ p, marks bm bm1 p = if p = pgnum then (marks bm0 bm1 pgnum).invalidate else marks bm0 bm1 p) →
        nr' = nr + (if marks bm0 bm1 pgnum = .valid then 1 else 0) →
        ∃ bm nr', setBitmap4awt bm1 pgnum (c + 1) bm0 nr = (bm, nr') ∧ bm.length = bitmapArraySize ∧
          marks bm bm1 = onRange Mark.invalidate pgnum (c + 1) (marks bm0 bm1) ∧
          nr' + validPages (marks bm bm1) = nr + validPages (marks bm0 bm1) := by
      intro bm nr' len same change count
      obtain ⟨bm', nr'', run, len', marked, total⟩ := ih (pgnum + 1) bm nr' len (by omega)
      have first : marks bm bm1 pgnum = (marks bm0 bm1 pgnum).invalidate := by rw [change, if_pos rfl]
      have others : ∀ p, p ≠ pgnum → marks bm bm1 p = marks bm0 bm1 p := fun p ne => by rw [change, if_neg ne]
      refine ⟨bm', nr'', same.trans run, len', marked.trans (onRange_succ first others), ?_⟩
      have here := validPages_update page others
      have invalid : marks bm bm1 pgnum ≠ .valid := by
        rw [first]
        cases marks bm0 bm1 pgnum <;> decide
      rw [if_neg invalid] at here
      omega
    have bits : marks bm0 bm1 pgnum = pageMark (bitmapBit bm0 pgnum) (bitmapBit bm1 pgnum) := rfl
    cases b0 : bitmapBit bm0 pgnum <;> cases b1 : bitmapBit bm1 pgnum <;> rw [b0, b1] at bits
    · refine turn (setabit bm0 pgnum) (nr + 1) (by simp [len0]) ?_ ?_ (by rw [bits]; rfl)
      · simp [setBitmap4awt, getabit_eq, b0, b1]
      · intro p
        rw [marks_set0 inside, b1, bits]
        rfl
    · refine turn bm0 nr len0 ?_ ?_ (by rw [bits]; rfl)
      · simp [setBitmap4awt, getabit_eq, b0, b1]
      · intro p
        split
        · rename_i e
          rw [e, bits]
          rfl
        · rfl
    · refine turn bm0 nr len0 ?_ ?_ (by rw [bits]; rfl)
      · simp [setBitmap4awt, getabit_eq, b0, b1]
      · intro p
        split
        · rename_i e
          rw [e, bits]
          rfl
        · rfl
    · refine turn (resetabit bm0 pgnum) nr (by simp [len0]) ?_ ?_ (by rw [bits]; rfl)
      · simp [setBitmap4awt, getabit_eq, b0, b1]
      · intro p
        rw [marks_reset0 inside, b1, bits]
        rfl

/-- Bitmaps of their length, and the count of the valid pages. -/
structure PagesCounted (bm0 bm1 : Bitmap) (nrValid : Nat) : Prop where
  len0 : bm0.length = bitmapArraySize
  len1 : bm1.length = bitmapArraySize
  count : nrValid = validPages (marks bm0 bm1)

theorem PagesCounted.small {nr : Nat} (h : PagesCounted bm0 bm1 nr) : nr ≤ 256 := by
  rw [h.count]
  exact validPages_le _

theorem writestartLoop_spec (c : Nat) : ∀ (pgnum : Nat) (bm0 bm1 : Bitmap) (nr vw : Nat), PagesCounted bm0 bm1 nr →
    pgnum + c ≤ scePagePerFrag → ∃ bm0' bm1' nr' vw',
      writestartLoop pgnum c (bm0, bm1, nr) vw = ((bm0', bm1', nr'), vw') ∧ PagesCounted bm0' bm1' nr' ∧
      marks bm0' bm1' = onRange Mark.start pgnum c (marks bm0 bm1) ∧ vw ≤ vw' ∧
      (vw' = vw ↔ ∀ p, pgnum ≤ p → p < pgnum + c → (marks bm0 bm1 p).Held) := by
  induction c with
  | zero =>
    intro pgnum bm0 bm1 nr vw counted _
    exact ⟨bm0, bm1, nr, vw, rfl, counted, onRange_zero.symm, le_rfl, iff_of_true rfl fun p _ _ => by omega⟩
  | succ c ih =>
    intro pgnum bm0 bm1 nr vw counted fits
    have small := counted.small
    obtain ⟨len0, len1, count⟩ := counted
    have page : pgnum < scePagePerFrag := by omega
    have inside0 : pgnum < 32 * bm0.length := by rw [len0]; simpa using page
    have inside1 : pgnum < 32 * bm1.length := by rw [len1]; simpa using page
    -- one turn of the loop, and then the rest
    have turn : ∀ (bm0₁ bm1₁ : Bitmap) (nr₁ vw₁ : Nat), bm0₁.length = bitmapArraySize → bm1₁.length = bitmapArraySize →
        writestartLoop pgnum (c + 1) (bm0, bm1, nr) vw = writestartLoop (pgnum + 1) c (bm0₁, bm1₁, nr₁) vw₁ →
        (∀ p, marks bm0₁ bm1₁ p = if p = pgnum then (marks bm0 bm1 pgnum).start else marks bm0 bm1 p) →
        nr₁ + (if marks bm0 bm1 pgnum = .valid then 1 else 0) = nr →
        vw₁ = vw + (if (marks bm0 bm1 pgnum).Held then 0 else 1) →
        ∃ bm0' bm1' nr' vw', writestartLoop pgnum (c + 1) (bm0, bm1, nr) vw = ((bm0', bm1', nr'), vw') ∧
          PagesCounted bm0' bm1' nr' ∧ marks bm0' bm1' = onRange Mark.start pgnum (c + 1) (marks bm0 bm1) ∧ vw ≤ vw' ∧
          (vw' = vw ↔ ∀ p, pgnum ≤ p → p < pgnum + (c + 1) → (marks bm0 bm1 p).Held) := by
      intro bm0₁ bm1₁ nr₁ vw₁ len0₁ len1₁ same change valid writes
      have first : marks bm0₁ bm1₁ pgnum = (marks bm0 bm1 pgnum).start := by rw [change, if_pos rfl]
      have others : ∀ p, p ≠ pgnum → marks bm0₁ bm1₁ p = marks bm0 bm1 p := fun p ne => by rw [change, if_neg ne]
      have here := validPages_update page others
      have taken : marks bm0₁ bm1₁ pgnum ≠ .valid := by
        rw [first]
        cases marks bm0 bm1 pgnum <;> decide
      rw [if_neg taken] at here
      obtain ⟨bm0', bm1', nr', vw', run, counted', marked, le, held⟩ :=
        ih (pgnum + 1) bm0₁ bm1₁ nr₁ vw₁ ⟨len0₁, len1₁, by omega⟩ (by omega)
      refine ⟨bm0', bm1', nr', vw', same.trans run, counted', marked.trans (onRange_succ first others), by omega, ?_⟩
      constructor
      · intro none p low high
        rcases Nat.eq_or_lt_of_le low with rfl | later
        · by_contra vacant
          rw [if_neg vacant] at writes
          omega
        · rw [← others p (by omega)]
          exact held.mp (by omega) p later (by omega)
      · intro all
        rw [if_pos (all pgnum le_rfl (by omega))] at writes
        rw [← Nat.add_zero vw, ← writes]
        exact held.mpr fun p low high => by
          rw [others p (by omega)]
          exact all p (by omega) (by omega)
    have bits : marks bm0 bm1 pgnum = pageMark (bitmapBit bm0 pgnum) (bitmapBit bm1 pgnum) := rfl
    cases b0 : bitmapBit bm0 pgnum <;> cases b1 : bitmapBit bm1 pgnum <;> rw [b0, b1] at bits
    · -- 00 to 11
      refine turn (setabit bm0 pgnum) (setabit bm1 pgnum) (u16 (nr + (2 ^ 16 - 1))) (vw + 1) (by simp [len0])
        (by simp [len1]) ?_ ?_ ?_ (by rw [bits]; rfl)
      · simp [writestartLoop, getabit_eq, b0, b1]
      · intro p
        rw [marks_set0 inside0, setabit_bit inside1, marks_set1 inside1, b1, b0, bits]
        split <;> simp [pageMark, Mark.start]
      · have some_ : 0 < nr := by
          rw [count]
          exact Finset.card_pos.mpr ⟨pgnum, Finset.mem_filter.mpr ⟨Finset.mem_range.mpr page, bits⟩⟩
        rw [bits]
        simp only [pageMark, if_true, u16]
        omega
    · -- 10 stays
      refine turn bm0 bm1 nr vw len0 len1 ?_ ?_ (by rw [bits]; rfl) (by rw [bits]; rfl)
      · simp [writestartLoop, getabit_eq, b0, b1]
      · intro p
        split
        · rename_i e
          rw [e, bits]
          rfl
        · rfl
    · -- 01 to 11
      refine turn bm0 (setabit bm1 pgnum) nr (vw + 1) len0 (by simp [len1]) ?_ ?_ (by rw [bits]; rfl) (by rw [bits]; rfl)
      · simp [writestartLoop, getabit_eq, b0, b1]
      · intro p
        rw [marks_set1 inside1, b0, bits]
        rfl
    · -- 11 to 10
      refine turn (resetabit bm0 pgnum) bm1 nr vw (by simp [len0]) len1 ?_ ?_ (by rw [bits]; rfl) (by rw [bits]; rfl)
      · simp [writestartLoop, getabit_eq, b0, b1]
      · intro p
        rw [marks_reset0 inside0, b1, bits]
        rfl

theorem writeendLoop_spec (failed : Bool) (c : Nat) : ∀ (pgnum : Nat) (bm0 bm1 : Bitmap) (nr : Nat),
    PagesCounted bm0 bm1 nr → pgnum + c ≤ scePagePerFrag →
    (∀ p, pgnum ≤ p → p < pgnum + c → (marks bm0 bm1 p).Held) → ∃ bm0' bm1' nr',
      writeendLoop failed pgnum c (bm0, bm1, nr) = .ok (bm0', bm1', nr') ∧ PagesCounted bm0' bm1' nr' ∧
      marks bm0' bm1' = onRange (Mark.finish failed) pgnum c (marks bm0 bm1) := by
  induction c with
  | zero =>
    intro pgnum bm0 bm1 nr counted _ _
    exact ⟨bm0, bm1, nr, rfl, counted, onRange_zero.symm⟩
  | succ c ih =>
    intro pgnum bm0 bm1 nr counted fits held
    have small := counted.small
    obtain ⟨len0, len1, count⟩ := counted
    have page : pgnum < scePagePerFrag := by omega
    have inside0 : pgnum < 32 * bm0.length := by rw [len0]; simpa using page
    have inside1 : pgnum < 32 * bm1.length := by rw [len1]; simpa using page
    have here := held pgnum le_rfl (by omega)
    have bits : marks bm0 bm1 pgnum = pageMark (bitmapBit bm0 pgnum) (bitmapBit bm1 pgnum) := rfl
    -- one turn of the loop, and then the rest
    have turn : ∀ (bm0₁ bm1₁ : Bitmap) (nr₁ : Nat), bm0₁.length = bitmapArraySize → bm1₁.length = bitmapArraySize →
        writeendLoop failed pgnum (c + 1) (bm0, bm1, nr) = writeendLoop failed (pgnum + 1) c (bm0₁, bm1₁, nr₁) →
        (∀ p, marks bm0₁ bm1₁ p = if p = pgnum then (marks bm0 bm1 pgnum).finish failed else marks bm0 bm1 p) →
        nr₁ = nr + (if (marks bm0 bm1 pgnum).finish failed = .valid then 1 else 0) →
        ∃ bm0' bm1' nr', writeendLoop failed pgnum (c + 1) (bm0, bm1, nr) = .ok (bm0', bm1', nr') ∧
          PagesCounted bm0' bm1' nr' ∧ marks bm0' bm1' = onRange (Mark.finish failed) pgnum (c + 1) (marks bm0 bm1) := by
      intro bm0₁ bm1₁ nr₁ len0₁ len1₁ same change valid
      have first : marks bm0₁ bm1₁ pgnum = (marks bm0 bm1 pgnum).finish failed := by rw [change, if_pos rfl]
      have others : ∀ p, p ≠ pgnum → marks bm0₁ bm1₁ p = marks bm0 bm1 p := fun p ne => by rw [change, if_neg ne]
      have total := validPages_update page others
      have old : marks bm0 bm1 pgnum ≠ .valid := by
        intro e
        rw [e] at here
        revert here
        decide
      rw [if_neg old, first] at total
      obtain ⟨bm0', bm1', nr', run, counted', marked⟩ := ih (pgnum + 1) bm0₁ bm1₁ nr₁ ⟨len0₁, len1₁, by omega⟩ (by omega)
        fun p low high => by
          rw [others p (by omega)]
          exact held p (by omega) (by omega)
      exact ⟨bm0', bm1', nr', same.trans run, counted', marked.trans (onRange_succ first others)⟩
    cases b0 : bitmapBit bm0 pgnum <;> cases b1 : bitmapBit bm1 pgnum <;> rw [b0, b1] at bits
    · rw [bits] at here
      exact absurd here (by decide)
    · -- 10 stays
      refine turn bm0 bm1 nr len0 len1 ?_ ?_ (by rw [bits]; rfl)
      · simp [writeendLoop, getabit_eq, b0, b1]
      · intro p
        split
        · rename_i e
          rw [e, bits]
          rfl
        · rfl
    · rw [bits] at here
      exact absurd here (by decide)
    · cases failed with
      | false =>
        -- 11 to 00
        refine turn (resetabit bm0 pgnum) (resetabit bm1 pgnum) (u16 (nr + 1)) (by simp [len0]) (by simp [len1]) ?_ ?_ ?_
        · simp [writeendLoop, getabit_eq, b0, b1]
        · intro p
          rw [marks_reset0 inside0, resetabit_bit inside1, marks_reset1 inside1, b1, b0, bits]
          split <;> simp [pageMark, Mark.finish]
        · rw [bits]
          simp only [pageMark, Mark.finish, u16]
          simp only [Bool.false_eq_true, if_false, if_true]
          omega
      | true =>
        -- 11 to 01
        refine turn bm0 (resetabit bm1 pgnum) nr len0 (by simp [len1]) ?_ ?_ (by rw [bits]; rfl)
        · simp [writeendLoop, getabit_eq, b0, b1]
        · intro p
          rw [marks_reset1 inside1, b0, bits]
          rfl

/-! ### The operations -/

theorem AwtFrag.mark_pending (pending : frag.pendingAwt = some bm) : frag.mark = marks frag.bitmap bm := by
  funext p
  unfold mark marks
  rw [pending]
  rfl

theorem AwtFrag.mark_alone (alone : frag.pendingAwt = none) : frag.mark p = pageMark (bitmapBit frag.bitmap p) false := by
  unfold mark
  rw [alone]
  rfl

theorem AwtFrag.validPages_alone (alone : frag.pendingAwt = none) :
    validPages frag.mark = clearCount (bitmapBit frag.bitmap) 0 scePagePerFrag := by
  unfold validPages clearCount
  rw [Nat.zero_add, ← Finset.range_eq_Ico]
  congr 1
  apply Finset.filter_congr
  intro p _
  rw [mark_alone alone]
  cases bitmapBit frag.bitmap p <;> decide

theorem AwtFrag.Counted.pages (h : frag.Counted) (pending : frag.pendingAwt = some bm) :
    PagesCounted frag.bitmap bm frag.nrValid :=
  ⟨h.bitmap, h.pending bm pending, by rw [h.nrValid, AwtFrag.mark_pending pending]⟩

variable {pgnum pgcnt : Nat}

theorem range_ok (pos : 0 < pgcnt) (fits : pgnum + pgcnt ≤ scePagePerFrag) :
    ¬ (pgcnt = 0 ∨ scePagePerFrag < pgnum + pgcnt) := by omega

theorem fragInvalidate4awt_spec (h : frag.Counted) (pos : 0 < pgcnt) (fits : pgnum + pgcnt ≤ scePagePerFrag) :
    ∃ frag' nr, fragInvalidate4awt frag pgnum pgcnt = .ok (frag', nr) ∧ frag'.Counted ∧
      frag'.pendingAwt = frag.pendingAwt ∧ frag'.mark = onRange Mark.invalidate pgnum pgcnt frag.mark := by
  -- whichever loop runs, it sets pages and counts them
  have finish : ∀ (bm : Bitmap) (nr : Nat), bm.length = bitmapArraySize →
      invalidatePages frag pgnum pgcnt = .ok (bm, nr) →
      ({ frag with bitmap := bm } : AwtFrag).mark = onRange Mark.invalidate pgnum pgcnt frag.mark →
      nr + validPages ({ frag with bitmap := bm } : AwtFrag).mark = validPages frag.mark →
      ∃ frag' nr, fragInvalidate4awt frag pgnum pgcnt = .ok (frag', nr) ∧ frag'.Counted ∧
        frag'.pendingAwt = frag.pendingAwt ∧ frag'.mark = onRange Mark.invalidate pgnum pgcnt frag.mark := by
    intro bm nr len run marked count
    have counted := h.nrValid
    refine ⟨{ frag with bitmap := bm, nrValid := frag.nrValid - nr }, nr, ?_, ⟨len, h.pending, ?_⟩, rfl, marked⟩
    · unfold fragInvalidate4awt
      rw [if_neg (range_ok pos fits), run]
      simp only [bind, Except.bind]
      rw [if_neg (by omega)]
      rfl
    · show frag.nrValid - nr = validPages ({ frag with bitmap := bm } : AwtFrag).mark
      omega
  rcases Option.eq_none_or_eq_some frag.pendingAwt with pending | ⟨bitmap1, pending⟩
  rotate_left
  · obtain ⟨bm, nr, run, len, marked, count⟩ :=
      @setBitmap4awt_spec bitmap1 pgcnt pgnum frag.bitmap 0 h.bitmap fits
    have same : ({ frag with bitmap := bm } : AwtFrag).mark = marks bm bitmap1 := AwtFrag.mark_pending pending
    refine finish bm nr len (by simp only [invalidatePages, pending, run]) ?_ ?_
    · rw [same, AwtFrag.mark_pending pending]
      exact marked
    · rw [same, AwtFrag.mark_pending pending]
      omega
  · have room : pgnum + pgcnt ≤ 32 * frag.bitmap.length := by rw [h.bitmap]; simpa using fits
    obtain ⟨bm, run, len, bits⟩ := setBitmap_spec room
    obtain ⟨g, hg⟩ : ∃ g : AwtFrag, g = { frag with bitmap := bm } := ⟨_, rfl⟩
    have alone : g.pendingAwt = none := by rw [hg, pending]
    have bits' : bitmapBit g.bitmap = bitmapBit bm := by rw [hg]
    refine finish bm (clearCount (bitmapBit frag.bitmap) pgnum pgcnt) (len.trans h.bitmap)
        (by simp only [invalidatePages, pending, run]) ?_ ?_
    · funext p
      unfold onRange
      rw [← hg, AwtFrag.mark_alone alone, AwtFrag.mark_alone pending, bits', bits p]
      by_cases inside : pgnum ≤ p ∧ p < pgnum + pgcnt
      · rw [if_pos inside, decide_eq_true inside.1, decide_eq_true inside.2]
        cases bitmapBit frag.bitmap p <;> rfl
      · rw [if_neg inside, ← Bool.decide_and, decide_eq_false inside, Bool.or_false]
    · rw [← hg, AwtFrag.validPages_alone alone, AwtFrag.validPages_alone pending, bits']
      simp only [scePagePerFrag] at fits ⊢
      have total := clearCount_set (n := 256) (Nat.zero_le _) (by omega) fun q _ _ => bits q
      omega

theorem fragWritestart_spec (h : frag.Counted) (pending : frag.pendingAwt = some bm) (pos : 0 < pgcnt)
    (fits : pgnum + pgcnt ≤ scePagePerFrag) : ∃ r frag', fragWritestart frag pgnum pgcnt = .ok (r, frag') ∧
      frag'.Counted ∧ frag'.pendingAwt.isSome ∧ frag'.mark = onRange Mark.start pgnum pgcnt frag.mark ∧
      (r ≠ .success → ∀ p, pgnum ≤ p → p < pgnum + pgcnt → (frag.mark p).Held) := by
  obtain ⟨bm0, bm1, nr, vw, run, ⟨len0, len1, count⟩, marked, _, held⟩ :=
    writestartLoop_spec pgcnt pgnum frag.bitmap bm frag.nrValid 0 (h.pages pending) fits
  have same : ({ frag with bitmap := bm0, nrValid := nr, pendingAwt := some bm1 } : AwtFrag).mark = marks bm0 bm1 :=
    AwtFrag.mark_pending rfl
  refine ⟨if vw ≠ 0 then .success else .error, { frag with bitmap := bm0, nrValid := nr, pendingAwt := some bm1 }, ?_,
    ⟨len0, ?_, ?_⟩, rfl, ?_, ?_⟩
  · unfold fragWritestart
    rw [if_neg (range_ok pos fits), pending]
    simp only [run]
  · intro b e
    obtain rfl := Option.some.inj e
    exact len1
  · rw [same]
    exact count
  · rw [same, marked, AwtFrag.mark_pending pending]
  · intro refused
    rw [AwtFrag.mark_pending pending]
    apply held.mp
    by_contra some_
    exact refused (if_pos some_)

theorem fragWriteend_spec (failed : Bool) (h : frag.Counted) (pending : frag.pendingAwt = some bm) (pos : 0 < pgcnt)
    (fits : pgnum + pgcnt ≤ scePagePerFrag) (held : ∀ p, pgnum ≤ p → p < pgnum + pgcnt → (frag.mark p).Held) :
    ∃ frag', fragWriteend frag pgnum pgcnt failed = .ok frag' ∧ frag'.Counted ∧ frag'.pendingAwt.isSome ∧
      frag'.mark = onRange (Mark.finish failed) pgnum pgcnt frag.mark := by
  rw [AwtFrag.mark_pending pending] at held ⊢
  obtain ⟨bm0, bm1, nr, run, ⟨len0, len1, count⟩, marked⟩ :=
    writeendLoop_spec failed pgcnt pgnum frag.bitmap bm frag.nrValid (h.pages pending) fits held
  have same : ({ frag with bitmap := bm0, nrValid := nr, pendingAwt := some bm1 } : AwtFrag).mark = marks bm0 bm1 :=
    AwtFrag.mark_pending rfl
  refine ⟨{ frag with bitmap := bm0, nrValid := nr, pendingAwt := some bm1 }, ?_, ⟨len0, ?_, ?_⟩, rfl, ?_⟩
  · unfold fragWriteend
    rw [if_neg (range_ok pos fits), pending]
    simp only [run, bind, Except.bind]
    rfl
  · intro b e
    obtain rfl := Option.some.inj e
    exact len1
  · rw [same]
    exact count
  · rw [same, marked]

theorem fragMergebitmap_spec (h : frag.Counted) (pending : frag.pendingAwt = some bm) :
    ∃ frag', fragMergebitmap frag = .ok frag' ∧ ({ frag' with pendingAwt := none } : AwtFrag).Counted ∧
      ({ frag' with pendingAwt := none } : AwtFrag).mark = fun p => (frag.mark p).merge := by
  have len1 := h.pending bm pending
  obtain ⟨merged, hm⟩ : ∃ merged, merged = List.zipWith (fun b0 b1 => b0 ||| b1) frag.bitmap bm := ⟨_, rfl⟩
  have len : merged.length = bitmapArraySize := by
    rw [hm, List.length_zipWith, h.bitmap, len1, Nat.min_self]
  have bits : ∀ p, bitmapBit merged p = (bitmapBit frag.bitmap p || bitmapBit bm p) := by
    intro p
    unfold bitmapBit
    simp only [hm, List.getD_eq_getElem?_getD, List.getElem?_zipWith]
    rcases Nat.lt_or_ge (p / 32) bitmapArraySize with lt | ge
    · rw [List.getElem?_eq_getElem (by rw [h.bitmap]; exact lt), List.getElem?_eq_getElem (by rw [len1]; exact lt)]
      exact BitVec.getLsbD_or
    · rw [List.getElem?_eq_none (by rw [h.bitmap]; exact ge), List.getElem?_eq_none (by rw [len1]; exact ge)]
      simp
  have mark : ({ frag with bitmap := merged, pendingAwt := none } : AwtFrag).mark = fun p => (frag.mark p).merge := by
    funext p
    rw [AwtFrag.mark_pending pending]
    show pageMark (bitmapBit merged p) false = (marks frag.bitmap bm p).merge
    unfold marks
    rw [bits]
    cases bitmapBit frag.bitmap p <;> cases bitmapBit bm p <;> rfl
  refine ⟨{ frag with bitmap := merged }, ?_, ⟨len, fun _ e => (nomatch e), ?_⟩, mark⟩
  · unfold fragMergebitmap
    rw [pending, hm]
  · show frag.nrValid = _
    rw [mark, h.nrValid]
    unfold validPages
    congr 1
    apply Finset.filter_congr
    intro p _
    show frag.mark p = .valid ↔ (frag.mark p).merge = .valid
    cases frag.mark p <;> simp [Mark.merge]

end Iostash
