import Iostash.Sce.Fragment

/-!
# Asynchronous write-through

`sce_fragment.c` built with `SCE_AWT`: while writes to a cached fragment are under way it has a second
bitmap, and a page is told by its two bits.
-/

namespace Iostash

/-- `frag_t` with its `pending_awt`. -/
structure AwtFrag extends Frag where
  pendingAwt : Option Bitmap

/-- `_getabit` -/
def getabit (bitmap : Bitmap) (pgnum : Nat) : Nat :=
  let offset := pgnum % bitmapEntSize
  if bitmap.getD (pgnum / bitmapEntSize) 0#32 &&& 1#32 <<< offset ≠ 0#32 then 1 else 0

/-- `_setabit` -/
def setabit (bitmap : Bitmap) (pgnum : Nat) : Bitmap :=
  let offset := pgnum % bitmapEntSize
  bitmap.modify (pgnum / bitmapEntSize) fun b => b ||| 1#32 <<< offset

/-- `_resetabit` -/
def resetabit (bitmap : Bitmap) (pgnum : Nat) : Bitmap :=
  let offset := pgnum % bitmapEntSize
  bitmap.modify (pgnum / bitmapEntSize) fun b => b &&& ~~~(1#32 <<< offset)

/-- `_set_bitmap4awt`: the first bitmap afterwards and the number of pages set. -/
def setBitmap4awt (bitmap1 : Bitmap) : Nat → Nat → Bitmap → Nat → Bitmap × Nat
  | _, 0, bitmap0, nrSet => (bitmap0, nrSet)
  | pgnum, pgcnt + 1, bitmap0, nrSet =>
    let b0 := getabit bitmap0 pgnum
    let b1 := getabit bitmap1 pgnum
    if b0 = 0 ∧ b1 = 0 then setBitmap4awt bitmap1 (pgnum + 1) pgcnt (setabit bitmap0 pgnum) (nrSet + 1)
    else if b0 = 1 ∧ b1 = 1 then setBitmap4awt bitmap1 (pgnum + 1) pgcnt (resetabit bitmap0 pgnum) nrSet
    else setBitmap4awt bitmap1 (pgnum + 1) pgcnt bitmap0 nrSet

/-- The bitmap `_frag_invalidate` makes, and how many pages it invalidates. -/
def invalidatePages (frag : AwtFrag) (pgnum pgcnt : Nat) : Except Fault (Bitmap × Nat) :=
  match frag.pendingAwt with
  | none => setBitmap frag.bitmap pgnum pgcnt
  | some bitmap1 => .ok (setBitmap4awt bitmap1 pgnum pgcnt frag.bitmap 0)

/-- `_frag_invalidate` -/
def fragInvalidate4awt (frag : AwtFrag) (pgnum pgcnt : Nat) : Except Fault (AwtFrag × Nat) :=
  if pgcnt = 0 ∨ scePagePerFrag < pgnum + pgcnt then .error .bugOn
  else do
    let (bm, nrInvalidated) ← invalidatePages frag pgnum pgcnt
    if frag.nrValid < nrInvalidated then throw .bugOn
    return ({ frag with bitmap := bm, nrValid := frag.nrValid - nrInvalidated }, nrInvalidated)

/-- The loop of `_frag_writestart` over both bitmaps and `nr_valid`; it counts the valid writes. -/
def writestartLoop : Nat → Nat → Bitmap × Bitmap × Nat → Nat → (Bitmap × Bitmap × Nat) × Nat
  | _, 0, pages, validwrite => (pages, validwrite)
  | pgnum, pgcnt + 1, (bitmap0, bitmap1, nrValid), validwrite =>
    match getabit bitmap0 pgnum + 2 * getabit bitmap1 pgnum with
    | 0 => writestartLoop (pgnum + 1) pgcnt (setabit bitmap0 pgnum, setabit bitmap1 pgnum, u16 (nrValid + (2 ^ 16 - 1)))
        (validwrite + 1)
    | 1 => writestartLoop (pgnum + 1) pgcnt (bitmap0, setabit bitmap1 pgnum, nrValid) (validwrite + 1)
    | 3 => writestartLoop (pgnum + 1) pgcnt (resetabit bitmap0 pgnum, bitmap1, nrValid) validwrite
    | _ => writestartLoop (pgnum + 1) pgcnt (bitmap0, bitmap1, nrValid) validwrite

/-- `_frag_writestart` -/
def fragWritestart (frag : AwtFrag) (pgnum pgcnt : Nat) : Except Fault (Ret × AwtFrag) :=
  if pgcnt = 0 ∨ scePagePerFrag < pgnum + pgcnt then .error .bugOn
  else
    match frag.pendingAwt with
    | none => do
      let (frag, _) ← fragInvalidate4awt frag pgnum pgcnt
      return (.error, frag)
    | some bitmap1 =>
      let ((bitmap0, bitmap1, nrValid), validwrite) := writestartLoop pgnum pgcnt (frag.bitmap, bitmap1, frag.nrValid) 0
      .ok (if validwrite ≠ 0 then .success else .error,
        { frag with bitmap := bitmap0, nrValid := nrValid, pendingAwt := some bitmap1 })

/-- The loop of `_frag_writeend`. -/
def writeendLoop (failed : Bool) : Nat → Nat → Bitmap × Bitmap × Nat → Except Fault (Bitmap × Bitmap × Nat)
  | _, 0, pages => .ok pages
  | pgnum, pgcnt + 1, (bitmap0, bitmap1, nrValid) =>
    if getabit bitmap1 pgnum = 0 then .error .bugOn
    else if getabit bitmap0 pgnum = 1 then
      if failed = false then
        writeendLoop failed (pgnum + 1) pgcnt (resetabit bitmap0 pgnum, resetabit bitmap1 pgnum, u16 (nrValid + 1))
      else writeendLoop failed (pgnum + 1) pgcnt (bitmap0, resetabit bitmap1 pgnum, nrValid)
    else writeendLoop failed (pgnum + 1) pgcnt (bitmap0, bitmap1, nrValid)

/-- `_frag_writeend` -/
def fragWriteend (frag : AwtFrag) (pgnum pgcnt : Nat) (failed : Bool) : Except Fault AwtFrag :=
  if pgcnt = 0 ∨ scePagePerFrag < pgnum + pgcnt then .error .bugOn
  else
    match frag.pendingAwt with
    | none => .error .bugOn
    | some bitmap1 => do
      let (bitmap0, bitmap1, nrValid) ← writeendLoop failed pgnum pgcnt (frag.bitmap, bitmap1, frag.nrValid)
      return { frag with bitmap := bitmap0, nrValid := nrValid, pendingAwt := some bitmap1 }

/-- `_frag_mergebitmap` -/
def fragMergebitmap (frag : AwtFrag) : Except Fault AwtFrag :=
  match frag.pendingAwt with
  | none => .error .nullDeref
  | some bitmap1 => .ok { frag with bitmap := List.zipWith (fun b0 b1 => b0 ||| b1) frag.bitmap bitmap1 }

end Iostash
