import Iostash.Sce.State

/-!
# Fragments

`_frag_init`, `_frag_invalidate` and `_frag_isvalid` of `sce_fragment.c`.
-/

namespace Iostash

/-- `_frag_init` -/
def fragInit : Frag := { Frag.zero with nrValid := scePagePerFrag }

/-- `_frag_invalidate`: the fragment afterwards and the number of pages invalidated. -/
def fragInvalidate (frag : Frag) (pgnum pgcnt : Nat) : Except Fault (Frag × Nat) :=
  if pgcnt = 0 ∨ scePagePerFrag < pgnum + pgcnt then .error .bugOn
  else do
    let (bm, nrInvalidated) ← setBitmap frag.bitmap pgnum pgcnt
    if frag.nrValid < nrInvalidated then throw .bugOn
    return ({ frag with bitmap := bm, nrValid := frag.nrValid - nrInvalidated }, nrInvalidated)

/-- `_frag_isvalid` -/
def fragIsvalid (frag : Frag) (pgnum pgcnt : Nat) : Except Fault Ret :=
  if pgcnt = 0 ∨ scePagePerFrag < pgnum + pgcnt then .error .bugOn
  else checkBitmap frag.bitmap pgnum pgcnt

end Iostash
