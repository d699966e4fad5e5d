import Iostash.Sce.Mapping

/-!
# Cache replacement

`sce_eviction.c`: CLOCK with a reference counter.
-/

namespace Iostash

/-- `_get_frag_advance_clockarm`: the fragment under the arm, if there is one, and the arm moved. -/
def getFragAdvanceClockarm (s : Sce) : Option Phys × Sce :=
  if s.nrCdev = 0 then (none, s)
  else
    let devnum := scePfidDev s.arm % s.nrCdev
    let fragnum := scePfidOff s.arm
    match s.cdevtbl devnum with
    | none => (none, { s with arm := scePfid (devnum + 1) fragnum })
    | some cdev =>
      let fragnum := fragnum % cdev.nrFrag
      let arm := if cdev.nrFrag ≤ fragnum + 1 then scePfid (devnum + 1) 0 else scePfid devnum (fragnum + 1)
      (some ⟨devnum, fragnum⟩, { s with arm := arm })

/-- The loop of `_evict_frag`. -/
def evictLoop : Nat → Sce → Except Fault (Ret × Sce)
  | 0, s => .ok (.error, s)
  | i + 1, s =>
    match getFragAdvanceClockarm s with
    | (none, s) => .ok (.error, s)
    | (some a, s) =>
      match s.frag? a with
      | none => .error .nullDeref
      | some frag =>
        if frag.fragnum < fragnumFree ∧ frag.nrService = 0 then
          if frag.nrRef = 0 then
            if sceMaxLun ≤ frag.lunidx then .error .outOfRange
            else do
              let (_, s) ← unmapFrag s frag.lunidx frag.fragnum
              return (.success, s)
          else evictLoop i (s.modifyFrag a fun g => { g with nrRef := g.nrRef - 1 })
        else evictLoop i s

/-- The loop counter of `_evict_frag`, an `int` that starts at `nr_frag * SCE_REFCEILING`. -/
def evictBudget (nrFrag : Nat) : Nat :=
  let n := u32 (nrFrag * sceRefCeiling)
  if n < 2 ^ 31 then n else 0

/-- `_evict_frag` -/
def evictFrag (s : Sce) : Except Fault (Ret × Sce) :=
  if s.nrFreefrag < s.nrFrag then evictLoop (evictBudget s.nrFrag) s else .ok (.error, s)

end Iostash
