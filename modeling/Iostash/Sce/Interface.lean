import Iostash.Sce.Population

/-!
# The engine API

`sce_interface.c`, without asynchronous write-through. A device or LUN handle is the index of its
slot. Every call is one atomic step.
-/

namespace Iostash

/-- `sce_create` -/
def sceCreate : Sce :=
  { nrCdev := 0, cdevtbl := fun _ => none, nrLun := 0, luntbl := fun _ => none, nrFrag := 0,
    nrFreefrag := 0, freefraglist := 0#32, nrHit := 0, nrMiss := 0, nrEviction := 0, arm := 0#32,
    misslogFragnum := fun _ => 0, misslogLunidx := fun _ => 0, misslogHead := 0, misslogSize := 0 }

/-- `_cdev_search` -/
def cdevSearch (s : Sce) (cdevctx : Nat) : Option Nat :=
  (List.range sceMaxCdev).find? fun d => (s.cdevtbl d).elim 0 Cdev.cdevctx == cdevctx

/-- `_cdev_init`; `none` when the device is too small or there is no memory for its table. -/
def cdevInit (nrSctr : Nat) (vmalloc : Bool) : Option Cdev :=
  if nrSctr < sceSctrPerFrag then none
  else
    let nrFrag := u32 (nrSctr / sceSctrPerFrag)
    if vmalloc ∧ nrFrag ≠ 0 then some { cdevctx := 0, nrFrag := nrFrag, fragtbl := fun _ => Frag.fill85 }
    else none

/-- The loop of `sce_addcdev` that frees the fragments of the new device, from `fragnum` down. -/
def freeFragments (devnum : Nat) : Nat → Sce → Except Fault Sce
  | 0, s => do
    let (_, s) ← freefraglistPut s (scePfid devnum 0)
    return s
  | fragnum + 1, s => do
    let (_, s) ← freefraglistPut s (scePfid devnum (fragnum + 1))
    freeFragments devnum fragnum s

/-- `sce_addcdev` -/
def sceAddcdev (s : Sce) (nrSctr cdctx : Nat) (vmalloc : Bool) : Except Fault (Option Nat × Sce) :=
  if nrSctr = 0 ∨ sceMaxCdev ≤ s.nrCdev then .ok (none, s)
  else if (cdevSearch s cdctx).isSome then .ok (none, s)
  else
    match (List.range sceMaxCdev).find? fun d => (s.cdevtbl d).isNone with
    | none => .ok (none, s)
    | some devnum =>
      match cdevInit nrSctr vmalloc with
      | none => .ok (none, s)
      | some cdev => do
        let s := { s with
          cdevtbl := fun d => if d = devnum then some { cdev with cdevctx := cdctx } else s.cdevtbl d
          nrCdev := s.nrCdev + 1
          nrFrag := u32 (s.nrFrag + cdev.nrFrag) }
        let s ← freeFragments devnum (cdev.nrFrag - 1) s
        return (some devnum, s)

/-- The loop of `sce_rmcdev` over the LUN table. -/
def rmcdevLuns (devnum : Nat) : List Nat → Sce → Sce
  | [], s => s
  | i :: rest, s => rmcdevLuns devnum rest (lunRmcdev s i devnum)

/-- `sce_rmcdev` -/
def sceRmcdev (s : Sce) (devnum : Nat) : Except Fault (Ret × Sce) :=
  match s.cdevtbl devnum with
  | none => .ok (.error, s)
  | some cdev =>
    if sceMaxCdev ≤ devnum then .error .bugOn
    else do
      let s ← freefraglistRmcdev s devnum
      let s := rmcdevLuns devnum (List.range sceMaxLun) s
      return (.success, { s with
        nrCdev := s.nrCdev - 1
        nrFrag := sub32 s.nrFrag cdev.nrFrag
        cdevtbl := fun d => if d = devnum then none else s.cdevtbl d })

/-- `sce_addlun` -/
def sceAddlun (s : Sce) (nrSctr lunctx : Nat) (vmalloc : Bool) : Except Fault (Option Nat × Sce) :=
  if nrSctr = 0 then .ok (none, s)
  else
    match (List.range sceMaxLun).find? fun i => (s.luntbl i).isNone with
    | none => .ok (none, s)
    | some i =>
      match lunInit nrSctr vmalloc with
      | none => .ok (none, s)
      | some lun =>
        .ok (some i, { s with
          luntbl := fun j => if j = i then some { lun with lunctx := lunctx } else s.luntbl j
          nrLun := s.nrLun + 1 })

/-- `sce_rmlun` -/
def sceRmlun (s : Sce) (i : Nat) : Except Fault (Ret × Sce) :=
  match s.luntbl i with
  | none => .ok (.error, s)
  | some lun =>
    if 0 < lun.nrService then .ok (.success, s.modifyLun i fun l => { l with waiting4deletion := true })
    else lunPurge s i

/-- The range check of `_lock_lun` and `sce_invalidate`. -/
def inRange (lun : Lun) (sctrnum nrSctr : Nat) : Bool :=
  decide (nrSctr ≠ 0) && decide (u64 (sctrnum + nrSctr) ≤ lun.nrSctr)

/-- `_lock_lun` -/
def lockLun (s : Sce) (i sctrnum nrSctr : Nat) (svcchk : Bool) : Option Lun :=
  (s.luntbl i).filter fun lun => inRange lun sctrnum nrSctr && !(svcchk && lun.waiting4deletion)

/-- What a hit counts in the fragment. -/
def Frag.hit (g : Frag) : Frag :=
  { g with nrHit := u32 (g.nrHit + 1), nrService := u16 (g.nrService + 1),
           nrRef := if g.nrRef < sceRefCeiling then g.nrRef + 1 else g.nrRef }

/-- What a hit counts in the LUN. -/
def Lun.hit (l : Lun) : Lun :=
  { l with nrService := u32 (l.nrService + 1), stats := { l.stats with readHits := l.stats.readHits + 1 } }

/-- `(fdesc & FRAGDESC_VALID) && (SCE_SUCCESS == _frag_isvalid(frag, pgoff, pgcnt))` -/
def isHit (fdesc : Word) (frag : Frag) (pgoff pgcnt : Nat) : Except Fault Ret :=
  if isValid fdesc then fragIsvalid frag pgoff pgcnt else .ok .error

/-- `sce_get4read` from the descriptor on. -/
def get4readFrag (s : Sce) (i : Nat) (lun : Lun) (fragnum pgoff pgcnt : Nat) :
    Except Fault (Option Fmap × Sce) :=
  let fdesc := lun.fragmap fragnum
  if isMapped fdesc = false then
    let s := s.setDesc i fragnum (fragdescInc fdesc)
    .ok (none, misslogPut { s with nrMiss := u32 (s.nrMiss + 1) } i fragnum)
  else
    match s.pfid2frag fdesc with
    | none => .error .nullDeref
    | some frag => do
      let hit ← isHit fdesc frag pgoff pgcnt
      if hit = .success then
        let s := (s.modifyFrag (phys fdesc) Frag.hit).modifyLun i Lun.hit
        return (s.pfid2fmap fdesc, { s with nrHit := u32 (s.nrHit + 1) })
      else
        let s := s.modifyFrag (phys fdesc) fun g => { g with nrMiss := u32 (g.nrMiss + 1) }
        return (none, misslogPut { s with nrMiss := u32 (s.nrMiss + 1) } i fragnum)

/-- `sce_get4read`: the `out_fmap` on success. -/
def sceGet4read (s : Sce) (i sctrnum nrSctr : Nat) : Except Fault (Option Fmap × Sce) :=
  match lockLun s i sctrnum nrSctr true with
  | none => .ok (none, s)
  | some lun =>
    let s := s.modifyLun i fun l => { l with stats := { l.stats with
      reads := l.stats.reads + 1, readSctrs := l.stats.readSctrs + (nrSctr : Nat) } }
    let firstpg := sctrnum / sceSctrPerPage
    let lastpg := sub64 (u64 (sctrnum + nrSctr)) 1 / sceSctrPerPage
    let fragnum := u32 (firstpg / scePagePerFrag)
    let pgoff := firstpg % scePagePerFrag
    let pgcnt := u32 (sub64 lastpg firstpg + 1)
    if scePagePerFrag < u32 (pgoff + pgcnt) then .ok (none, s)
    else if lun.nrFrag ≤ fragnum then .error .outOfRange
    else get4readFrag s i lun fragnum pgoff pgcnt

/-- `sce_put4read` once the fragment is found. -/
def put4readFrag (s : Sce) (i : Nat) (a : Phys) (frag : Frag) : Except Fault (Ret × Sce) := do
  let s := s.modifyFrag a fun g => { g with nrService := g.nrService - 1 }
  let s := s.modifyLun i fun l => { l with nrService := l.nrService - 1 }
  let (_, s) ← if frag.nrService - 1 = 0 then lunGc s i a else .ok (.error, s)
  return (.success, s)

/-- `sce_put4read` -/
def scePut4read (s : Sce) (i sctrnum nrSctr : Nat) : Except Fault (Ret × Sce) :=
  match lockLun s i sctrnum nrSctr false with
  | none => .ok (.error, s)
  | some lun =>
    let fragnum := u32 (sctrnum / sceSctrPerFrag)
    if sub64 (u64 (sctrnum + nrSctr)) 1 / sceSctrPerFrag ≠ fragnum then .ok (.error, s)
    else if lun.nrFrag ≤ fragnum then .error .outOfRange
    else
      let fdesc := lun.fragmap fragnum
      if isMapped fdesc = false ∨ isValid fdesc = false then .ok (.error, s)
      else
        match s.pfid2frag fdesc with
        | none => .ok (.error, s)
        | some frag =>
          if frag.nrService = 0 ∨ lun.nrService = 0 then .ok (.error, s)
          else put4readFrag s i (phys fdesc) frag

/-- What `sce_invalidate` does to a mapped fragment. -/
def invalidateFrag (s : Sce) (i : Nat) (fdesc : Word) (frag : Frag) (pgoff pgcnt : Nat) : Except Fault Sce := do
  let (frag', n) ← fragInvalidate frag pgoff pgcnt
  let s := s.modifyFrag (phys fdesc) fun _ => frag'
  let s := s.modifyLun i fun l => { l with stats := { l.stats with
    validSctrs := l.stats.validSctrs - (n * sceSctrPerPage : Nat) } }
  let (_, s) ← if isValid fdesc then lunGc s i (phys fdesc) else .ok (.error, s)
  return s

/-- The loop of `sce_invalidate`; it returns the pages left, and the number of mapped fragments met. -/
def invalidateLoop (i : Nat) : Nat → Nat → Nat → Nat → Nat → Sce → Except Fault ((Nat × Nat) × Sce)
  | 0, _, _, count, wh, s => .ok ((count, wh), s)
  | fuel + 1, fragnum, pgoff, count, wh, s =>
    if count = 0 then .ok ((count, wh), s)
    else
      let pgcnt := min (scePagePerFrag - pgoff) count
      match s.luntbl i with
      | none => .error .nullDeref
      | some lun =>
        if lun.nrFrag ≤ fragnum then .error .outOfRange
        else
          let fdesc := lun.fragmap fragnum
          if isMapped fdesc = false then invalidateLoop i fuel (u32 (fragnum + 1)) 0 (count - pgcnt) wh s
          else
            match s.pfid2frag fdesc with
            | none => .ok ((count, wh), s)
            | some frag => do
              let s ← invalidateFrag s i fdesc frag pgoff pgcnt
              invalidateLoop i fuel (u32 (fragnum + 1)) 0 (count - pgcnt) (wh + 1) s

/-- `sce_invalidate` -/
def sceInvalidate (s : Sce) (i sctrnum nrSctr : Nat) : Except Fault (Ret × Sce) :=
  match lockLun s i sctrnum nrSctr true with
  | none => .ok (.error, s)
  | some _ => do
    let s := s.modifyLun i fun l => { l with stats := { l.stats with
      writes := l.stats.writes + 1, writeSctrs := l.stats.writeSctrs + (nrSctr : Nat) } }
    let start := sctrnum / sceSctrPerPage
    let last := sub64 (u64 (sctrnum + nrSctr)) 1 / sceSctrPerPage
    let count := u32 (u32 (sub64 last start) + 1)
    let fragnum := u32 (start / scePagePerFrag)
    let pgoff := start % scePagePerFrag
    let ((_, wh), s) ← invalidateLoop i count fragnum pgoff count 0 s
    let s := if wh = 0 then s else s.modifyLun i fun l => { l with stats := { l.stats with
      writeHits := l.stats.writeHits + 1 } }
    return (.success, s)

/-- `sce_get4pop`: the task on success. -/
def sceGet4pop (s : Sce) (past : Nat → Nat → Word) : Except Fault (Option Poptask × Sce) :=
  match choose4population s past with
  | none => .ok (none, s)
  | some (lunidx, fragnum) => do
    let (ret, s) ← alloc4population s lunidx fragnum
    match ret with
    | none => return (none, s)
    | some pfid =>
      return (some { lunctx := (s.luntbl lunidx).elim 0 Lun.lunctx
                     cdevctx := (s.cdevtbl (scePfidDev pfid)).elim 0 Cdev.cdevctx
                     lunFragnum := fragnum
                     cdevFragnum := scePfidOff pfid }, s)

/-- `sce_put4pop` -/
def scePut4pop (s : Sce) (poptask : Poptask) (failed : Bool) : Except Fault (Ret × Sce) :=
  match lunSearch s poptask.lunctx with
  | none => .ok (.error, s)
  | some i =>
    if failed then cancelPopulation s i poptask.lunFragnum
    else do
      let (ret, s) ← completePopulation s i poptask.lunFragnum
      return (ret, s.modifyLun i fun l => { l with stats := { l.stats with
        populations := l.stats.populations + 1
        allocSctrs := l.stats.allocSctrs + 1
        validSctrs := l.stats.validSctrs + (sceSctrPerFrag : Nat) } })

end Iostash
