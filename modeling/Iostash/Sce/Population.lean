import Iostash.Sce.Eviction
import Iostash.Sce.MissLog

/-!
# Cache population

`sce_population.c`, with `SCE_POPULATION_HOTMRU`.
-/

namespace Iostash

/-- `lun->fragmap[fragnum]` read without a bounds check; `past` is what lies behind the map. -/
def readFragmap (past : Nat → Nat → Word) (i : Nat) (lun : Lun) (fragnum : Nat) : Word :=
  if fragnum < lun.nrFrag then lun.fragmap fragnum else past i fragnum

/-- The loop of `_choose4population`: `n` entries are left of the window, `best` is the choice so far. -/
def choose4populationLoop (s : Sce) (past : Nat → Nat → Word) :
    Nat → Nat → Option (Nat × Nat) → Option (Nat × Nat)
  | 0, _, best => best
  | n + 1, maxmiss, best =>
    match misslogGet s (sceMissWindow - (n + 1)) with
    | (.success, some (lunidx, fragnum)) =>
      if lunIsvalididx s lunidx = false then choose4populationLoop s past n maxmiss best
      else
        match s.luntbl lunidx with
        | none => choose4populationLoop s past n maxmiss best
        | some lun =>
          let fdesc := readFragmap past lunidx lun fragnum
          let miss := (fragdescData fdesc).toNat
          if isMapped fdesc then choose4populationLoop s past n maxmiss best
          else if maxmiss < miss then choose4populationLoop s past n miss (some (lunidx, fragnum))
          else choose4populationLoop s past n maxmiss best
    | _ => best

/-- `_choose4population` -/
def choose4population (s : Sce) (past : Nat → Nat → Word) : Option (Nat × Nat) :=
  choose4populationLoop s past sceMissWindow 0 none

/-- The retry loop of `_alloc4population`: take a free fragment, else evict one and try again. -/
def allocLoop : Nat → Sce → Except Fault ((Ret × Word) × Sce)
  | 0, _ => .error .diverge
  | fuel + 1, s => do
    let ((ret, pfid), s) ← freefraglistGet s
    if ret = .success ∧ pfid ≠ 0#32 then return ((.success, pfid), s)
    let (ret, s) ← evictFrag s
    if ret ≠ .success then return ((.error, 0#32), s)
    allocLoop fuel { s with nrEviction := u32 (s.nrEviction + 1) }

/-- `_alloc4population`: the pfid on success. -/
def alloc4population (s : Sce) (i fragnum : Nat) : Except Fault (Option Word × Sce) :=
  match s.luntbl i with
  | none => .ok (none, s)
  | some lun =>
    if lun.nrFrag ≤ fragnum then .ok (none, s)
    else do
      let ((ret, pfid), s) ← allocLoop (s.nrFrag + 2) s
      if ret ≠ .success then return (none, s)
      let (ret, s) ← mapFrag s i fragnum pfid
      if ret = .success then
        let s := s.modifyLun i fun l => { l with nrService := u32 (l.nrService + 1) }
        if (s.pfid2frag pfid).isNone then throw .nullDeref
        return (some pfid, s.modifyFrag (phys pfid) fun g => { g with nrService := u16 (g.nrService + 1) })
      else
        let (_, s) ← freefraglistPut s pfid
        return (none, s)

/-- `lun->nr_service--` and the garbage collection that ends a population. -/
def releasePopulation (s : Sce) (i : Nat) (a : Phys) : Except Fault (Ret × Sce) :=
  lunGc (s.modifyLun i fun l => { l with nrService := sub32 l.nrService 1 }) i a

/-- `_complete_population` -/
def completePopulation (s : Sce) (i fragnum : Nat) : Except Fault (Ret × Sce) :=
  match s.luntbl i with
  | none => .ok (.error, s)
  | some lun =>
    if lun.nrFrag ≤ fragnum then .ok (.error, s)
    else
      let fdesc := lun.fragmap fragnum
      if isMapped fdesc = false then .ok (.error, s)
      else
        match s.pfid2frag fdesc with
        | none => .ok (.error, s)
        | some frag =>
          if isValid fdesc then releasePopulation s i (phys fdesc)
          else if frag.next ≠ 0#32 then .ok (.error, s)
          else if frag.nrService ≠ 1 then .ok (.error, s)
          else
            let s := s.setDesc i fragnum (fdesc ||| fragdescValid)
            let s := s.modifyFrag (phys fdesc) fun g => { g with nrService := 0 }
            releasePopulation s i (phys fdesc)

/-- `_cancel_population` -/
def cancelPopulation (s : Sce) (i fragnum : Nat) : Except Fault (Ret × Sce) :=
  match s.luntbl i with
  | none => .ok (.error, s)
  | some lun =>
    if lun.nrFrag ≤ fragnum then .ok (.error, s)
    else
      let fdesc := lun.fragmap fragnum
      if isMapped fdesc = false then .ok (.error, s)
      else
        match s.pfid2frag fdesc with
        | none => .ok (.error, s)
        | some frag =>
          if isValid fdesc = false then
            if frag.next ≠ 0#32 then .ok (.error, s)
            else if frag.nrService ≠ 1 then .ok (.error, s)
            else do
              let s := s.modifyFrag (phys fdesc) fun g => { g with nrService := 0 }
              let (_, s) ← unmapFrag s i fragnum
              releasePopulation s i (phys fdesc)
          -- a secondary fragment would hang off `next`
          else if frag.next = 0#32 then .ok (.error, s)
          else do
            let s := s.modifyFrag (phys fdesc) fun g =>
              { g with next := 0#32, nrService := u16 (g.nrService + 2 ^ 16 - 1) }
            let (_, s) ← freefraglistPut s frag.next
            releasePopulation s i (phys fdesc)

end Iostash
