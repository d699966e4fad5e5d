import Iostash.Sce.Mapping

/-!
# LUNs

`sce_lun.c`.
-/

namespace Iostash

/-- `_lun_destroy` -/
def lunDestroy (s : Sce) (i : Nat) : Sce := { s with luntbl := fun j => if j = i then none else s.luntbl j }

/-- `_lun_search` -/
def lunSearch (s : Sce) (lunctx : Nat) : Option Nat :=
  (List.range sceMaxLun).find? fun i => (s.luntbl i).elim 0 Lun.lunctx == lunctx

/-- `_lun_init`; `none` when there is no memory for the map. `vmalloc` of no bytes returns null. -/
def lunInit (nrSctr : Nat) (vmalloc : Bool) : Option Lun :=
  let nrFrag := u32 (u64 (nrSctr + sceSctrPerFrag - 1) / sceSctrPerFrag)
  if vmalloc ∧ nrFrag ≠ 0 then
    some { fragmap := fun _ => 0x55555555#32, lunctx := 0, nrSctr := nrSctr, nrFrag := nrFrag,
           nrService := 0, waiting4deletion := false, stats := {} }
  else none

/-- The loop of `_lun_purge` over the fragments of the LUN. -/
def unmapAll (i : Nat) : List Nat → Sce → Except Fault Sce
  | [], s => .ok s
  | fragnum :: rest, s => do
    let (_, s) ← unmapFrag s i fragnum
    unmapAll i rest s

/-- `_lun_purge` -/
def lunPurge (s : Sce) (i : Nat) : Except Fault (Ret × Sce) :=
  match s.luntbl i with
  | none => .ok (.error, s)
  | some lun =>
    if lun.nrService = 0 ∧ s.nrLun ≠ 0 then do
      let s ← unmapAll i (List.range lun.nrFrag) s
      let s := lunDestroy s i
      return (.success, { s with nrLun := s.nrLun - 1 })
    else .ok (.error, s)

/-- `_lun_gc` for the fragment structure at `a`. -/
def lunGc (s : Sce) (i : Nat) (a : Phys) : Except Fault (Ret × Sce) :=
  match s.frag? a with
  | none => .error .nullDeref
  | some frag => do
    let (_, s) ← if frag.nrService = 0 ∧ frag.nrValid = 0 then unmapFrag s i frag.fragnum
      else .ok (.error, s)
    let (_, s) ← if (s.luntbl i).any (fun l => l.waiting4deletion && l.nrService == 0) then lunPurge s i
      else .ok (.error, s)
    return (.success, s)

/-- `_lun_isvalididx` -/
def lunIsvalididx (s : Sce) (lunidx : Nat) : Bool :=
  decide (lunidx < sceMaxLun) && (s.luntbl lunidx).any fun l => !l.waiting4deletion

/-- The loop of `_lun_rmcdev`. -/
def lunRmcdevLoop (i devnum : Nat) : List Nat → Sce → Sce
  | [], s => s
  | fragnum :: rest, s =>
    match s.luntbl i with
    | none => s
    | some lun =>
      let fdesc := lun.fragmap fragnum
      if isMapped fdesc = false ∨ devnum ≠ scePfidDev fdesc then lunRmcdevLoop i devnum rest s
      else
        match s.pfid2frag fdesc with
        | none => lunRmcdevLoop i devnum rest s
        | some frag =>
          let s := s.setDesc i fragnum (BitVec.ofNat 32 frag.nrMiss &&& fragdescDatamask)
          let s := s.modifyLun i fun l => { l with stats := { l.stats with
            allocSctrs := l.stats.allocSctrs - 1
            validSctrs := l.stats.validSctrs - (frag.nrValid * sceSctrPerPage : Nat) } }
          lunRmcdevLoop i devnum rest s

/-- `_lun_rmcdev` -/
def lunRmcdev (s : Sce) (i devnum : Nat) : Sce :=
  match s.luntbl i with
  | none => s
  | some lun => lunRmcdevLoop i devnum (List.range lun.nrFrag) s

end Iostash
