import Iostash.Sce.FreeFragList
import Iostash.Sce.Fragment

/-!
# Fragment mapping

`sce_mapping.c`.
-/

namespace Iostash

/-- The fragment `_map_frag` starts from: all pages valid, except the ones of the last fragment that
reach past the end of the LUN. The size in sectors is computed in 32 bits. -/
def mapFragInit (lun : Lun) (fragnum : Nat) : Except Fault Frag :=
  let nrSctr := u32 (lun.nrFrag * sceSctrPerFrag)
  if fragnum = lun.nrFrag - 1 ∧ lun.nrSctr < nrSctr then do
    let pagecnt := u32 (nrSctr - lun.nrSctr + sceSctrPerPage - 1) / sceSctrPerPage
    let pagenum := sub32 scePagePerFrag pagecnt
    let (frag, _) ← fragInvalidate fragInit pagenum pagecnt
    return frag
  else return fragInit

/-- `_map_frag` -/
def mapFrag (s : Sce) (i fragnum : Nat) (pfid : Word) : Except Fault (Ret × Sce) :=
  match s.luntbl i with
  | none => .ok (.error, s)
  | some lun =>
    if lun.nrFrag ≤ fragnum then .ok (.error, s)
    else if s.isvalidpfid pfid = false then .ok (.error, s)
    else if isMapped (lun.fragmap fragnum) then .ok (.error, s)
    else
      match s.pfid2frag pfid with
      | none => .ok (.error, s)
      | some _ => do
        let frag ← mapFragInit lun fragnum
        let s := s.modifyFrag (phys pfid) fun _ => { frag with lunidx := i, fragnum := fragnum }
        return (.success, s.setDesc i fragnum (fragdescMapped ||| (pfid &&& fragdescDatamask)))

/-- `_unmap_frag` -/
def unmapFrag (s : Sce) (i fragnum : Nat) : Except Fault (Ret × Sce) :=
  match s.luntbl i with
  | none => .ok (.error, s)
  | some lun =>
    if lun.nrFrag ≤ fragnum then .ok (.error, s)
    else
      let fdesc := lun.fragmap fragnum
      if isMapped fdesc = false then .ok (.error, s)
      else
        match s.pfid2frag fdesc with
        | none => .ok (.error, s)
        | some frag =>
          if 0 < frag.nrService then .ok (.error, s)
          else do
            let nrMiss := frag.nrMiss
            let (ret, s) ← freefraglistPut s fdesc
            if ret ≠ .success then return (.error, s)
            return (.success, s.setDesc i fragnum (BitVec.ofNat 32 nrMiss &&& fragdescDatamask))

end Iostash
