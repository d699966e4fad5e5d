import Iostash.Sce.State

/-!
# Free fragment list

`sce_freefraglist.c`.
-/

namespace Iostash

/-- `_freefraglist_put`. The stored word is made non-zero by the mapped flag; other flag bits of
`pfid` stay in it. -/
def freefraglistPut (s : Sce) (pfid : Word) : Except Fault (Ret × Sce) :=
  match s.pfid2frag pfid with
  | none => .ok (.error, s)
  | some frag =>
    if frag.fragnum = fragnumWithinFreeList then .ok (.error, s)
    else
      let s := s.modifyFrag (phys pfid) fun g =>
        { g with fragnum := fragnumWithinFreeList, next := s.freefraglist }
      let s := { s with freefraglist := pfid ||| fragdescMapped, nrFreefrag := s.nrFreefrag + 1 }
      if s.nrFrag < s.nrFreefrag then .error .bugOn else .ok (.success, s)

/-- `_freefraglist_get` -/
def freefraglistGet (s : Sce) : Except Fault ((Ret × Word) × Sce) :=
  let pfid := s.freefraglist
  if pfid = 0#32 then .ok ((.error, 0#32), s)
  else
    match s.pfid2frag pfid with
    | none => .error .bugOn
    | some frag =>
      let s := { s with freefraglist := frag.next }
      let s := s.modifyFrag (phys pfid) fun g => { g with next := 0#32, fragnum := fragnumFree }
      if s.nrFreefrag = 0 then .error .bugOn
      else .ok ((.success, pfid), { s with nrFreefrag := s.nrFreefrag - 1 })

/-- The walk of `_freefraglist_rmcdev`; `parent` is the last node kept. -/
def freefraglistRmcdevLoop (devnum : Nat) : Nat → Option Phys → Word → Sce → Except Fault Sce
  | 0, _, pfid, s => if pfid = 0#32 then .ok s else .error .diverge
  | fuel + 1, parent, pfid, s =>
    if pfid = 0#32 then .ok s
    else
      match s.pfid2frag pfid with
      | none => .error .bugOn
      | some child =>
        if scePfidDev pfid = devnum then
          let s := match parent with
            | some p => s.modifyFrag p fun g => { g with next := child.next }
            | none => { s with freefraglist := child.next }
          freefraglistRmcdevLoop devnum fuel parent child.next { s with nrFreefrag := s.nrFreefrag - 1 }
        else freefraglistRmcdevLoop devnum fuel (some (phys pfid)) child.next s

/-- `_freefraglist_rmcdev`. The list has `nr_freefrag` nodes to walk over. -/
def freefraglistRmcdev (s : Sce) (devnum : Nat) : Except Fault Sce :=
  freefraglistRmcdevLoop devnum s.nrFreefrag none s.freefraglist s

end Iostash
