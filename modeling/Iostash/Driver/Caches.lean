import Iostash.Driver.Commands
import Iostash.Hook.Address
import Iostash.Sce.Frame
import Iostash.Sce.Removal
import Iostash.Util.Buckets

/-!
# Registering cache devices

`ssd_register`, `ssd_unregister` and `ssd_unregister_all` of `iostash_ssd.c`. Each runs to its end with `ctl_mtx`
held, and the references `_unload_ssd` waits for are given back. Between the engine calls of one such operation nobody
else calls the engine. A read of an SSD that fails takes it offline, and `_unload_ssd` leaves an SSD that is offline in
its bucket, though its memory is freed.
-/

namespace Iostash

namespace Caches

open Util
open Driver (CStr)

/-- What `blkdev_get_by_path` opens: the sectors of the partition, and how often it is open. -/
structure Disk where
  nrSects : Nat
  bdOpeners : Nat
  sized : nrSects < 2 ^ 64

/-- What the kernel answers `ssd_register`: the device number found for the path, the address from `kzalloc`, the
device opened, whether `vmalloc` has memory, and what `kobject_init_and_add` returns. -/
structure Answers where
  bdDev : Option Nat
  addr : Option Nat
  disk : Option Disk
  vmalloc : Bool
  kobj : Int

/-- `struct ssd_info`, as `kzalloc` clears it. -/
structure SsdInfo where
  path : CStr
  devT : Nat
  bdev : Option Disk := none
  nrSctr : Nat := 0
  cdev : Option Nat := none
  online : Bool := false

/-- `ssd` is the memory in use; `bucket` and `nrSsd` are those of `gctx`. -/
structure State where
  ssd : Nat → Option SsdInfo
  bucket : Nat → List Nat
  nrSsd : Nat
  sce : Sce

/-- After `iostash_init`. -/
def start : State := ⟨fun _ => none, fun _ => [], 0, sceCreate⟩

def iostashMaxssdBckts : Nat := sceMaxCdev * 2

def iostashMaxpath : Nat := 80

variable (hash32 : Nat → Nat → Nat) (s : State)

def bucketOf (dev : Nat) : Nat := hash32 dev 32 % iostashMaxssdBckts

def State.devOf (p : Nat) : Nat := (s.ssd p).elim 0 SsdInfo.devT

def State.setSsd (p : Nat) (g : SsdInfo → SsdInfo) : State :=
  { s with ssd := fun q => if q = p then (s.ssd q).map g else s.ssd q }

def State.kzalloc (p : Nat) (info : SsdInfo) : State := { s with ssd := fun q => if q = p then some info else s.ssd q }

def State.kfree (p : Nat) : State := { s with ssd := fun q => if q = p then none else s.ssd q }

/-- `_search_ssd` -/
def searchSsd (dev : Nat) : Option Nat := if dev = 0 then none else bucketFind (bucketOf hash32) s.devOf s.bucket dev

/-- `_insert_ssd` -/
def insertSsd (p : Nat) : Except Fault State :=
  if s.devOf p = 0 then .error .bugOn
  else .ok { s with bucket := bucketAdd (bucketOf hash32) s.devOf s.bucket p }

/-- `_alloc_ssd` -/
def allocSsd (path : CStr) (ans : Answers) : Option (Nat × State) :=
  ans.bdDev.bind fun dev =>
    if (searchSsd hash32 s dev).isSome then none
    else ans.addr.map fun p => (p, s.kzalloc p { path := path, devT := dev })

/-- `sce_rmcdev` of a handle that is not NULL -/
def rmcdev (sce : Sce) : Option Nat → Except Fault Sce
  | none => .ok sce
  | some d => (sceRmcdev sce d).map Prod.snd

/-- `_unload_ssd` -/
def unloadSsd (p : Nat) : Except Fault State :=
  match s.ssd p with
  | none => .error .nullDeref
  | some ssd => do
    let sce ← rmcdev s.sce ssd.cdev
    let s := { s with sce := sce }.setSsd p fun h => { h with cdev := none }
    let s := if ssd.online then
        { s.setSsd p fun h => { h with online := false } with
          bucket := fun b => (s.bucket b).erase p, nrSsd := s.nrSsd - 1 }
      else s
    return s.setSsd p fun h => { h with bdev := none }

/-- `_destroy_ssd` -/
def destroySsd (p : Nat) : Except Fault State := (unloadSsd s p).map fun s => s.kfree p

/-- `ssd_register`. A registration that fails ends in `_destroy_ssd`. -/
def ssdRegister (path : CStr) (ans : Answers) : Except Fault (Int × State) :=
  match allocSsd hash32 s path ans with
  | none => .ok (-1, s)
  | some (p, s) =>
    match ans.disk with
    | none => (destroySsd s p).map fun s => (-1, s)
    | some disk =>
      let s := s.setSsd p fun h => { h with bdev := some disk }
      if 1 < disk.bdOpeners then (destroySsd s p).map fun s => (-1, s)
      else
        let s := s.setSsd p fun h => { h with nrSctr := disk.nrSects }
        if disk.nrSects < iostashHeaderSct then (destroySsd s p).map fun s => (-1, s)
        else
          let s := s.setSsd p fun h => { h with nrSctr := h.nrSctr - iostashHeaderSct }
          match sceAddcdev s.sce (disk.nrSects - iostashHeaderSct) p ans.vmalloc with
          | .error fault => .error fault
          | .ok (none, sce) => (destroySsd { s with sce := sce } p).map fun s => (-1, s)
          | .ok (some d, sce) =>
            let s := { s with sce := sce }.setSsd p fun h => { h with cdev := some d }
            if ans.kobj ≠ 0 then (destroySsd s p).map fun s => (ans.kobj, s)
            else (insertSsd hash32 s p).map fun s =>
              (0, { s.setSsd p fun h => { h with online := true } with nrSsd := s.nrSsd + 1 })

/-- `_ssd_remove`, without its `kobject_put` -/
def ssdRemove (p : Nat) : Except Fault State := (unloadSsd s p).map fun s => s.kfree p

/-- `ssd_unregister`, of the device number found for its path -/
def ssdUnregister (bdDev : Option Nat) : Except Fault State :=
  match bdDev.bind (searchSsd hash32 s) with
  | none => .ok s
  | some p => ssdRemove s p

/-- The inner loop of `ssd_unregister_all`. -/
def removeBucket : List Nat → State → Except Fault State
  | [], s => .ok s
  | p :: rest, s => do
    let s ← ssdRemove s p
    removeBucket rest s

/-- The outer loop of `ssd_unregister_all`. -/
def removeBuckets : List Nat → State → Except Fault State
  | [], s => .ok s
  | b :: rest, s => do
    let s ← removeBucket (s.bucket b) s
    removeBuckets rest s

/-- `ssd_unregister_all` -/
def ssdUnregisterAll : Except Fault State := removeBuckets (List.range iostashMaxssdBckts) s

/-- `_endio4read` of a read of the SSD that failed. The kernels before 4.2 set the flag back for an error that is
none of the device. -/
def endio4read (p : Nat) (ssdOnlineToBe : Bool) : Except Fault State :=
  match s.ssd p with
  | none => .error .nullDeref
  | some _ => .ok (s.setSsd p fun h => { h with online := ssdOnlineToBe })

/-- Control operations, and meanwhile the engine is called by requests, populations and for targets, and reads of
the SSDs fail. -/
inductive Act where
  | register (path : CStr) (ans : Answers)
  | unregister (bdDev : Option Nat)
  | unregisterAll
  | engine (op : Op)
  | endio4read (p : Nat) (ssdOnlineToBe : Bool)

/-- An operation that does not return ends the run. -/
def State.exec : Act → Option State
  | .register path ans => (ssdRegister hash32 s path ans).toOption.map Prod.snd
  | .unregister bdDev => (ssdUnregister hash32 s bdDev).toOption
  | .unregisterAll => (ssdUnregisterAll s).toOption
  | .engine op => (s.sce.exec op).map fun sce => { s with sce := sce }
  | .endio4read p ssdOnlineToBe => (endio4read s p ssdOnlineToBe).toOption

/-- The call is one for a cache device. -/
def plugs : Op → Bool
  | .addcdev _ _ _ => true
  | .rmcdev _ => true
  | _ => false

/-- `strcpy` has room for the path, `kzalloc` returns memory that is not in use, only `iostash_ssd.c` adds and
removes cache devices, and no SSD is unregistered while it is offline. -/
def State.Allows : Act → Prop
  | .register path ans => path.length < iostashMaxpath ∧ ∀ p, ans.addr = some p → p ≠ 0 ∧ s.ssd p = none
  | .unregister bdDev => ∀ p info, s.ssd p = some info → bdDev = some info.devT → info.online = true
  | .unregisterAll => ∀ p info, s.ssd p = some info → info.online = true
  | .engine op => op.InType ∧ plugs op = false
  | .endio4read _ _ => True

def Reached (s : State) : Prop := Reachable (State.exec hash32) State.Allows start s

variable {hash32 s} {s' : State} {p d dev : Nat} {info : SsdInfo} {sce : Sce}

/-! ### What the operations do to the memory -/

theorem State.kfree_setSsd {g : SsdInfo → SsdInfo} : (s.setSsd p g).kfree p = s.kfree p := by
  unfold State.setSsd State.kfree
  congr 1
  funext q
  dsimp only
  split <;> rfl

theorem State.kfree_kzalloc (unused : s.ssd p = none) : (s.kzalloc p info).kfree p = s := by
  unfold State.kzalloc State.kfree
  have same : (fun q => if q = p then none else if q = p then some info else s.ssd q) = s.ssd := by
    funext q
    split
    · rename_i e
      rw [e, unused]
    · rfl
  dsimp only
  rw [same]

theorem State.setSsd_kzalloc {g : SsdInfo → SsdInfo} : (s.kzalloc p info).setSsd p g = s.kzalloc p (g info) := by
  unfold State.kzalloc State.setSsd
  congr 1
  funext q
  dsimp only
  split <;> rfl

@[simp] theorem State.kzalloc_ssd : (s.kzalloc p info).ssd p = some info := if_pos rfl

/-- The device of the engine goes, the entry is unlisted if it is online, and its memory is given back. -/
theorem destroySsd_eq (here : s.ssd p = some info) : destroySsd s p = (rmcdev s.sce info.cdev).map fun sce =>
    if info.online then { s.kfree p with sce := sce, bucket := fun b => (s.bucket b).erase p, nrSsd := s.nrSsd - 1 }
    else { s.kfree p with sce := sce } := by
  simp only [destroySsd, unloadSsd, here]
  cases rmcdev s.sce info.cdev with
  | error fault => rfl
  | ok sce =>
    have last : ∀ (t : State) (g : SsdInfo → SsdInfo), (Except.ok (t.setSsd p g)).map (fun s => s.kfree p) =
        (.ok (t.kfree p) : Except Fault State) := fun t g => congrArg Except.ok State.kfree_setSsd
    refine (last _ _).trans (congrArg Except.ok ?_)
    cases info.online with
    | true =>
      simp only [if_true]
      unfold State.setSsd State.kfree
      congr 1
      funext q
      dsimp only
      split <;> rfl
    | false => exact State.kfree_setSsd

/-- A registration that has no device of the engine yet leaves nothing. -/
theorem destroySsd_kzalloc (unused : s.ssd p = none) (none : info.cdev = none) (off : info.online = false) :
    destroySsd (s.kzalloc p info) p = .ok s := by
  rw [destroySsd_eq State.kzalloc_ssd, none, off]
  show Except.ok { (s.kzalloc p info).kfree p with sce := s.sce } = .ok s
  rw [State.kfree_kzalloc unused]

end Caches

end Iostash
