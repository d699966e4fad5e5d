import Iostash.Util.Pool
import Iostash.Client.Pairing

/-!
# Populations and teardowns

`poptask_read` and `poptask_write` of `iostash_population.c` beside `ssd_unregister` and
`hdd_unregister`. The address of an `ssd_info` or `hdd_info` is the context the engine knows it by. Read
requests are the environment: they call the engine and hold references of devices and disks.
-/

namespace Iostash

namespace Driver

open Util

/-- The fields of `struct ssd_info` a teardown goes by. `nrRef` is what populations hold of `nr_ref`,
`requests` what read requests hold. -/
structure SsdInfo where
  cdev : Option Nat
  bdev : Bool
  online : Bool
  listed : Bool
  nrRef : Nat
  requests : Nat
  freed : Bool

/-- The fields of `struct hdd_info` a teardown goes by; `released` when `blkdev_put` has been called. -/
structure HddInfo where
  hooked : Bool
  online : Bool
  ioPending : Nat
  nrRef : Nat
  bdev : Bool
  released : Bool
  lun : Option Nat
  freed : Bool

/-- How far `_unload_ssd` and `kfree` have come. -/
inductive SsdStage where
  | rmcdev
  | clearCdev
  | offline
  | listDel
  | synchronize
  | gracePeriod (bound : Nat)
  | waitRef
  | blkdevPut
  | clearBdev
  | free
  deriving DecidableEq

/-- How far `_unload_hdd` and `kfree` have come. -/
inductive HddStage where
  | unhook
  | offline
  | synchronize
  | gracePeriod (bound : Nat)
  | waitPending
  | waitRef
  | blkdevPut
  | clearBdev
  | rmlun
  | clearLun
  | free
  deriving DecidableEq

/-- The work done under `ctl_mtx`. -/
inductive Control where
  | idle
  | ssd (addr : Nat) (stage : SsdStage)
  | hdd (addr : Nat) (stage : HddStage)
  deriving DecidableEq

/-- `rcuOpen` are the read-side sections open, numbered in the order they began. `misread` is set when
`poptask_write` reads an `ssd_info` that has been freed, `misused` when `poptask_read` uses an `hdd_info`
whose `bdev` has been released. `legacy` is a kernel before 3.2, where `_hdd_remove` frees the
`hdd_info`; later it stays in its table. -/
structure State where
  legacy : Bool
  world : World
  ssd : Nat → SsdInfo
  hdd : Nat → HddInfo
  control : Control
  rcuNext : Nat
  rcuOpen : List Nat
  misread : Bool
  misused : Bool

/-- What a thread that populates does next. -/
inductive Pc where
  | get4pop
  /-- `poptask_read` -/
  | readHdd
  | readIo
  /-- `poptask_write`: the guard -/
  | lock
  | testCdev
  | testBdev
  | testOnline
  | incRef
  | unlock
  | writeIo
  | decRef (failed : Bool)
  | unlockOffline
  | put4pop (failed : Bool)
  deriving DecidableEq

structure Thread where
  pc : Pc
  pop : Pop
  section_ : Nat

inductive Party where
  | control
  | requests
  | population (t : Thread)

inductive Command where
  | nothing
  | registerSsd (addr nrSctr : Nat) (vmalloc : Bool)
  | registerHdd (addr nrSctr : Nat) (vmalloc : Bool)
  | unregisterSsd (addr : Nat)
  | unregisterHdd (addr : Nat)

/-- What a request does to the engine, to the references it holds, and to its device when `_endio4read` gets an error
from it: `onlineToBe` is `ssd_online_to_be`. -/
inductive Work where
  | get4read (lunidx sctrnum nrSctr : Nat)
  | put4read (id : Nat)
  | invalidate (lunidx sctrnum nrSctr : Nat)
  | ssdRefs (addr requests : Nat)
  | hddRefs (addr ioPending nrRef : Nat)
  | endio4read (addr : Nat) (onlineToBe : Bool)

/-- What a step meets. -/
structure Env where
  command : Command := .nothing
  work : Work := .ssdRefs 0 0
  past : Nat → Nat → Word := fun _ _ => 0#32
  ok : Bool := true

namespace State

def setSsd (s : State) (addr : Nat) (φ : SsdInfo → SsdInfo) : State :=
  { s with ssd := fun a => if a = addr then φ (s.ssd a) else s.ssd a }

def setHdd (s : State) (addr : Nat) (φ : HddInfo → HddInfo) : State :=
  { s with hdd := fun a => if a = addr then φ (s.hdd a) else s.hdd a }

/-- `poptask_write` reads a field of an `ssd_info`. -/
def readSsd (s : State) (addr : Nat) : State := { s with misread := s.misread || (s.ssd addr).freed }

/-- `poptask_read` uses the `bdev` of an `hdd_info`. -/
def useHdd (s : State) (addr : Nat) : State :=
  { s with misused := s.misused || (s.hdd addr).freed || (s.hdd addr).released }

def next (s : State) (control : Control) : State := { s with control := control }

/-- A call of the engine. -/
def call (s : State) (call : Call) : Option (Reply × State) :=
  (s.world.exec call).bind fun w => w.log.head?.map fun event => (event.reply, { s with world := w })

end State

/-- A step under `ctl_mtx`. -/
def controlStep (env : Env) (s : State) : Option State :=
  match s.control with
  | .idle =>
    match env.command with
    | .nothing => some s
    | .registerSsd addr nrSctr vmalloc =>
      if (s.ssd addr).freed then
        (s.call (.addcdev nrSctr addr vmalloc)).map fun (reply, s) =>
          match reply with
          | .hndl (some d) => s.setSsd addr fun _ => ⟨some d, true, true, true, 0, 0, false⟩
          | _ => s
      else none
    | .registerHdd addr nrSctr vmalloc =>
      if (s.hdd addr).freed then
        (s.call (.addlun nrSctr addr vmalloc)).map fun (reply, s) =>
          match reply with
          | .hndl (some i) => s.setHdd addr fun _ => ⟨true, true, 0, 0, true, false, some i, false⟩
          | _ => s
      else none
    | .unregisterSsd addr => some (if (s.ssd addr).listed then s.next (.ssd addr .rmcdev) else s)
    | .unregisterHdd addr => some (if (s.hdd addr).freed then s else s.next (.hdd addr .unhook))
  | .ssd addr stage =>
    let ssd := s.ssd addr
    match stage with
    | .rmcdev =>
      match ssd.cdev with
      | some d => (s.call (.rmcdev d)).map fun (_, s) => s.next (.ssd addr .clearCdev)
      | none => some (s.next (.ssd addr .offline))
    | .clearCdev => some ((s.setSsd addr fun x => { x with cdev := none }).next (.ssd addr .offline))
    | .offline =>
      if ssd.online then some ((s.setSsd addr fun x => { x with online := false }).next (.ssd addr .listDel))
      else some (s.next (.ssd addr .blkdevPut))
    | .listDel => some ((s.setSsd addr fun x => { x with listed := false }).next (.ssd addr .synchronize))
    | .synchronize => some (s.next (.ssd addr (.gracePeriod s.rcuNext)))
    | .gracePeriod bound => if s.rcuOpen.all (bound ≤ ·) then some (s.next (.ssd addr .waitRef)) else none
    | .waitRef => if ssd.nrRef + ssd.requests = 0 then some (s.next (.ssd addr .blkdevPut)) else none
    | .blkdevPut => some (s.next (.ssd addr .clearBdev))
    | .clearBdev => some ((s.setSsd addr fun x => { x with bdev := false }).next (.ssd addr .free))
    | .free => some ((s.setSsd addr fun x => { x with freed := true }).next .idle)
  | .hdd addr stage =>
    let hdd := s.hdd addr
    match stage with
    | .unhook => some ((s.setHdd addr fun x => { x with hooked := false }).next (.hdd addr .offline))
    | .offline =>
      if hdd.online then some ((s.setHdd addr fun x => { x with online := false }).next (.hdd addr .synchronize))
      else some (s.next (.hdd addr .blkdevPut))
    | .synchronize => some (s.next (.hdd addr (.gracePeriod s.rcuNext)))
    | .gracePeriod bound => if s.rcuOpen.all (bound ≤ ·) then some (s.next (.hdd addr .waitPending)) else none
    | .waitPending => if hdd.ioPending = 0 then some (s.next (.hdd addr .waitRef)) else none
    | .waitRef => if hdd.nrRef = 0 then some (s.next (.hdd addr .blkdevPut)) else none
    | .blkdevPut =>
      some ((s.setHdd addr fun x => { x with released := x.released || x.bdev }).next (.hdd addr .clearBdev))
    | .clearBdev => some ((s.setHdd addr fun x => { x with bdev := false }).next (.hdd addr .rmlun))
    | .rmlun =>
      match hdd.lun with
      | some i => (s.call (.rmlun i)).map fun (_, s) => s.next (.hdd addr .clearLun)
      | none => some (s.next (.hdd addr .free))
    | .clearLun => some ((s.setHdd addr fun x => { x with lun := none }).next (.hdd addr .free))
    | .free => some ((s.setHdd addr fun x => { x with freed := x.freed || s.legacy }).next .idle)

/-- A step of a request. -/
def requestStep (env : Env) (s : State) : Option State :=
  match env.work with
  | .get4read i x n => (s.call (.get4read i x n)).map Prod.snd
  | .put4read id => (s.call (.put4read id)).map Prod.snd
  | .invalidate i x n => (s.call (.invalidate i x n)).map Prod.snd
  | .ssdRefs addr requests => some (s.setSsd addr fun x => { x with requests := requests })
  | .hddRefs addr ioPending nrRef => some (s.setHdd addr fun x => { x with ioPending := ioPending, nrRef := nrRef })
  -- the request still holds its reference
  | .endio4read addr onlineToBe =>
    if 0 < (s.ssd addr).requests then some (s.setSsd addr fun x => { x with online := onlineToBe }) else none

/-- A step of a thread that populates; when `poptask_read` fails the thread begins anew. -/
def Thread.run (t : Thread) (env : Env) (s : State) : Option (State × Thread) :=
  let addr := t.pop.task.cdevctx
  match t.pc with
  | .get4pop => (s.call (.get4pop env.past)).map fun (reply, s') =>
    match reply with
    | .poptask (some task) => (s', { t with pc := .readHdd, pop := ⟨s.world.now, task⟩ })
    | _ => (s', t)
  | .readHdd => some (s.useHdd t.pop.task.lunctx, { t with pc := .readIo })
  | .readIo => some (s.useHdd t.pop.task.lunctx, { t with pc := if env.ok then .lock else .get4pop })
  | .lock =>
    some ({ s with rcuNext := s.rcuNext + 1, rcuOpen := s.rcuNext :: s.rcuOpen },
      { t with pc := .testCdev, section_ := s.rcuNext })
  | .testCdev =>
    some (s.readSsd addr, { t with pc := if (s.ssd addr).cdev.isSome then .testBdev else .unlockOffline })
  | .testBdev => some (s.readSsd addr, { t with pc := if (s.ssd addr).bdev then .testOnline else .unlockOffline })
  | .testOnline => some (s.readSsd addr, { t with pc := if (s.ssd addr).online then .incRef else .unlockOffline })
  | .incRef => some ((s.readSsd addr).setSsd addr fun x => { x with nrRef := x.nrRef + 1 }, { t with pc := .unlock })
  | .unlock => some ({ s with rcuOpen := s.rcuOpen.erase t.section_ }, { t with pc := .writeIo })
  | .writeIo => some (s.readSsd addr, { t with pc := .decRef (!env.ok) })
  | .decRef failed =>
    some ((s.readSsd addr).setSsd addr fun x => { x with nrRef := x.nrRef - 1 }, { t with pc := .put4pop failed })
  | .unlockOffline => some ({ s with rcuOpen := s.rcuOpen.erase t.section_ }, { t with pc := .put4pop true })
  | .put4pop failed => (s.call (.put4pop t.pop.id failed)).map fun (_, s') => (s', { t with pc := .get4pop })

def Party.run (party : Party) (env : Env) (s : State) : Option (State × List Party) :=
  match party with
  | .control => (controlStep env s).map fun s => (s, [.control])
  | .requests => (requestStep env s).map fun s => (s, [.requests])
  | .population t => (t.run env s).map fun (s, t) => (s, [.population t])

abbrev System := Pool State Party

def System.exec (p : System) (act : Nat × Env) : Option System := Pool.exec Party.run p act

/-- Nothing is registered. -/
def State.start (legacy : Bool) : State :=
  { legacy := legacy, world := .init, ssd := fun _ => ⟨none, false, false, false, 0, 0, true⟩,
    hdd := fun _ => ⟨false, false, 0, 0, false, false, none, true⟩, control := .idle,
    rcuNext := 0, rcuOpen := [], misread := false, misused := false }

/-- The control path, the requests, and `n` threads that populate. -/
def System.start (legacy : Bool) (n : Nat) : System :=
  ⟨.start legacy, .control :: .requests :: List.replicate n (.population ⟨.get4pop, ⟨0, ⟨0, 0, 0, 0⟩⟩, 0⟩)⟩

end Driver

end Iostash
