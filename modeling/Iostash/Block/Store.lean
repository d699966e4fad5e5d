import Iostash.Util.History
import Iostash.Client.Holding
import Iostash.Hook.Writes
import Iostash.Hook.Address

/-!
# Disks behind their cache

What the disks and the cache devices hold, and the bios and populations on their way: `iostash_mkrequest`
for reads and writes, the completions of their I/O, and the steps of `_pdm_thread` with `poptask_read` and
`poptask_write`. Each is a step of its own, and they interleave in any order. The I/O of a bio or a population is
one step, at which all its sectors are read or written.
-/

namespace Iostash

open Util

namespace World

/-- The call with its reply. -/
def ask (w : World) (call : Call) : Option (Reply × World) :=
  (w.exec call).bind fun w' => w'.log.head?.map fun event => (event.reply, w')

/-- `iostash_mkrequest` for a read, until the bio is served from the fragment returned or goes on to the disk. -/
def mkrequestRead (w : World) (hdd : Target) (bio : Bio) : Option (Option Fmap × World) :=
  if hdd.online = false then some (none, w)
  else if bio.nrSctr = 0 then some (none, w)
  else if bio.psn < hdd.partStart ∨ hdd.partEnd < u64 (bio.psn + bio.nrSctr) then some (none, w)
  else if sub64 (u64 (bio.psn + bio.nrSctr)) 1 / sceSctrPerFrag ≠ bio.psn / sceSctrPerFrag then some (none, w)
  else (w.ask (.get4read hdd.lun bio.psn bio.nrSctr)).map fun answer =>
    match answer.1 with
    | .fmap m => (m, answer.2)
    | _ => (none, answer.2)

end World

/-- How far `_pdm_thread` is with a population. -/
inductive Stage where
  | asked
  | read (fragbuf : Nat → Sector)
  | written

/-- A write bio, named by the time it came; `landed` is when its data reached the disk. -/
structure WriteBio where
  hdd : Nat
  psn : Nat
  nrSctr : Nat
  data : Nat → Sector
  began : Nat
  landed : Option Nat
  ended : Option Nat

/-- A read bio, named by the time it came. `hit` is what `sce_get4read` answered, with the time of the call,
until `sce_put4read`; `data` what has been read for the bio. -/
structure ReadBio where
  hdd : Nat
  psn : Nat
  nrSctr : Nat
  began : Nat
  hit : Option (Nat × Fmap)
  data : Option (Nat → Sector)

/-- A read bio that was completed with data, and what it returned. -/
structure Served where
  hdd : Nat
  psn : Nat
  nrSctr : Nat
  began : Nat
  ended : Nat
  data : Nat → Sector

/-- Disks and targets go by the LUN context, which is the `struct hdd_info`; cache devices by theirs. -/
structure Store where
  world : World
  targets : Nat → Option Target
  disk : History (Nat × Nat) Sector
  ssd : Nat → Nat → Sector
  stage : Nat → Stage
  writes : List WriteBio
  reads : List ReadBio
  served : List Served

/-- The sectors a write bio changes. -/
def WriteBio.change (b : WriteBio) (k : Nat × Nat) : Option Sector :=
  if k.1 = b.hdd ∧ b.psn ≤ k.2 ∧ k.2 < b.psn + b.nrSctr then some (b.data (k.2 - b.psn)) else none

def Stage.done : Stage → Bool
  | .written => true
  | _ => false

namespace Store

/-- A step. A write or a read bio is named by the time it came, a population by the time of its `sce_get4pop`,
a hit by the time of its `sce_get4read`. A write bio that fails leaves the disk as it is; a read bio that fails, for
want of memory or by the errors of its I/O, is completed without data, whatever status it is given. -/
inductive Act where
  | addcdev (nrSctr cdctx : Nat) (vmalloc : Bool)
  | rmcdev (devnum : Nat)
  | register (hdd nrSctr : Nat) (vmalloc : Bool)
  | offline (hdd : Nat)
  | rmlun (hdd : Nat)
  | write (hdd : Nat) (bio : Bio) (data : Nat → Sector)
  | land (id : Nat)
  | endWrite (id : Nat)
  | failWrite (id : Nat)
  | get4pop (past : Nat → Nat → Word)
  | poptaskRead (id : Nat) (fragbuf : Nat → Sector)
  | poptaskWrite (id : Nat)
  | put4pop (id : Nat)
  | read (hdd : Nat) (bio : Bio)
  | readSsd (id : Nat)
  | readHdd (id : Nat)
  | put4read (hit : Nat)
  | endRead (id : Nat)
  | failRead (id : Nat)

/-- The sectors of a disk from one of them on. -/
def sectors (s : Store) (hdd first : Nat) : Nat → Sector := fun o => s.disk.contents (hdd, first + o)

/-- The data read for a bio; what it has been read from is up to date at present. -/
def deliver (s : Store) (id : Nat) (get : ReadBio → Option (Nat → Sector)) : Option Store :=
  (s.reads.find? fun r => r.began == id).bind fun r => (get r).map fun data =>
    { s with disk := s.disk.tick, reads := { r with data := some data } :: s.reads.eraseP fun r => r.began == id }

def engine (s : Store) (call : Call) : Option Store :=
  (s.world.exec call).map fun w => { s with world := w, disk := s.disk.tick }

def exec (s : Store) : Act → Option Store
  | .addcdev nrSctr cdctx vmalloc => s.engine (.addcdev nrSctr cdctx vmalloc)
  | .rmcdev devnum => s.engine (.rmcdev devnum)
  | .register hdd nrSctr vmalloc => (s.world.ask (.addlun nrSctr hdd vmalloc)).map fun answer =>
    { s with
      world := answer.2, disk := s.disk.tick
      targets := match answer.1 with
        | .hndl (some i) => Function.update s.targets hdd (some (hddRegister i nrSctr))
        | _ => s.targets }
  | .offline hdd =>
    some { s with
      disk := s.disk.tick
      targets := Function.update s.targets hdd ((s.targets hdd).map fun t => { t with online := false }) }
  | .rmlun hdd => (s.targets hdd).bind fun t => (s.world.exec (.rmlun t.lun)).map fun w =>
    { s with world := w, disk := s.disk.tick, targets := Function.update s.targets hdd none }
  | .write hdd bio data =>
    ((s.targets hdd).elim (some s.world) fun t => s.world.mkrequestWrite t bio).map fun w =>
      { s with
        world := w, disk := s.disk.tick
        writes := ⟨hdd, bio.psn, bio.nrSctr, data, s.disk.now, none, none⟩ :: s.writes }
  | .land id => (s.writes.find? fun b => b.began == id && b.landed.isNone).map fun b =>
    { s with
      disk := s.disk.update b.change
      writes := { b with landed := some (s.disk.now + 1) } ::
        s.writes.eraseP fun b => b.began == id && b.landed.isNone }
  | .endWrite id => (s.writes.find? fun b => b.began == id && b.landed.isSome && b.ended.isNone).map fun b =>
    { s with
      disk := s.disk.tick
      writes := { b with ended := some (s.disk.now + 1) } ::
        s.writes.eraseP fun b => b.began == id && b.landed.isSome && b.ended.isNone }
  | .failWrite id => (s.writes.find? fun b => b.began == id && b.landed.isNone).map fun _ =>
    { s with disk := s.disk.tick, writes := s.writes.eraseP fun b => b.began == id && b.landed.isNone }
  | .get4pop past => (s.world.exec (.get4pop past)).map fun w =>
    { s with world := w, disk := s.disk.tick, stage := Function.update s.stage s.world.now .asked }
  | .poptaskRead id fragbuf => (s.world.pops.find? fun p => p.id == id).bind fun p =>
    (s.targets p.task.lunctx).bind fun t =>
      (Iostash.poptaskRead true (s.sectors p.task.lunctx 0) t.nrSctr p.task.lunFragnum fragbuf).map fun fragbuf =>
        { s with disk := s.disk.tick, stage := Function.update s.stage id (.read fragbuf) }
  | .poptaskWrite id => (s.world.pops.find? fun p => p.id == id).bind fun p =>
    match s.stage id with
    | .read fragbuf => (Iostash.poptaskWrite true true (s.ssd p.task.cdevctx) p.task.cdevFragnum fragbuf).map fun ssd =>
      { s with
        disk := s.disk.tick, ssd := Function.update s.ssd p.task.cdevctx ssd
        stage := Function.update s.stage id .written }
    | _ => none
  | .put4pop id => s.engine (.put4pop id !(s.stage id).done)
  | .read hdd bio =>
    ((s.targets hdd).elim (some (none, s.world)) fun t => s.world.mkrequestRead t bio).map fun answer =>
      { s with
        world := answer.2, disk := s.disk.tick
        reads := ⟨hdd, bio.psn, bio.nrSctr, s.disk.now, answer.1.map (s.world.now, ·), none⟩ :: s.reads }
  | .readSsd id => s.deliver id fun r => r.hit.map fun hit o =>
    s.ssd hit.2.cdevctx (cloneSector hit.2.fragnum r.psn + o)
  | .readHdd id => s.deliver id fun r => some (s.sectors r.hdd r.psn)
  | .put4read hit => (s.world.exec (.put4read hit)).map fun w =>
    { s with
      world := w, disk := s.disk.tick
      reads := s.reads.map fun r => if r.hit.map Prod.fst = some hit then { r with hit := none } else r }
  | .endRead id => (s.reads.find? fun r => r.began == id).bind fun r => r.data.map fun data =>
    { s with
      disk := s.disk.tick
      reads := s.reads.eraseP fun r => r.began == id
      served := ⟨r.hdd, r.psn, r.nrSctr, r.began, s.disk.now, data⟩ :: s.served }
  | .failRead id => (s.reads.find? fun r => r.began == id).map fun _ =>
    { s with disk := s.disk.tick, reads := s.reads.eraseP fun r => r.began == id }

def init (contents : Nat × Nat → Sector) (ssd : Nat → Nat → Sector) : Store :=
  ⟨.init, fun _ => none, .start contents, ssd, fun _ => .asked, [], [], []⟩

/-! ### Runs in which populations copy what is not being written -/

/-- No write bio on its way to the disk changes the sector. -/
def Quiet (s : Store) (hdd q : Nat) : Prop := ∀ b ∈ s.writes, b.landed = none → b.change (hdd, q) = none

/-- Targets and devices are small enough for 32-bit sector numbers, and have contexts no request still uses; a
target is offline before its LUN is removed, and no device is removed under a population. A write bio leaves
the last sector of its disk alone. A population reads a sector that is being written only after the write bio
has invalidated the mapping that is being populated. No count of requests wraps, and a read from a device that
went is put while its fragment is not in use. -/
def Careful (s : Store) : Act → Prop
  | .addcdev nrSctr cdctx _ => nrSctr < 2 ^ 32 ∧ ∀ r ∈ s.reads, ∀ hit ∈ r.hit, hit.2.cdevctx ≠ cdctx
  | .rmcdev _ => s.world.pops = []
  | .register hdd nrSctr _ => nrSctr < 2 ^ 32 - 2 ^ 11 ∧ s.world.FreshCtx hdd
  | .rmlun hdd => ∀ t, s.targets hdd = some t → t.online = false
  | .write hdd bio _ => ∀ t, s.targets hdd = some t → t.online = true → bio.psn + bio.nrSctr < t.nrSctr
  | .get4pop past => s.world.Roomy (.get4pop past)
  | .poptaskRead id _ => ∀ p ∈ s.world.pops, p.id = id → ∀ t, s.targets p.task.lunctx = some t →
    ∀ q, q / sceSctrPerFrag = p.task.lunFragnum → s.Quiet p.task.lunctx q ∨
      s.world.Overwritten t.lun id (q / sceSctrPerPage)
  | .read hdd bio => ∀ t, s.targets hdd = some t → s.world.Pinning (.get4read t.lun bio.psn bio.nrSctr)
  | .put4read hit => s.world.Pinning (.put4read hit)
  | _ => True

end Store

end Iostash
