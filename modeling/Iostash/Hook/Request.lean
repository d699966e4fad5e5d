import Iostash.Util.Pool
import Iostash.Sce.State

/-!
# A read the cache answers

`iostash_mkrequest` from a hit on, `_io_worker` and the read half of `_endio4read` in
`iostash_iohook.c`: one `struct iostash_bio`, the threads that work on it, and what becomes of the bio it
was made for. A clone in flight is the thread of its completion.
-/

namespace Iostash

/-- The fields of the base bio that are read. -/
structure Bio where
  biSector : Nat
  biSize : Nat
  startSect : Nat

/-- `psn` of `iostash_mkrequest` -/
def Bio.psn (bio : Bio) : Nat := u64 (bio.biSector + bio.startSect)

/-- `to_sector(BIO_SIZE(bio))` -/
def Bio.nrSctr (bio : Bio) : Nat := bio.biSize / 512

/-- `ENOMEM` -/
def enomem : Int := 12

/-- What the environment answers; nothing is asked twice for one request. An error of 0 is success. -/
structure Fate where
  bio : Bio
  /-- `ssd->online` in `iostash_mkrequest` -/
  online : Bool
  queueMaxHwSectors : Nat
  ioAlloc : Bool
  clone4ssd : Bool
  /-- `io->ssd->online` in `_clone_init` -/
  cloneOnline : Bool
  ssdError : Int
  clone4hdd : Bool
  hddError : Int

/-- `struct iostash_bio` with what has been done for it. -/
structure Request where
  psn : Nat
  nrSctr : Nat
  error : Int
  ioPending : Int
  /-- how often `mempool_free` got the request -/
  released : Nat
  /-- the statuses the base bio was completed with -/
  endios : List Int
  /-- the ranges of the calls of `sce_put4read` -/
  puts : List (Nat × Nat)
  /-- the base bio was handed to the original request function -/
  handed : Bool
  /-- a clone completed without error -/
  served : Bool

/-- Where a thread has come to. -/
inductive Thread where
  /-- `iostash_mkrequest` with a hit -/
  | mkrequest
  /-- its `out` label -/
  | mkrequestOut
  /-- `_io_worker`, entered or queued -/
  | ioWorker
  /-- the test of `io->error`, and the SSD clone -/
  | firstTrial
  | incPending4ssd
  | submit4ssd
  /-- `_clone_init` found the SSD offline -/
  | flowToHdd
  | clone4hdd
  | submit4hdd
  /-- the last `_dec_pending` of `_io_worker` -/
  | ioWorkerEnd
  /-- `_endio4read` of the SSD clone -/
  | endio4ssd
  | ssdReadError
  | ioQueue
  | ssdReadDone
  /-- `_endio4read` of the HDD clone -/
  | endio4hdd
  | retriedHddRead
  /-- `bio_put` and the last `_dec_pending` of `_endio4read` -/
  | endioEnd
  deriving DecidableEq

namespace Request

def incPending (io : Request) : Request := { io with ioPending := io.ioPending + 1 }

/-- The end of `_dec_pending`. Before 4.2 `bio_endio` is given the error; from then on it reports the
`bi_error` of the base bio, which nobody sets. -/
def release (legacy : Bool) (io : Request) : Request :=
  { io with released := io.released + 1, endios := (if legacy then io.error else 0) :: io.endios }

/-- `_dec_pending` -/
def decPending (legacy : Bool) (io : Request) : Request :=
  if io.ioPending - 1 = 0 then release legacy { io with ioPending := io.ioPending - 1 }
  else { io with ioPending := io.ioPending - 1 }

/-- `sce_put4read(hdd->lun, psn, nr_sctr)` -/
def put4read (psn nrSctr : Nat) (io : Request) : Request := { io with puts := (psn, nrSctr) :: io.puts }

/-- `_io_alloc` -/
def ioAlloc (bio : Bio) (io : Request) : Request :=
  { io with psn := bio.psn, nrSctr := bio.nrSctr, error := 0, ioPending := 0 }

/-- Nothing has been done. -/
def blank : Request := ⟨0, 0, 0, 0, 0, [], [], false, false⟩

end Request

variable (fate : Fate) (legacy : Bool)

/-- What a thread does next, and what goes on after it. -/
def Thread.run (io : Request) : Thread → Request × List Thread
  | .mkrequest =>
    if fate.online = false ∨ fate.queueMaxHwSectors < fate.bio.nrSctr then
      (io.put4read fate.bio.psn fate.bio.nrSctr, [.mkrequestOut])
    else if fate.ioAlloc then (io.ioAlloc fate.bio, [.ioWorker])
    else (io, [.mkrequestOut])
  | .mkrequestOut => ({ io with handed := true }, [])
  | .ioWorker => (io.incPending, [.firstTrial])
  | .firstTrial =>
    if io.error = 0 then
      if fate.clone4ssd then (io, [if fate.cloneOnline then .incPending4ssd else .flowToHdd])
      else ({ io with error := -enomem }, [.ioWorkerEnd])
    else (io, [.clone4hdd])
  | .incPending4ssd => (io.incPending, [.submit4ssd])
  | .submit4ssd => (io, [.endio4ssd, .ioWorkerEnd])
  | .flowToHdd => (io.put4read io.psn io.nrSctr, [.clone4hdd])
  | .clone4hdd =>
    if fate.clone4hdd then (io.incPending, [.submit4hdd]) else ({ io with error := -enomem }, [.ioWorkerEnd])
  | .submit4hdd => (io, [.endio4hdd, .ioWorkerEnd])
  | .ioWorkerEnd => (io.decPending legacy, [])
  | .endio4ssd =>
    ({ io with error := fate.ssdError, served := io.served || fate.ssdError == 0 },
      [if fate.ssdError = 0 then .ssdReadDone else .ssdReadError])
  | .ssdReadError => (io.incPending, [.ioQueue])
  | .ioQueue => (io, [.ioWorker, .endioEnd])
  | .ssdReadDone => (io.put4read io.psn io.nrSctr, [.endioEnd])
  | .endio4hdd =>
    ({ io with error := fate.hddError, served := io.served || fate.hddError == 0 }, [.retriedHddRead])
  | .retriedHddRead => (io.decPending legacy, [.endioEnd])
  | .endioEnd => (io.decPending legacy, [])

/-- The request with the threads that work on it. -/
abbrev Hook := Util.Pool Request Thread

/-- The threads take their steps in any order. -/
def Hook.exec (hook : Hook) (k : Nat) : Option Hook :=
  Util.Pool.exec (fun t (_ : Unit) io => some (t.run fate legacy io)) hook (k, ())

/-- `sce_get4read` has succeeded. -/
def Hook.hit : Hook := ⟨Request.blank, [.mkrequest]⟩

/-- `_io_alloc` has made the request. -/
def Hook.created : Hook := ⟨Request.blank.ioAlloc fate.bio, [.ioWorker]⟩

end Iostash
